import PocketScript.Proofs.Parser.Exact
import PocketScript.Proofs.Program.Shown
import PocketScript.Proofs.Scanning.Tokenised

/-!
# What the print of a parsed program tells

Two parsed programs have the same print exactly if they are the same but for the
positions of their tokens.

A print shows lexemes, not tokens, and for most statements not even the lexeme of the
keyword. So it takes that the tokens of a parsed program were scanned, and that each
stands where the grammar asks for its kind: then its lexeme, or the place where it
stands, says everything else about it. A program built by hand could have a name
`(group x)`, and its print would not tell it from `x` in parentheses.

Numbers have to be finite. A run of digits that is too long for a double is printed
like the name `inf`.

## Main definitions

* `Token.Legible`: A token as it is scanned, with a finite number if it has one.
* `Grammar.Form.Printable`: A tree that is told by its print, of whatever form it is.
* `Token.FiniteNumbers`: All number literals are finite.

## Theorems

* `Grammar.Derives.printable`: Trees of legible tokens are told by their print.
* `Stmt.printAll_movedAll`: Positions are not printed.
* `prints_tell_programs_apart`: Same print, same program.
-/

namespace PocketScript

namespace Lexicon.IsLexeme

variable {u : Text} {k : Kind} {l : Option Literal}

theorem of_identifier (h : IsLexeme u .identifier l) :
    IsWord u ∧ u ∉ Kind.keywordNames ∧ l = none := by
  cases h with
  | name hword hfree => exact ⟨hword, (not_mem_keywordNames_iff u).mpr hfree, rfl⟩
  | symbol hk => exact absurd hk (by decide)
  | reserved hmem _ =>
      have hall : ∀ entry ∈ reservedWords, entry.2 ≠ .identifier := by decide
      exact absurd rfl (hall _ hmem)

theorem of_symbol (h : IsLexeme u k l) (hk : k ∈ Kind.symbols) : u = k.name ∧ l = none := by
  cases h with
  | symbol _ => exact ⟨rfl, rfl⟩
  | reserved hmem _ =>
      have hall : ∀ entry ∈ reservedWords, entry.2 ∉ Kind.symbols := by decide
      exact absurd hk (hall _ hmem)
  | _ => exact absurd hk (by decide)

theorem of_reserved {w : Text} (h : IsLexeme u k l) (hmem : (w, k) ∈ Kind.keywords)
    (hplain : k ∉ [.trueWord, .falseWord, .nullWord]) : u = w ∧ l = none := by
  have hone : ∀ entry ∈ Kind.keywords, ∀ entry' ∈ Kind.keywords, entry.2 = entry'.2 →
      entry.1 = entry'.1 := by
    decide
  have hall : ∀ entry ∈ Kind.keywords, entry.2 ∉ Kind.symbols ∧
      entry.2 ∉ [.identifier, .number, .string] := by
    decide
  have hother : k ∉ Kind.symbols ∧ k ∉ [.identifier, .number, .string] := hall _ hmem
  -- The kind says which rule it was, and no two reserved words have one kind.
  cases h with
  | reserved hmem' _ => exact ⟨hone _ ((mem_keywords_iff _).mpr hmem') _ hmem rfl, rfl⟩
  | symbol hk => exact absurd hk hother.1
  | trueWord | falseWord | nullWord => exact absurd (by decide) hplain
  | name _ _ | whole _ _ | fraction _ _ _ | quoted _ _ => exact absurd (by decide) hother.2

theorem of_constant (h : IsLexeme u k l)
    (hk : k ∈ [Kind.trueWord, .falseWord, .nullWord, .number, .string]) : ∃ v, l = some v := by
  cases h with
  | symbol hsymbol =>
      have hall : ∀ k ∈ Kind.symbols,
          k ∉ [Kind.trueWord, .falseWord, .nullWord, .number, .string] := by
        decide
      exact absurd hk (hall _ hsymbol)
  | name _ _ => exact absurd hk (by decide)
  | reserved hmem hplain =>
      have hall : ∀ entry ∈ reservedWords, entry.2 ∉ [.trueWord, .falseWord, .nullWord] →
          entry.2 ∉ [Kind.trueWord, .falseWord, .nullWord, .number, .string] := by
        decide
      exact absurd hk (hall _ hmem hplain)
  | _ => exact ⟨_, rfl⟩

end Lexicon.IsLexeme

/-- The token is as it is scanned, and its number is finite if it has one. -/
structure Token.Legible (t : Token) : Prop where
  scanned : Lexicon.IsLexeme t.lexeme t.kind t.literal
  finite : ∀ v ∈ t.literal, v.IsFinite

namespace Token.Legible

variable {t : Token}

theorem isName (h : t.Legible) (hk : t.kind = .identifier) : t.IsName := by
  have hscanned := h.scanned
  rw [hk] at hscanned
  rcases hscanned.of_identifier with ⟨hword, hfree, hnone⟩
  refine ⟨?_, hword, hfree⟩
  rw [Token.moved, Token.ofName, unplaced, hk, hnone]

theorem isSymbol {ks : List Kind} (h : t.Legible) (hk : t.kind ∈ ks)
    (hks : ks ⊆ Kind.symbols) : t.IsSymbol ks := by
  have hnames : ∀ k ∈ Kind.symbols, Kind.ofName k.name = k := by decide
  rcases h.scanned.of_symbol (hks hk) with ⟨hlexeme, hnone⟩
  refine ⟨hk, hlexeme, ?_⟩
  rw [Token.moved, Token.ofSymbol, unplaced, hlexeme, hnames t.kind (hks hk), hnone]

theorem isReserved {w : Text} {k : Kind} (h : t.Legible) (hk : t.kind = k)
    (hmem : (w, k) ∈ Kind.keywords) (hplain : k ∉ [.trueWord, .falseWord, .nullWord]) :
    t.IsReserved w := by
  have hscanned := h.scanned
  rw [hk] at hscanned
  rcases hscanned.of_reserved hmem hplain with ⟨hlexeme, hnone⟩
  rw [Token.IsReserved, Token.moved, Token.ofReserved, unplaced, hk, hlexeme, hnone,
    Lexicon.ofWord_of_keyword hmem]

/-- The constant that a token writes is finite. -/
theorem isFinite (h : t.Legible) {l : Literal} (hl : Grammar.Denotes t.kind t.literal l) :
    l.IsFinite := by
  rcases Grammar.denotes_iff.mp hl with ⟨hk, rfl⟩
  rcases h.scanned.of_constant hk with ⟨v, hv⟩
  rw [Token.value, hv, Option.getD_some]
  exact h.finite v hv

end Token.Legible

namespace Grammar

/-- The tree is told by its print, of whatever form it is. -/
def Form.Printable : (f : Form) → f.Tree → Prop
  | assignment, e => e.Printable
  | chain _, e => e.Printable
  | operand _, e => e.Printable
  | unary, e => e.Printable
  | prefixed, e => e.Printable
  | called, e => e.Printable
  | suffixed, e => e.Printable
  | primary, e => e.Printable
  | arguments, es => Expr.PrintableAll es
  | listed, es => Expr.PrintableAll es
  | parameters, ts => ∀ t ∈ ts, t.IsName
  | named, ts => ∀ t ∈ ts, t.IsName
  | statement, st => st.Printable
  | conditional, st => st.Printable
  | block, b => Stmt.PrintableAll b
  | statements, b => Stmt.PrintableAll b

/-- Trees of legible tokens are told by their print. -/
theorem Derives.printable {f : Form} {ts : List Token} {tree : f.Tree} (h : Derives f ts tree) :
    (∀ t ∈ ts, t.Legible) → f.Printable tree := by
  induction h with
  | assign hname _ _ ih =>
      simp only [List.forall_mem_cons, Form.Printable, Expr.Printable]
      exact fun ⟨hn, _, hts⟩ => ⟨hn.isName hname, ih hts⟩
  | augmented hname hop _ ih =>
      simp only [List.forall_mem_cons, Form.Printable, Expr.Printable]
      exact fun ⟨hn, ho, hts⟩ => ⟨hn.isName hname, ho.isSymbol hop (by decide), ih hts⟩
  | logical hrung _ hjoins _ ihl ihr =>
      simp only [List.forall_mem_append, List.forall_mem_cons, Form.Printable, Expr.Printable]
      exact fun ⟨hts, ho, hus⟩ =>
        ⟨ho.isSymbol (hjoins.mem_logical hrung) (by decide), ihl hts, ihr hus⟩
  | binary heither hboth _ hjoins _ ihl ihr =>
      simp only [List.forall_mem_append, List.forall_mem_cons, Form.Printable, Expr.Printable]
      exact fun ⟨hts, ho, hus⟩ =>
        ⟨ho.isSymbol (hjoins.mem_joiners heither hboth) (by decide), ihl hts, ihr hus⟩
  | sign hop _ ih =>
      simp only [List.forall_mem_cons, Form.Printable, Expr.Printable]
      exact fun ⟨ho, hts⟩ => ⟨ho.isSymbol hop (by decide), ih hts⟩
  | stepBefore hop hname =>
      simp only [List.forall_mem_cons, Form.Printable, Expr.Printable]
      exact fun ⟨ho, hn, _⟩ => ⟨ho.isSymbol hop (by decide), hn.isName hname⟩
  | call _ _ _ hright ihf ihargs =>
      simp only [List.forall_mem_append, List.forall_mem_cons, Form.Printable, Expr.Printable]
      exact fun ⟨hts, _, hus, hr, _⟩ =>
        ⟨hr.isSymbol (List.mem_singleton.mpr hright) (by decide), ihf hts, ihargs hus⟩
  | noArguments => exact fun _ => trivial
  | lastExpression _ ih =>
      simp only [Form.Printable, Expr.PrintableAll]
      exact fun hts => ⟨ih hts, trivial⟩
  | nextExpression _ _ _ ih ihs =>
      simp only [List.forall_mem_append, List.forall_mem_cons, Form.Printable, Expr.PrintableAll]
      exact fun ⟨hts, _, hus⟩ => ⟨ih hts, ihs hus⟩
  | stepAfter hop hname =>
      simp only [List.forall_mem_cons, Form.Printable, Expr.Printable]
      exact fun ⟨hn, ho, _⟩ => ⟨ho.isSymbol hop (by decide), hn.isName hname⟩
  | constant hl =>
      simp only [List.forall_mem_cons, Form.Printable, Expr.Printable]
      exact fun ⟨ht, _⟩ => ht.isFinite hl
  | name hname =>
      simp only [List.forall_mem_cons, Form.Printable, Expr.Printable]
      exact fun ⟨ht, _⟩ => ht.isName hname
  | grouping _ _ _ ih =>
      simp only [List.forall_mem_append, List.forall_mem_cons, Form.Printable, Expr.Printable]
      exact fun ⟨_, hts, _⟩ => ih hts
  | noParameters => exact fun _ => List.forall_mem_nil _
  | lastName hname =>
      simp only [List.forall_mem_cons, Form.Printable]
      exact fun ⟨ht, _⟩ => ⟨ht.isName hname, List.forall_mem_nil _⟩
  | nextName hname _ _ ih =>
      simp only [List.forall_mem_cons, Form.Printable]
      exact fun ⟨ht, _, hts⟩ => ⟨ht.isName hname, ih hts⟩
  | function _ hname _ _ _ _ ihparams ihbody =>
      simp only [List.forall_mem_append, List.forall_mem_cons, Form.Printable, Stmt.Printable]
      exact fun ⟨_, hn, _, hts, _, hus⟩ => ⟨hn.isName hname, ihparams hts, ihbody hus⟩
  | giveBackNothing hkeyword _ =>
      simp only [List.forall_mem_cons, Form.Printable, Stmt.Printable]
      exact fun ⟨hk, _⟩ => hk.isReserved hkeyword (by decide) (by decide)
  | giveBack hkeyword _ _ ih =>
      simp only [List.forall_mem_append, List.forall_mem_cons, Form.Printable, Stmt.Printable]
      exact fun ⟨hk, hts, _⟩ => ⟨hk.isReserved hkeyword (by decide) (by decide), ih hts⟩
  | delete hkeyword _ _ ih =>
      simp only [List.forall_mem_append, List.forall_mem_cons, Form.Printable, Stmt.Printable]
      exact fun ⟨hk, hts, _⟩ => ⟨hk.isReserved hkeyword (by decide) (by decide), ih hts⟩
  | loop hkeyword _ _ ih ihbody =>
      simp only [List.forall_mem_append, List.forall_mem_cons, Form.Printable, Stmt.Printable]
      exact fun ⟨hk, hts, hus⟩ =>
        ⟨hk.isReserved hkeyword (by decide) (by decide), ih hts, ihbody hus⟩
  | branch hkeyword _ _ ih ihbody =>
      simp only [List.forall_mem_append, List.forall_mem_cons, Form.Printable, Stmt.Printable]
      exact fun ⟨hk, hts, hus⟩ =>
        ⟨hk.isReserved hkeyword (by decide) (by decide), ih hts, ihbody hus, trivial⟩
  | branchElse hkeyword _ _ _ _ ih ihbody ihelse =>
      simp only [List.forall_mem_append, List.forall_mem_cons, Form.Printable, Stmt.Printable]
      exact fun ⟨hk, hts, hus, _, hvs⟩ =>
        ⟨hk.isReserved hkeyword (by decide) (by decide), ih hts, ihbody hus, ihelse hvs⟩
  | branchElseIf hkeyword _ _ _ _ ih ihbody ihelse =>
      simp only [List.forall_mem_append, List.forall_mem_cons, Form.Printable, Stmt.Printable]
      exact fun ⟨hk, hts, hus, _, hvs⟩ =>
        ⟨hk.isReserved hkeyword (by decide) (by decide), ih hts, ihbody hus, ihelse hvs, trivial⟩
  | echo hkeyword _ _ ih =>
      simp only [List.forall_mem_append, List.forall_mem_cons, Form.Printable, Stmt.Printable]
      exact fun ⟨hk, hts, _⟩ => ⟨hk.isReserved hkeyword (by decide) (by decide), ih hts⟩
  | leave hkeyword _ =>
      simp only [List.forall_mem_cons, Form.Printable, Stmt.Printable]
      exact fun ⟨hk, _⟩ => hk.isReserved hkeyword (by decide) (by decide)
  | next hkeyword _ =>
      simp only [List.forall_mem_cons, Form.Printable, Stmt.Printable]
      exact fun ⟨hk, _⟩ => hk.isReserved hkeyword (by decide) (by decide)
  | expression _ _ ih =>
      simp only [List.forall_mem_append, Form.Printable, Stmt.Printable]
      exact fun ⟨hts, _⟩ => ih hts
  | block _ _ _ ih =>
      simp only [List.forall_mem_append, List.forall_mem_cons]
      exact fun ⟨_, hts, _⟩ => ih hts
  | noStatements => exact fun _ => trivial
  | nextStatement _ _ ih ihs =>
      simp only [List.forall_mem_append, Form.Printable, Stmt.PrintableAll]
      exact fun ⟨hts, hus⟩ => ⟨ih hts, ihs hus⟩
  -- The other productions hand a tree on as it is.
  | value _ ih | single _ ih | tighter _ _ ih | tightest _ ih | unsigned _ ih | unstepped _ ih
  | callee _ ih | someArguments _ ih | bare _ ih | someParameters _ ih | conditional _ ih =>
      exact ih

end Grammar

/-! ### Positions are not printed -/

section

variable (f : Position → Position)

theorem Token.map_lexeme_moved (ts : List Token) :
    (ts.map (Token.moved f)).map Token.lexeme = ts.map Token.lexeme := by
  rw [List.map_map]
  rfl

theorem Stmt.printTargets_moved (ts : List Token) :
    Stmt.printTargets (ts.map (Token.moved f)) = Stmt.printTargets ts := by
  induction ts with
  | nil => rfl
  | cons t ts ih => rw [List.map_cons, Stmt.printTargets, Stmt.printTargets, ih, Token.moved]

mutual

theorem Expr.print_moved : ∀ e : Expr, (e.moved f).print = e.print
  | .constant _ _ => by simp only [Expr.moved, Expr.print]
  | .grouping inner _ => by simp only [Expr.moved, Expr.print, Expr.print_moved inner]
  | .reference _ => by simp only [Expr.moved, Expr.print, Token.moved]
  | .assign _ value => by simp only [Expr.moved, Expr.print, Token.moved, Expr.print_moved value]
  | .augmented _ _ value => by
      simp only [Expr.moved, Expr.print, Token.moved, Expr.print_moved value]
  | .step _ _ => by simp only [Expr.moved, Expr.print, Token.moved]
  | .unary _ operand => by
      simp only [Expr.moved, Expr.print, Token.moved, Expr.print_moved operand]
  | .binary left _ right => by
      simp only [Expr.moved, Expr.print, Token.moved, Expr.print_moved left,
        Expr.print_moved right]
  | .logical left _ right => by
      simp only [Expr.moved, Expr.print, Token.moved, Expr.print_moved left,
        Expr.print_moved right]
  | .call callee _ args => by
      simp only [Expr.moved, Expr.print, Expr.print_moved callee, Expr.printArgs_movedAll args]

theorem Expr.printArgs_movedAll : ∀ es : List Expr,
    Expr.printArgs (Expr.movedAll f es) = Expr.printArgs es
  | [] => by simp only [Expr.movedAll]
  | e :: es => by
      simp only [Expr.movedAll, Expr.printArgs, Expr.print_moved e, Expr.printArgs_movedAll es]

end

mutual

theorem Stmt.print_moved : ∀ (st : Stmt) (depth : Nat), (st.moved f).print depth = st.print depth
  | .function _ params body, depth => by
      simp only [Stmt.moved, Stmt.print, Token.moved, Token.map_lexeme_moved,
        Stmt.printAll_movedAll body]
  | .giveBack _ none, _ => by simp only [Stmt.moved, Option.map_none, Stmt.print]
  | .giveBack _ (some value), _ => by
      simp only [Stmt.moved, Option.map_some, Stmt.print, Expr.print_moved]
  | .delete _ targets, _ => by simp only [Stmt.moved, Stmt.print, Stmt.printTargets_moved]
  | .loop _ condition body, depth => by
      simp only [Stmt.moved, Stmt.print, Expr.print_moved, Stmt.printAll_movedAll body]
  | .branch _ condition consequent alternate, depth => by
      simp only [Stmt.moved, Stmt.print, Expr.print_moved, Stmt.printAll_movedAll consequent,
        Stmt.printElse_movedElse alternate]
  | .expression value, _ => by simp only [Stmt.moved, Stmt.print, Expr.print_moved]
  | .echo _ value, _ => by simp only [Stmt.moved, Stmt.print, Expr.print_moved]
  | .leave _, _ => by simp only [Stmt.moved, Stmt.print]
  | .next _, _ => by simp only [Stmt.moved, Stmt.print]

/-- Positions are not printed. -/
theorem Stmt.printAll_movedAll : ∀ (b : List Stmt) (depth : Nat),
    Stmt.printAll depth (Stmt.movedAll f b) = Stmt.printAll depth b
  | [], _ => by simp only [Stmt.movedAll]
  | st :: rest, depth => by
      simp only [Stmt.movedAll, Stmt.printAll, Stmt.print_moved st, Stmt.printAll_movedAll rest]

theorem Stmt.printElse_movedElse : ∀ (b : Option (List Stmt)) (depth : Nat),
    Stmt.printElse depth (Stmt.movedElse f b) = Stmt.printElse depth b
  | none, _ => by simp only [Stmt.movedElse]
  | some body, depth => by
      simp only [Stmt.movedElse, Stmt.printElse, Stmt.printAll_movedAll body]

end

end

/-! ### Parsed programs -/

/-- All number literals among the tokens are finite. -/
def Token.FiniteNumbers (ts : List Token) : Prop :=
  ∀ t ∈ ts, ∀ v ∈ t.literal, v.IsFinite

instance (ts : List Token) : Decidable (Token.FiniteNumbers ts) :=
  inferInstanceAs (Decidable (∀ t ∈ ts, ∀ v ∈ t.literal, v.IsFinite))

/-- A parsed program is told by its print. -/
theorem Stmt.printableAll_of_parseSource {source : Text} {ts : List Token} {p : List Stmt}
    (hscan : Token.scan source = .ok ts) (hparse : parseSource source = .ok p)
    (hfinite : Token.FiniteNumbers ts) : Stmt.PrintableAll p := by
  have hderives := (parse_eq_ok_iff ts p).mp ((parseSource_eq_ok_iff hscan p).mp hparse)
  rcases (Lexicon.scan_eq_ok_iff source ts).mp hscan with ⟨body, hbody, rfl⟩
  have hscanned := hbody.isLexeme
  have hbefore : Token.beforeEnd (body ++ [Token.endAt (Position.behind source)]) = body :=
    Token.beforeEnd_concat (fun t ht => (hscanned t ht).isEnd_eq) _
  rw [hbefore] at hderives
  exact hderives.printable fun t ht =>
    ⟨hscanned t ht, hfinite t (List.mem_append_left _ ht)⟩

/-- Of two sources that scan and parse, and whose numbers are all finite, the programs
    have the same print exactly if they are the same up to the positions of their
    tokens. -/
theorem prints_tell_programs_apart {source source' : Text} {ts ts' : List Token}
    {p q : List Stmt} (hscan : Token.scan source = .ok ts) (hscan' : Token.scan source' = .ok ts')
    (hfinite : Token.FiniteNumbers ts) (hfinite' : Token.FiniteNumbers ts')
    (hparse : parseSource source = .ok p) (hparse' : parseSource source' = .ok q) :
    printProgram p = printProgram q ↔ Stmt.movedAll unplaced p = Stmt.movedAll unplaced q := by
  constructor
  · exact Stmt.moved_eq_of_print (Stmt.printableAll_of_parseSource hscan hparse hfinite)
      (Stmt.printableAll_of_parseSource hscan' hparse' hfinite')
  · intro h
    have hmoved : ∀ b : List Stmt, printProgram (Stmt.movedAll unplaced b) = printProgram b :=
      fun b => Stmt.printAll_movedAll unplaced b 0
    rw [← hmoved p, h, hmoved q]

/-- The print of a source that scans and parses, if its numbers are finite. -/
def finitePrint? (source : Text) : Option Text :=
  match Token.scan source, parseSource source with
  | .ok ts, .ok p => if Token.FiniteNumbers ts then some (printProgram p) else none
  | _, _ => none

theorem exists_of_finitePrint? {source printed : Text} (h : finitePrint? source = some printed) :
    ∃ ts p, Token.scan source = .ok ts ∧ Token.FiniteNumbers ts ∧ parseSource source = .ok p ∧
      printProgram p = printed := by
  rw [finitePrint?] at h
  split at h
  · rename_i ts p hscan hparse
    split at h
    · rename_i hfinite
      exact ⟨ts, p, hscan, hfinite, hparse, Option.some.inj h⟩
    · cases h
  · cases h

/-- A branch, the same branch on two lines, and the branch with an empty else part. The
    prints tell that the first two are the same and the last is not. -/
theorem empty_else_is_told : ∃ p q r,
    parseSource "if group\x7bcall(7);\x7d" = .ok p ∧
    parseSource "if group\x7b\n  call( 7 ); \x7d" = .ok q ∧
    parseSource "if group\x7bcall(7);\x7delse\x7b\x7d" = .ok r ∧
    Stmt.movedAll unplaced p = Stmt.movedAll unplaced q ∧
    Stmt.movedAll unplaced p ≠ Stmt.movedAll unplaced r := by
  have hshort : finitePrint? "if group\x7bcall(7);\x7d" =
      some "(if group\n  (expr (call call 7))\n)\n" := by
    decide +kernel
  have hlong : finitePrint? "if group\x7b\n  call( 7 ); \x7d" =
      some "(if group\n  (expr (call call 7))\n)\n" := by
    decide +kernel
  have helse : finitePrint? "if group\x7bcall(7);\x7delse\x7b\x7d" =
      some "(if group\n  (expr (call call 7))\nelse\n)\n" := by
    decide +kernel
  rcases exists_of_finitePrint? hshort with ⟨ts, p, hp, hpfinite, hpparse, hpprint⟩
  rcases exists_of_finitePrint? hlong with ⟨us, q, hq, hqfinite, hqparse, hqprint⟩
  rcases exists_of_finitePrint? helse with ⟨vs, r, hr, hrfinite, hrparse, hrprint⟩
  have hsame := prints_tell_programs_apart hp hq hpfinite hqfinite hpparse hqparse
  have hother := prints_tell_programs_apart hp hr hpfinite hrfinite hpparse hrparse
  rw [hpprint, hqprint] at hsame
  rw [hpprint, hrprint] at hother
  exact ⟨p, q, r, hpparse, hqparse, hrparse, hsame.mp rfl, mt hother.mpr (by decide)⟩

end PocketScript
