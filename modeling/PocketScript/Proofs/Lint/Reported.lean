import PocketScript.Lint
import PocketScript.Proofs.Parser.Firmness
import PocketScript.Proofs.Parser.Moved

/-!
# Everything is reported at a token

Whatever is reported about a list of tokens has the position of one of them.
There are three sorts of reports: the fault that parsing stops with, the remarks
it makes on the way, and the findings of the lint in the program it makes.

Following each report through the parser and the lint to the token it came from
would take an induction for each sort. One observation replaces them. Parsing
and linting carry positions along and never look at them, so that moving the
tokens moves the reports (`parse_moved_of_end`, `Lint.statements_moved`). Now move
every position except those of the tokens. This leaves the tokens as they are,
and so the reports; but a report at any other position would have been moved.

For the fault of a parser the token itself is known to be among the tokens
(`Reading.Firm`), not only its position.

## Main definitions

* `Warning.moved`: A finding at another position.
* `Position.movedUnless`: Moves every position except given ones.

## Theorems

* `Lint.statements_moved`: The findings in moved statements.
* `found_mem_of_parse_error`: A fault was found at one of the tokens.
* `remark_at_token`: So was a remark.
* `finding_at_token`: So was a finding of the lint.
-/

namespace PocketScript

theorem Expr.pos_moved (f : Position → Position) (e : Expr) : (e.moved f).pos = f e.pos := by
  cases e <;> simp only [Expr.moved, Expr.pos, Token.moved]

theorem Stmt.pos_moved (f : Position → Position) (st : Stmt) : (st.moved f).pos = f st.pos := by
  cases st <;> simp only [Stmt.moved, Stmt.pos, Token.moved, Expr.pos_moved]

/-- A finding at another position. -/
def Warning.moved (f : Position → Position) (w : Warning) : Warning := { w with pos := f w.pos }

namespace Lint

variable (f : Position → Position)

/-- What was found in a part of a program, at other positions. -/
def foundMoved (found : Bool × List Warning) : Bool × List Warning :=
  (found.1, found.2.map (Warning.moved f))

mutual

theorem statement_moved (function : Text) (inLoop : Bool) : ∀ st : Stmt,
    statement function inLoop (st.moved f) = foundMoved f (statement function inLoop st)
  | .giveBack _ _ => by simp only [Stmt.moved, statement, foundMoved, List.map_nil]
  | .leave _ => by cases inLoop <;> simp [Stmt.moved, statement, foundMoved, stray, Warning.moved,
      Token.moved]
  | .next _ => by cases inLoop <;> simp [Stmt.moved, statement, foundMoved, stray, Warning.moved,
      Token.moved]
  | .branch _ _ consequent alternate => by
      simp only [Stmt.moved, statement, statements_moved function inLoop false consequent,
        otherwise_moved function inLoop alternate, foundMoved, List.map_append]
  | .loop _ _ body => by
      simp only [Stmt.moved, statement, statements_moved function true false body, foundMoved]
  | .function name _ body => by
      simp only [Stmt.moved, statement, Token.moved, statements_moved name.lexeme false false body,
        foundMoved]
  | .delete _ _ => by simp only [Stmt.moved, statement, foundMoved, List.map_nil]
  | .expression _ => by simp only [Stmt.moved, statement, foundMoved, List.map_nil]
  | .echo _ _ => by simp only [Stmt.moved, statement, foundMoved, List.map_nil]

/-- The findings in moved statements are those in the statements, moved. -/
theorem statements_moved (function : Text) (inLoop : Bool) : ∀ (ended : Bool) (b : List Stmt),
    statements function inLoop ended (Stmt.movedAll f b) =
      foundMoved f (statements function inLoop ended b)
  | _, [] => by simp only [Stmt.movedAll, statements, foundMoved, List.map_nil]
  | true, st :: rest => by
      simp only [Stmt.movedAll, statements, statements_moved function inLoop true rest, foundMoved,
        List.map_cons, unreachable, Warning.moved, Stmt.pos_moved]
  | false, st :: rest => by
      simp only [Stmt.movedAll, statements, statement_moved function inLoop st,
        statements_moved function inLoop (statement function inLoop st).1 rest, foundMoved,
        List.map_append]

theorem otherwise_moved (function : Text) (inLoop : Bool) : ∀ alternate : Option (List Stmt),
    otherwise function inLoop (Stmt.movedElse f alternate) =
      foundMoved f (otherwise function inLoop alternate)
  | none => by simp only [Stmt.movedElse, otherwise, foundMoved, List.map_nil]
  | some body => by
      simp only [Stmt.movedElse, otherwise, statements_moved function inLoop false body]

end

end Lint

/-! ### Moving everything else -/

/-- Moves every position except those that are kept. -/
def Position.movedUnless (kept : List Position) (p : Position) : Position :=
  if p ∈ kept then p else ⟨p.line + 1, p.column⟩

theorem Position.movedUnless_eq_iff (kept : List Position) (p : Position) :
    movedUnless kept p = p ↔ p ∈ kept := by
  rw [movedUnless]
  split
  · rename_i hkept
    exact iff_of_true rfl hkept
  · rename_i hmoved
    refine iff_of_false (fun hsame => ?_) hmoved
    have hline := congrArg Position.line hsame
    simp only at hline
    omega

variable {ts : List Token}

/-- A position that is kept is that of a token. -/
theorem exists_token_of_kept {p : Position}
    (h : Position.movedUnless (ts.map Token.pos) p = p) : ∃ t ∈ ts, p = t.pos := by
  rcases List.mem_map.mp ((Position.movedUnless_eq_iff _ _).mp h) with ⟨t, ht, hsame⟩
  exact ⟨t, ht, hsame.symm⟩

/-- Moving everything but the tokens leaves what is made of them. -/
theorem parse_movedUnless (hend : ∃ t ∈ ts, t.isEnd = true) :
    (parse ts).moved (Position.movedUnless (ts.map Token.pos)) = parse ts := by
  have hsame : ts.map (Token.moved (Position.movedUnless (ts.map Token.pos))) = ts := by
    refine (List.map_congr_left fun t ht => ?_).trans (List.map_id ts)
    rw [Token.moved, (Position.movedUnless_eq_iff _ _).mpr (List.mem_map_of_mem ht), id]
  rw [← parse_moved_of_end _ hend, hsame]

/-- A fault was found at one of the tokens. -/
theorem found_mem_of_parse_error (hend : ∃ t ∈ ts, t.isEnd = true) {e : GrammarFault}
    (he : (parse ts).outcome = .error e) : e.found ∈ ts := by
  have hprogram := (parse_eq_error_iff ts e (parse ts).remarks).mp ⟨he, rfl⟩
  have hbefore : ∀ t ∈ Token.beforeEnd ts, t ∈ ts :=
    fun t ht => (List.takeWhile_sublist _).subset ht
  have hfirm := program_firm (endToken ts) (endToken ts) [] (descentBound (Token.beforeEnd ts))
    (Token.beforeEnd ts)
  rw [hprogram] at hfirm
  generalize program (endToken ts) _ (Token.beforeEnd ts ++ []) = longer at hfirm
  cases hfirm with
  | failed hmem => exact hbefore _ hmem
  | hopeless hmem _ _ => exact hbefore _ hmem
  | atEnd hstop =>
      rw [hstop, endToken]
      cases hfind : ts.find? Token.isEnd with
      | some t => exact List.mem_of_find?_eq_some hfind
      | none =>
          rcases hend with ⟨t, ht, hkind⟩
          rw [List.find?_eq_none] at hfind
          exact absurd hkind (hfind t ht)

/-- A remark was made at one of the tokens. -/
theorem remark_at_token (hend : ∃ t ∈ ts, t.isEnd = true) {r : GrammarFault}
    (hr : r ∈ (parse ts).remarks) : ∃ t ∈ ts, r.pos = t.pos := by
  have hsame : (parse ts).remarks.map
      (GrammarFault.moved (Position.movedUnless (ts.map Token.pos))) = (parse ts).remarks :=
    congrArg Parsed.remarks (parse_movedUnless hend)
  have hkept := List.map_inj_left.mp (hsame.trans (List.map_id _).symm) r hr
  exact exists_token_of_kept (congrArg GrammarFault.pos hkept)

/-- A finding of the lint was made at one of the tokens. -/
theorem finding_at_token (hend : ∃ t ∈ ts, t.isEnd = true) {p : List Stmt}
    (hp : (parse ts).outcome = .ok p) {w : Warning} (hw : w ∈ Lint.check p) :
    ∃ t ∈ ts, w.pos = t.pos := by
  have hprogram : Stmt.movedAll (Position.movedUnless (ts.map Token.pos)) p = p := by
    have houtcome := congrArg Parsed.outcome (parse_movedUnless hend)
    rw [Parsed.moved, hp] at houtcome
    exact Except.ok.inj houtcome
  have hfound : w ∈ (Lint.statements RuntimeFault.scriptName false false p).2 :=
    (List.mergeSort_perm _ _).subset hw
  have hsame : (Lint.statements RuntimeFault.scriptName false false p).2.map
      (Warning.moved (Position.movedUnless (ts.map Token.pos))) =
      (Lint.statements RuntimeFault.scriptName false false p).2 := by
    have hmoved := Lint.statements_moved (Position.movedUnless (ts.map Token.pos))
      RuntimeFault.scriptName false false p
    rw [hprogram] at hmoved
    exact (congrArg Prod.snd hmoved).symm
  have hkept := List.map_inj_left.mp (hsame.trans (List.map_id _).symm) w hfound
  exact exists_token_of_kept (congrArg Warning.pos hkept)

end PocketScript
