import PocketScript.Program.Printer
import PocketScript.Proofs.Number.Written
import PocketScript.Proofs.Program.Moved
import PocketScript.Proofs.Scanning.Lexicon

/-!
# Programs as terms

A print without its layout is a sequence of terms: constants, words, and terms in
parentheses. Here is the way back from the terms to the program.

The terms forget which words are names, which are operators and which only tell forms
apart, and the same word can be all of that: `group`, `call` and `expr` are names that
a program may use. But a word that tells forms apart stands behind an opening
parenthesis and a name does not, and an operator is no word of letters. What is left
to tell apart are the forms whose operators are alike. A sign has one operand and an
operator that joins has two, and all others differ in their operators.

The bodies of a branch are told apart by the word between them. It is no statement,
because statements are in parentheses, so an empty else part is told from none.

## Main definitions

* `Term`: A print without its layout.
* `Expr.term`, `Stmt.term`: Programs as terms.
* `Term.expr?`, `Term.stmt?`, `Term.block?`: The way back.
* `Expr.Printable`, `Stmt.Printable`: The tokens of a program are as they are scanned, and
  its numbers are finite.

## Theorems

* `Expr.expr?_term`: An expression is read back from its term.
* `Stmt.stmt?_term`, `Stmt.block?_terms`: So are statements.
-/

namespace PocketScript

/-- What a print has besides parentheses. -/
inductive Leaf where
  | constant (value : Literal)
  | word (text : Text)

/-- A print without its layout. -/
inductive Term where
  | leaf (l : Leaf)
  | node (parts : List Term)

namespace Term

/-- A word by itself. -/
def word (t : Text) : Term := .leaf (.word t)

/-- Terms in parentheses, with a word in front that tells what they are. -/
def headed (head : Text) (parts : List Term) : Term := .node (word head :: parts)

end Term

mutual

/-- An expression as a term. -/
def Expr.term : Expr → Term
  | .constant value _ => .leaf (.constant value)
  | .grouping inner _ => .headed "group" [inner.term]
  | .reference name => .word name.lexeme
  | .assign name value => .headed "=" [.word name.lexeme, value.term]
  | .augmented name operator value => .headed operator.lexeme [.word name.lexeme, value.term]
  | .step operator name => .headed operator.lexeme [.word name.lexeme]
  | .unary operator operand => .headed operator.lexeme [operand.term]
  | .binary left operator right => .headed operator.lexeme [left.term, right.term]
  | .logical left operator right => .headed operator.lexeme [left.term, right.term]
  | .call callee _ args => .headed "call" (callee.term :: Expr.terms args)

/-- Expressions as terms. -/
def Expr.terms : List Expr → List Term
  | [] => []
  | e :: es => e.term :: Expr.terms es

end

/-- Names as terms. -/
def Token.terms (ts : List Token) : List Term := ts.map fun t => .word t.lexeme

mutual

/-- A statement as a term. -/
def Stmt.term : Stmt → Term
  | .expression value => .headed "expr" [value.term]
  | .echo _ value => .headed "echo" [value.term]
  | .giveBack _ none => .headed "return" []
  | .giveBack _ (some value) => .headed "return" [value.term]
  | .delete _ targets => .headed "del" (Token.terms targets)
  | .leave _ => .headed "break" []
  | .next _ => .headed "continue" []
  | .function name params body =>
    .headed "func" (.word name.lexeme :: .node (Token.terms params) :: Stmt.terms body)
  | .loop _ condition body => .headed "while" (condition.term :: Stmt.terms body)
  | .branch _ condition consequent alternate =>
    .headed "if" (condition.term :: (Stmt.terms consequent ++ Stmt.termsElse alternate))

/-- Statements as terms. -/
def Stmt.terms : List Stmt → List Term
  | [] => []
  | st :: rest => st.term :: Stmt.terms rest

/-- An else part as terms. -/
def Stmt.termsElse : Option (List Stmt) → List Term
  | none => []
  | some body => .word "else" :: Stmt.terms body

end

/-! ### The way back -/

namespace Token

/-- A name that stands nowhere. -/
def ofName (w : Text) : Token := ⟨.identifier, w, none, .start⟩

/-- An operator or a parenthesis that stands nowhere. -/
def ofSymbol (w : Text) : Token := ⟨Kind.ofName w, w, none, .start⟩

/-- A reserved word that stands nowhere. -/
def ofReserved (w : Text) : Token := ⟨Kind.ofWord w, w, none, .start⟩

end Token

/-- The name that an expression is, if it is one. -/
def Expr.name? : Expr → Option Token
  | .reference name => some name
  | _ => none

/-- The expression that an operator makes of its operands. -/
def Expr.ofOperator (op : Token) : List Expr → Option Expr
  | [operand] =>
    if op.kind ∈ steps then operand.name?.map (.step op) else some (.unary op operand)
  | [left, right] =>
    if op.kind = .assign then left.name?.map fun name => .assign name right
    else if op.kind ∈ compounds then left.name?.map fun name => .augmented name op right
    else if op.kind ∈ [.both, .either] then some (.logical left op right)
    else some (.binary left op right)
  | _ => none

/-- The expression with a word in front and parts behind it. -/
def Expr.ofParts (head : Text) (parts : List Expr) : Option Expr :=
  if head = utf8 "call" then
    match parts with
    | callee :: args => some (.call callee (.ofSymbol ")") args)
    | [] => none
  else if head = utf8 "group" then
    match parts with
    | [inner] => some (.grouping inner .start)
    | _ => none
  else Expr.ofOperator (.ofSymbol head) parts

/-- The statement that is a word by itself. -/
def Stmt.ofHead (head : Text) : Option Stmt :=
  if head = utf8 "return" then some (.giveBack (.ofReserved head) none)
  else if head = utf8 "break" then some (.leave (.ofReserved head))
  else if head = utf8 "continue" then some (.next (.ofReserved head))
  else if head = utf8 "del" then some (.delete (.ofReserved head) [])
  else none

/-- The statement with a word in front, an expression and perhaps bodies. -/
def Stmt.ofParts (head : Text) (e : Expr) (body : List Stmt) (other : Option (List Stmt)) :
    Option Stmt :=
  if head = utf8 "expr" then some (.expression e)
  else if head = utf8 "echo" then some (.echo (.ofReserved head) e)
  else if head = utf8 "return" then some (.giveBack (.ofReserved head) (some e))
  else if head = utf8 "while" then some (.loop (.ofReserved head) e body)
  else if head = utf8 "if" then some (.branch (.ofReserved head) e body other)
  else none

namespace Term

/-- The name that a term is, if it is a word. -/
def name? : Term → Option Token
  | .leaf (.word w) => some (.ofName w)
  | _ => none

mutual

/-- The expression that a term stands for. -/
def expr? : Term → Option Expr
  | .leaf (.constant value) => some (.constant value .start)
  | .leaf (.word w) => some (.reference (.ofName w))
  | .node (.leaf (.word head) :: parts) => (exprs? parts).bind (Expr.ofParts head)
  | .node _ => none

/-- The expressions that terms stand for. -/
def exprs? : List Term → Option (List Expr)
  | [] => some []
  | t :: ts => t.expr?.bind fun e => (exprs? ts).map (e :: ·)

end

mutual

/-- The statement that a term stands for. -/
def stmt? : Term → Option Stmt
  | .node (.leaf (.word head) :: parts) =>
    match parts with
    | [] => Stmt.ofHead head
    | first :: rest =>
      if head = utf8 "func" then
        match first, rest with
        | .leaf (.word name), .node params :: body =>
          (block? body).map fun b => .function (.ofName name) (params.filterMap name?) b.1
        | _, _ => none
      else if head = utf8 "del" then
        some (.delete (.ofReserved head) ((first :: rest).filterMap name?))
      else first.expr?.bind fun e => (block? rest).bind fun b => Stmt.ofParts head e b.1 b.2
  | _ => none

/-- The statements that terms stand for, up to a word between them and behind it. -/
def block? : List Term → Option (List Stmt × Option (List Stmt))
  | [] => some ([], none)
  | .leaf _ :: rest => (block? rest).map fun b => ([], some b.1)
  | t :: rest => t.stmt?.bind fun st => (block? rest).map fun b => (st :: b.1, b.2)

end

end Term

/-! ### Programs that are told by their print -/

/-- The token is a name as it is scanned. -/
structure Token.IsName (t : Token) : Prop where
  unplaced : t.moved unplaced = .ofName t.lexeme
  word : Lexicon.IsWord t.lexeme
  free : t.lexeme ∉ Kind.keywordNames

/-- The token is an operator or a parenthesis, of one of these kinds, as it is scanned. -/
structure Token.IsSymbol (ks : List Kind) (t : Token) : Prop where
  kind : t.kind ∈ ks
  lexeme : t.lexeme = t.kind.name
  unplaced : t.moved unplaced = .ofSymbol t.lexeme

/-- A constant is no infinite and no undefined number. -/
def Literal.IsFinite : Literal → Prop
  | .number x => Number.IsFinite x
  | _ => True

instance : DecidablePred Literal.IsFinite
  | .number x => inferInstanceAs (Decidable (Number.IsFinite x))
  | .null | .bool _ | .string _ => inferInstanceAs (Decidable True)

/-- The operators that join two operands, but the logical ones. -/
def joiners : List Kind :=
  [.equal, .notEqual, .less, .lessEqual, .greater, .greaterEqual, .plus, .minus, .star, .slash,
    .percent]

mutual

/-- The tokens of an expression are as they are scanned, and its numbers are finite. -/
def Expr.Printable : Expr → Prop
  | .constant value _ => value.IsFinite
  | .grouping inner _ => inner.Printable
  | .reference name => name.IsName
  | .assign name value => name.IsName ∧ value.Printable
  | .augmented name operator value =>
    name.IsName ∧ operator.IsSymbol compounds ∧ value.Printable
  | .step operator name => operator.IsSymbol steps ∧ name.IsName
  | .unary operator operand => operator.IsSymbol signs ∧ operand.Printable
  | .binary left operator right =>
    operator.IsSymbol joiners ∧ left.Printable ∧ right.Printable
  | .logical left operator right =>
    operator.IsSymbol [.both, .either] ∧ left.Printable ∧ right.Printable
  | .call callee paren args =>
    paren.IsSymbol [.rightParen] ∧ callee.Printable ∧ Expr.PrintableAll args

/-- So are those of expressions. -/
def Expr.PrintableAll : List Expr → Prop
  | [] => True
  | e :: es => e.Printable ∧ Expr.PrintableAll es

end

/-- The token is a reserved word as it is scanned. -/
def Token.IsReserved (w : Text) (t : Token) : Prop := t.moved unplaced = .ofReserved w

mutual

/-- The tokens of a statement are as they are scanned, and its numbers are finite. -/
def Stmt.Printable : Stmt → Prop
  | .expression value => value.Printable
  | .echo keyword value => keyword.IsReserved "echo" ∧ value.Printable
  | .giveBack keyword none => keyword.IsReserved "return"
  | .giveBack keyword (some value) => keyword.IsReserved "return" ∧ value.Printable
  | .delete keyword targets => keyword.IsReserved "del" ∧ ∀ t ∈ targets, t.IsName
  | .leave keyword => keyword.IsReserved "break"
  | .next keyword => keyword.IsReserved "continue"
  | .function name params body =>
    name.IsName ∧ (∀ t ∈ params, t.IsName) ∧ Stmt.PrintableAll body
  | .loop keyword condition body =>
    keyword.IsReserved "while" ∧ condition.Printable ∧ Stmt.PrintableAll body
  | .branch keyword condition consequent alternate =>
    keyword.IsReserved "if" ∧ condition.Printable ∧ Stmt.PrintableAll consequent ∧
      Stmt.PrintableElse alternate

/-- So are those of statements. -/
def Stmt.PrintableAll : List Stmt → Prop
  | [] => True
  | st :: rest => st.Printable ∧ Stmt.PrintableAll rest

/-- So are those of an else part. -/
def Stmt.PrintableElse : Option (List Stmt) → Prop
  | none => True
  | some body => Stmt.PrintableAll body

end

/-- An operator is no word that tells forms apart. -/
theorem Expr.ofParts_symbol {op : Token} {ks : List Kind} (h : op.IsSymbol ks)
    (hks : ks ⊆ Kind.symbols) (parts : List Expr) :
    Expr.ofParts op.lexeme parts = Expr.ofOperator (op.moved unplaced) parts := by
  have hall : ∀ k ∈ Kind.symbols, k.name ≠ utf8 "call" ∧ k.name ≠ utf8 "group" := by decide
  rcases hall op.kind (hks h.kind) with ⟨hcall, hgroup⟩
  rw [← h.lexeme] at hcall hgroup
  rw [Expr.ofParts.eq_def, if_neg hcall, if_neg hgroup, h.unplaced]

theorem Expr.ofOperator_sign {op : Token} (h : op.kind ∈ signs) (operand : Expr) :
    Expr.ofOperator (op.moved unplaced) [operand] = some (.unary (op.moved unplaced) operand) := by
  have hall : ∀ k ∈ signs, k ∉ steps := by decide
  exact if_neg (hall op.kind h)

theorem Expr.ofOperator_step {op name : Token} (h : op.kind ∈ steps) :
    Expr.ofOperator (op.moved unplaced) [.reference name] =
      some (.step (op.moved unplaced) name) :=
  if_pos h

theorem Expr.ofOperator_compound {op name : Token} (h : op.kind ∈ compounds) (value : Expr) :
    Expr.ofOperator (op.moved unplaced) [.reference name, value] =
      some (.augmented name (op.moved unplaced) value) := by
  have hall : ∀ k ∈ compounds, k ≠ .assign := by decide
  exact (if_neg (hall op.kind h)).trans (if_pos h)

theorem Expr.ofOperator_logical {op : Token} (h : op.kind ∈ [Kind.both, .either])
    (left right : Expr) : Expr.ofOperator (op.moved unplaced) [left, right] =
      some (.logical left (op.moved unplaced) right) := by
  have hall : ∀ k ∈ [Kind.both, .either], k ≠ .assign ∧ k ∉ compounds := by decide
  rcases hall op.kind h with ⟨hassign, hcompound⟩
  exact ((if_neg hassign).trans (if_neg hcompound)).trans (if_pos h)

theorem Expr.ofOperator_joiner {op : Token} (h : op.kind ∈ joiners) (left right : Expr) :
    Expr.ofOperator (op.moved unplaced) [left, right] =
      some (.binary left (op.moved unplaced) right) := by
  have hall : ∀ k ∈ joiners, k ≠ .assign ∧ k ∉ compounds ∧ k ∉ [Kind.both, .either] := by decide
  rcases hall op.kind h with ⟨hassign, hcompound, hlogical⟩
  exact ((if_neg hassign).trans (if_neg hcompound)).trans (if_neg hlogical)

theorem Expr.ofParts_assign (name : Token) (value : Expr) :
    Expr.ofParts "=" [.reference name, value] = some (.assign name value) := by
  rfl

theorem Term.exprs?_one {t : Term} {e : Expr} (h : t.expr? = some e) :
    Term.exprs? [t] = some [e] := by
  simp only [Term.exprs?, h, Option.bind_some, Option.map_some]

theorem Term.exprs?_two {t u : Term} {e f : Expr} (ht : t.expr? = some e) (hu : u.expr? = some f) :
    Term.exprs? [t, u] = some [e, f] := by
  simp only [Term.exprs?, ht, hu, Option.bind_some, Option.map_some]

theorem Term.expr?_headed {head : Text} {parts : List Term} {es : List Expr}
    (h : Term.exprs? parts = some es) :
    (Term.headed head parts).expr? = Expr.ofParts head es := by
  rw [headed, word, expr?, h, Option.bind_some]

theorem Term.expr?_name {name : Token} (h : name.IsName) :
    (Term.word name.lexeme).expr? = some (.reference (name.moved unplaced)) := by
  rw [word, expr?, h.unplaced]

mutual

/-- An expression is read back from its term, at no position. -/
theorem Expr.expr?_term : ∀ e : Expr, e.Printable → e.term.expr? = some (e.moved unplaced)
  | .constant value pos, _ => by
      rw [Expr.term, Term.expr?, Expr.moved, unplaced]
  | .grouping inner pos, h => by
      rw [Expr.Printable] at h
      rw [Expr.term, Term.expr?_headed (Term.exprs?_one (Expr.expr?_term inner h)), Expr.moved]
      rfl
  | .reference name, h => by
      rw [Expr.Printable] at h
      rw [Expr.term, Term.expr?_name h, Expr.moved]
  | .assign name value, h => by
      rw [Expr.Printable] at h
      rw [Expr.term, Term.expr?_headed
        (Term.exprs?_two (Term.expr?_name h.1) (Expr.expr?_term value h.2)),
        Expr.ofParts_assign, Expr.moved]
  | .augmented name operator value, h => by
      rw [Expr.Printable] at h
      rw [Expr.term, Term.expr?_headed
        (Term.exprs?_two (Term.expr?_name h.1) (Expr.expr?_term value h.2.2)),
        Expr.ofParts_symbol h.2.1 (by decide), Expr.ofOperator_compound h.2.1.kind, Expr.moved]
  | .step operator name, h => by
      rw [Expr.Printable] at h
      rw [Expr.term, Term.expr?_headed (Term.exprs?_one (Term.expr?_name h.2)),
        Expr.ofParts_symbol h.1 (by decide), Expr.ofOperator_step h.1.kind, Expr.moved]
  | .unary operator operand, h => by
      rw [Expr.Printable] at h
      rw [Expr.term, Term.expr?_headed (Term.exprs?_one (Expr.expr?_term operand h.2)),
        Expr.ofParts_symbol h.1 (by decide), Expr.ofOperator_sign h.1.kind, Expr.moved]
  | .binary left operator right, h => by
      rw [Expr.Printable] at h
      rw [Expr.term, Term.expr?_headed
        (Term.exprs?_two (Expr.expr?_term left h.2.1) (Expr.expr?_term right h.2.2)),
        Expr.ofParts_symbol h.1 (by decide), Expr.ofOperator_joiner h.1.kind, Expr.moved]
  | .logical left operator right, h => by
      rw [Expr.Printable] at h
      rw [Expr.term, Term.expr?_headed
        (Term.exprs?_two (Expr.expr?_term left h.2.1) (Expr.expr?_term right h.2.2)),
        Expr.ofParts_symbol h.1 (by decide), Expr.ofOperator_logical h.1.kind, Expr.moved]
  | .call callee paren args, h => by
      rw [Expr.Printable] at h
      -- The parenthesis is not among the terms, but there is only one that it can be.
      have hparen : paren.lexeme = utf8 ")" := by
        rw [h.1.lexeme, List.mem_singleton.mp h.1.kind]
        rfl
      have hparts : Term.exprs? (callee.term :: Expr.terms args) =
          some (callee.moved unplaced :: Expr.movedAll unplaced args) := by
        rw [Term.exprs?, Expr.expr?_term callee h.2.1, Option.bind_some,
          Expr.exprs?_terms args h.2.2, Option.map_some]
      rw [Expr.term, Term.expr?_headed hparts, Expr.moved, h.1.unplaced, hparen]
      rfl

theorem Expr.exprs?_terms : ∀ es : List Expr, Expr.PrintableAll es →
    Term.exprs? (Expr.terms es) = some (Expr.movedAll unplaced es)
  | [], _ => by
      rw [Expr.terms, Term.exprs?, Expr.movedAll]
  | e :: es, h => by
      rw [Expr.PrintableAll] at h
      rw [Expr.terms, Term.exprs?, Expr.expr?_term e h.1, Option.bind_some,
        Expr.exprs?_terms es h.2, Option.map_some, Expr.movedAll]

end

/-- Names are read back. -/
theorem Token.filterMap_terms {ts : List Token} (h : ∀ t ∈ ts, t.IsName) :
    (Token.terms ts).filterMap Term.name? = ts.map (Token.moved unplaced) := by
  rw [Token.terms, List.filterMap_map, ← List.filterMap_eq_map]
  refine List.filterMap_congr fun t ht => ?_
  exact congrArg some (h t ht).unplaced.symm

theorem Term.stmt?_headed {head : Text} {first : Term} {rest : List Term} {e : Expr}
    {b : List Stmt × Option (List Stmt)} (hfunc : head ≠ utf8 "func") (hdel : head ≠ utf8 "del")
    (he : first.expr? = some e) (hb : Term.block? rest = some b) :
    (Term.headed head (first :: rest)).stmt? = Stmt.ofParts head e b.1 b.2 := by
  have hparts : (first.expr?.bind fun e => (block? rest).bind fun b =>
      Stmt.ofParts head e b.1 b.2) = Stmt.ofParts head e b.1 b.2 := by
    rw [he, Option.bind_some, hb, Option.bind_some]
  rw [headed, word, stmt?.eq_def]
  exact ((if_neg hfunc).trans (if_neg hdel)).trans hparts

theorem Stmt.exists_node (st : Stmt) : ∃ parts, st.term = .node parts := by
  cases st with
  | giveBack keyword value =>
      cases value with
      | none => exact ⟨_, by rw [Stmt.term]; rfl⟩
      | some value => exact ⟨_, by rw [Stmt.term]; rfl⟩
  | _ => exact ⟨_, by rw [Stmt.term]; rfl⟩

theorem Term.block?_node (parts rest : List Term) : Term.block? (.node parts :: rest) =
    (Term.node parts).stmt?.bind fun st => (Term.block? rest).map fun b => (st :: b.1, b.2) := by
  rw [block?]
  nofun

mutual

/-- A statement is read back from its term, at no position. -/
theorem Stmt.stmt?_term : ∀ st : Stmt, st.Printable → st.term.stmt? = some (st.moved unplaced)
  | .expression value, h => by
      rw [Stmt.Printable] at h
      rw [Stmt.term, Term.stmt?_headed (by decide) (by decide) (Expr.expr?_term value h) rfl,
        Stmt.moved]
      rfl
  | .echo keyword value, h => by
      rw [Stmt.Printable] at h
      rw [Stmt.term, Term.stmt?_headed (by decide) (by decide) (Expr.expr?_term value h.2) rfl,
        Stmt.moved, h.1]
      rfl
  | .giveBack keyword none, h => by
      rw [Stmt.Printable] at h
      rw [Stmt.term, Stmt.moved, h]
      rfl
  | .giveBack keyword (some value), h => by
      rw [Stmt.Printable] at h
      rw [Stmt.term, Term.stmt?_headed (by decide) (by decide) (Expr.expr?_term value h.2) rfl,
        Stmt.moved, h.1]
      rfl
  | .delete keyword targets, h => by
      rw [Stmt.Printable] at h
      have hnames := Token.filterMap_terms h.2
      rw [Stmt.term, Stmt.moved, h.1, ← hnames]
      cases targets with
      | nil => rfl
      | cons t ts => rfl
  | .leave keyword, h => by
      rw [Stmt.Printable] at h
      rw [Stmt.term, Stmt.moved, h]
      rfl
  | .next keyword, h => by
      rw [Stmt.Printable] at h
      rw [Stmt.term, Stmt.moved, h]
      rfl
  | .function name params body, h => by
      rw [Stmt.Printable] at h
      have hbody := Stmt.block?_terms body h.2.2 []
      rw [List.append_nil, Term.block?, Option.map_some, List.append_nil] at hbody
      rw [Stmt.term, Stmt.moved, h.1.unplaced, ← Token.filterMap_terms h.2.1, Term.headed,
        Term.word, Term.word, Term.stmt?, if_pos rfl, hbody, Option.map_some]
  | .loop keyword condition body, h => by
      rw [Stmt.Printable] at h
      have hbody := Stmt.block?_terms body h.2.2 []
      rw [List.append_nil, Term.block?, Option.map_some, List.append_nil] at hbody
      rw [Stmt.term, Term.stmt?_headed (by decide) (by decide)
        (Expr.expr?_term condition h.2.1) hbody, Stmt.moved, h.1]
      rfl
  | .branch keyword condition consequent alternate, h => by
      rw [Stmt.Printable] at h
      -- The body ends at the word that begins the else part, or where the terms end.
      have hbody := Stmt.block?_terms consequent h.2.2.1 (Stmt.termsElse alternate)
      rw [Stmt.block?_termsElse alternate h.2.2.2, Option.map_some] at hbody
      rw [Stmt.term, Term.stmt?_headed (by decide) (by decide)
        (Expr.expr?_term condition h.2.1) hbody, Stmt.moved, h.1, List.append_nil]
      rfl

/-- The statements of a body are read back, and then what is behind them. -/
theorem Stmt.block?_terms : ∀ b : List Stmt, Stmt.PrintableAll b → ∀ ts : List Term,
    Term.block? (Stmt.terms b ++ ts) =
      (Term.block? ts).map fun c => (Stmt.movedAll unplaced b ++ c.1, c.2)
  | [], _, ts => by
      rw [Stmt.terms, List.nil_append, Stmt.movedAll]
      exact Option.map_id'.symm
  | st :: rest, h, ts => by
      rw [Stmt.PrintableAll] at h
      have hfirst := Stmt.stmt?_term st h.1
      rcases st.exists_node with ⟨parts, hnode⟩
      rw [hnode] at hfirst
      rw [Stmt.terms, hnode, List.cons_append, Term.block?_node, hfirst, Option.bind_some,
        Stmt.block?_terms rest h.2 ts, Option.map_map, Stmt.movedAll]
      rfl

/-- An else part is read back, and so is that there is none. -/
theorem Stmt.block?_termsElse : ∀ b : Option (List Stmt), Stmt.PrintableElse b →
    Term.block? (Stmt.termsElse b) = some ([], Stmt.movedElse unplaced b)
  | none, _ => by
      rw [Stmt.termsElse, Term.block?, Stmt.movedElse]
  | some body, h => by
      rw [Stmt.PrintableElse] at h
      have hbody := Stmt.block?_terms body h []
      rw [List.append_nil, Term.block?, Option.map_some, List.append_nil] at hbody
      rw [Stmt.termsElse, Term.word, Term.block?, hbody, Option.map_some, Stmt.movedElse]

end

end PocketScript
