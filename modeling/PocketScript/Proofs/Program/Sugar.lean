import PocketScript.Proofs.Evaluation.Correspondence

/-!
# Programs without sugar

Three forms of expression say nothing that the others could not say. A compound
assignment assigns the result of an operator, a step assigns a sum, and
parentheses leave a trace in the tree that means nothing there. Taking them out
of a program gives a program in the remaining forms.

A compound assignment to `x` has a meaning even where its token is none of the
compound operators, as it can be in a tree that comes from no source: there is
no result. It becomes an operator that has none.

Two expressions are related here if one is the other without sugar, or if they
are the same. That is less than being the same without sugar, which is what
makes it easy to look into: sugar stands on one side only, and on the other side
stands exactly what replaces it. And it is enough, because a program is related
to itself without sugar and every function in a store to itself.

## Main definitions

* `Kind.plain`, `Token.plain`: The operator inside a compound assignment.
* `Expr.stepped`: The assignment that a step stands for.
* `Expr.desugared`, `Stmt.desugared`, `Stmt.desugaredAll`: Without sugar.
* `Sweet`: One of two things is the other without sugar, or they are the same.
* `SugarCases`: What related expressions look like.

## Theorems

* `Kind.underlying?_eq`: The evaluator knows the same compound assignments.
* `Stmt.desugaredAll_desugaredAll`: There is no sugar to take out twice.
* `Sweet.expr_cases`, `Sweet.stmt_cases`, `Sweet.body_cases`: Related programs,
  one level down.
-/

namespace PocketScript

/-- The token of an operator at a position. -/
def Token.operatorAt (kind : Kind) (pos : Position) : Token := ⟨kind, kind.name, none, pos⟩

/-- The operator inside the operator of a compound assignment. Inside any other token
    there is none, and what stands here has no results. -/
def Kind.plain : Kind → Kind
  | .plusAssign => .plus
  | .minusAssign => .minus
  | .starAssign => .star
  | .slashAssign => .slash
  | .percentAssign => .percent
  | _ => .endOfInput

/-- The evaluator takes compound assignments apart in the same way. -/
theorem Kind.underlying?_eq (k : Kind) :
    k.underlying? = if k.plain = .endOfInput then none else some k.plain := by
  cases k <;> rfl

/-- The operator inside a compound assignment. -/
def Token.plain (operator : Token) : Token := .operatorAt operator.kind.plain operator.pos

/-- The assignment that a step stands for: one is added, or minus one. -/
def Expr.stepped (operator name : Token) : Expr :=
  .assign name (.binary (.reference name) (.operatorAt .plus operator.pos)
    (.constant (.number (if operator.kind = .decrement then -1 else 1)) operator.pos))

mutual

/-- The expression without sugar. -/
def Expr.desugared : Expr → Expr
  | .constant value pos => .constant value pos
  | .grouping inner _ => inner.desugared
  | .reference name => .reference name
  | .assign name value => .assign name value.desugared
  | .augmented name operator value =>
    .assign name (.binary (.reference name) operator.plain value.desugared)
  | .step operator name => .stepped operator name
  | .unary operator operand => .unary operator operand.desugared
  | .binary left operator right => .binary left.desugared operator right.desugared
  | .logical left operator right => .logical left.desugared operator right.desugared
  | .call callee paren args => .call callee.desugared paren (Expr.desugaredAll args)

/-- Expressions without sugar. -/
def Expr.desugaredAll : List Expr → List Expr
  | [] => []
  | e :: es => e.desugared :: Expr.desugaredAll es

end

mutual

/-- The statement without sugar. -/
def Stmt.desugared : Stmt → Stmt
  | .function name params body => .function name params (Stmt.desugaredAll body)
  | .giveBack keyword value => .giveBack keyword (value.map Expr.desugared)
  | .delete keyword targets => .delete keyword targets
  | .loop keyword condition body => .loop keyword condition.desugared (Stmt.desugaredAll body)
  | .branch keyword condition consequent alternate =>
    .branch keyword condition.desugared (Stmt.desugaredAll consequent)
      (Stmt.desugaredElse alternate)
  | .expression value => .expression value.desugared
  | .echo keyword value => .echo keyword value.desugared
  | .leave keyword => .leave keyword
  | .next keyword => .next keyword

/-- Statements without sugar. -/
def Stmt.desugaredAll : List Stmt → List Stmt
  | [] => []
  | st :: rest => st.desugared :: Stmt.desugaredAll rest

/-- An else part without sugar. -/
def Stmt.desugaredElse : Option (List Stmt) → Option (List Stmt)
  | none => none
  | some body => some (Stmt.desugaredAll body)

end

theorem Expr.desugaredAll_eq_map (es : List Expr) :
    Expr.desugaredAll es = es.map Expr.desugared := by
  induction es with
  | nil => rfl
  | cons e es ih => rw [desugaredAll, ih, List.map_cons]

mutual

theorem Expr.desugared_desugared : ∀ e : Expr, e.desugared.desugared = e.desugared
  | .constant _ _ => by rw [desugared, desugared]
  | .grouping inner _ => by rw [desugared, desugared_desugared inner]
  | .reference _ => by rw [desugared, desugared]
  | .assign _ value => by rw [desugared, desugared, desugared_desugared value]
  | .augmented _ _ value => by
      rw [desugared, desugared, desugared, desugared, desugared_desugared value]
  | .step _ _ => by rw [desugared, stepped, desugared, desugared, desugared, desugared]
  | .unary _ operand => by rw [desugared, desugared, desugared_desugared operand]
  | .binary left _ right => by
      rw [desugared, desugared, desugared_desugared left, desugared_desugared right]
  | .logical left _ right => by
      rw [desugared, desugared, desugared_desugared left, desugared_desugared right]
  | .call callee _ args => by
      rw [desugared, desugared, desugared_desugared callee, desugaredAll_desugaredAll args]

theorem Expr.desugaredAll_desugaredAll : ∀ es : List Expr,
    Expr.desugaredAll (Expr.desugaredAll es) = Expr.desugaredAll es
  | [] => by rw [desugaredAll, desugaredAll]
  | e :: es => by
      rw [desugaredAll, desugaredAll, desugared_desugared e, desugaredAll_desugaredAll es]

end

mutual

theorem Stmt.desugared_desugared : ∀ st : Stmt, st.desugared.desugared = st.desugared
  | .function _ _ body => by rw [desugared, desugared, desugaredAll_desugaredAll body]
  | .giveBack _ none => by rw [desugared, Option.map_none, desugared, Option.map_none]
  | .giveBack _ (some value) => by
      rw [desugared, Option.map_some, desugared, Option.map_some, Expr.desugared_desugared value]
  | .delete _ _ => by rw [desugared, desugared]
  | .loop _ condition body => by
      rw [desugared, desugared, Expr.desugared_desugared condition, desugaredAll_desugaredAll body]
  | .branch _ condition consequent alternate => by
      rw [desugared, desugared, Expr.desugared_desugared condition,
        desugaredAll_desugaredAll consequent, desugaredElse_desugaredElse alternate]
  | .expression value => by rw [desugared, desugared, Expr.desugared_desugared value]
  | .echo _ value => by rw [desugared, desugared, Expr.desugared_desugared value]
  | .leave _ => by rw [desugared, desugared]
  | .next _ => by rw [desugared, desugared]

/-- There is no sugar to take out twice. -/
theorem Stmt.desugaredAll_desugaredAll : ∀ b : List Stmt,
    Stmt.desugaredAll (Stmt.desugaredAll b) = Stmt.desugaredAll b
  | [] => by rw [desugaredAll, desugaredAll]
  | st :: rest => by
      rw [desugaredAll, desugaredAll, desugared_desugared st, desugaredAll_desugaredAll rest]

theorem Stmt.desugaredElse_desugaredElse : ∀ alternate : Option (List Stmt),
    Stmt.desugaredElse (Stmt.desugaredElse alternate) = Stmt.desugaredElse alternate
  | none => by rw [desugaredElse, desugaredElse]
  | some body => by rw [desugaredElse, desugaredElse, desugaredAll_desugaredAll body]

end

/-- One of two things is the other without sugar, or they are the same. -/
def Sweet {α : Type} (desugar : α → α) (a a' : α) : Prop :=
  a' = desugar a ∨ a = desugar a' ∨ a = a'

namespace Sweet

variable {α : Type} {desugar : α → α} {a a' : α}

theorem refl (a : α) : Sweet desugar a a := Or.inr (Or.inr rfl)

theorem out (a : α) : Sweet desugar a (desugar a) := Or.inl rfl

theorem symm (h : Sweet desugar a a') : Sweet desugar a' a := by
  rcases h with h | h | h
  · exact Or.inr (Or.inl h)
  · exact Or.inl h
  · exact Or.inr (Or.inr h.symm)

/-- Related things are the same without sugar. -/
theorem eq_of_idempotent (hdesugar : ∀ a, desugar (desugar a) = desugar a)
    (h : Sweet desugar a a') : desugar a = desugar a' := by
  rcases h with rfl | rfl | rfl
  · exact (hdesugar a).symm
  · exact hdesugar a'
  · rfl

end Sweet

/-- What related expressions look like: they are of one form, or there is sugar on
    one side and what replaces it on the other. -/
inductive SugarCases (expr : Expr → Expr → Prop) : Expr → Expr → Prop where
  | alike {e e' : Expr} : ExprCases Eq expr e e' → SugarCases expr e e'
  | groupingLeft {e e' : Expr} {p : Position} : expr e e' → SugarCases expr (.grouping e p) e'
  | groupingRight {e e' : Expr} {p : Position} : expr e e' → SugarCases expr e (.grouping e' p)
  | augmentedLeft {name operator : Token} {e e' : Expr} : expr e e' →
      SugarCases expr (.augmented name operator e)
        (.assign name (.binary (.reference name) operator.plain e'))
  | augmentedRight {name operator : Token} {e e' : Expr} : expr e e' →
      SugarCases expr (.assign name (.binary (.reference name) operator.plain e))
        (.augmented name operator e')
  | stepLeft (operator name : Token) :
      SugarCases expr (.step operator name) (.stepped operator name)
  | stepRight (operator name : Token) :
      SugarCases expr (.stepped operator name) (.step operator name)

theorem SugarCases.symm {expr : Expr → Expr → Prop} (hexpr : ∀ {e e'}, expr e e' → expr e' e)
    {e e' : Expr} (h : SugarCases expr e e') : SugarCases expr e' e := by
  cases h with
  | alike h => exact .alike (h.symm Eq.symm hexpr)
  | groupingLeft h => exact .groupingRight (hexpr h)
  | groupingRight h => exact .groupingLeft (hexpr h)
  | augmentedLeft h => exact .augmentedRight (hexpr h)
  | augmentedRight h => exact .augmentedLeft (hexpr h)
  | stepLeft operator name => exact .stepRight operator name
  | stepRight operator name => exact .stepLeft operator name

theorem sugarCases_desugared (e : Expr) :
    SugarCases (Sweet Expr.desugared) e e.desugared := by
  cases e with
  | constant v p =>
      rw [Expr.desugared]
      exact .alike (.constant v p p)
  | grouping inner p =>
      rw [Expr.desugared]
      exact .groupingLeft (.out inner)
  | reference name =>
      rw [Expr.desugared]
      exact .alike (.reference rfl)
  | assign name value =>
      rw [Expr.desugared]
      exact .alike (.assign rfl (.out value))
  | augmented name operator value =>
      rw [Expr.desugared]
      exact .augmentedLeft (.out value)
  | step operator name =>
      rw [Expr.desugared]
      exact .stepLeft operator name
  | unary operator operand =>
      rw [Expr.desugared]
      exact .alike (.unary rfl (.out operand))
  | binary left operator right =>
      rw [Expr.desugared]
      exact .alike (.binary (.out left) rfl (.out right))
  | logical left operator right =>
      rw [Expr.desugared]
      exact .alike (.logical (.out left) rfl (.out right))
  | call callee paren args =>
      have hargs : List.Forall₂ (Sweet Expr.desugared) args (Expr.desugaredAll args) := by
        rw [Expr.desugaredAll_eq_map, List.forall₂_map_right_iff]
        exact List.forall₂_same.mpr fun e _ => .out e
      rw [Expr.desugared]
      exact .alike (.call (.out callee) rfl hargs)

theorem stmtCases_desugared (st : Stmt) :
    StmtCases Eq (Sweet Expr.desugared) (Sweet Stmt.desugaredAll) st st.desugared := by
  have hsame : ∀ ts : List Token, List.Forall₂ Eq ts ts := fun ts => List.forall₂_refl ts
  cases st with
  | function name params b =>
      rw [Stmt.desugared]
      exact .function rfl (hsame params) (.out b)
  | giveBack k value =>
      rw [Stmt.desugared]
      cases value with
      | none => exact .giveBackNothing rfl
      | some e => exact .giveBack rfl (.out e)
  | delete k targets =>
      rw [Stmt.desugared]
      exact .delete (hsame targets)
  | loop k e b =>
      rw [Stmt.desugared]
      exact .loop (.out e) (.out b)
  | branch k e b alternate =>
      rw [Stmt.desugared]
      cases alternate with
      | none => exact .branch (.out e) (.out b)
      | some c => exact .branchElse (.out e) (.out b) (.out c)
  | expression e =>
      rw [Stmt.desugared]
      exact .expression (.out e)
  | echo k e =>
      rw [Stmt.desugared]
      exact .echo (.out e)
  | leave k =>
      rw [Stmt.desugared]
      exact .leave rfl
  | next k =>
      rw [Stmt.desugared]
      exact .next rfl

namespace Sweet

theorem expr_cases {e e' : Expr} (h : Sweet Expr.desugared e e') :
    SugarCases (Sweet Expr.desugared) e e' := by
  rcases h with rfl | rfl | rfl
  · exact sugarCases_desugared e
  · exact (sugarCases_desugared e').symm Sweet.symm
  · exact .alike (.refl (fun _ => rfl) .refl e)

theorem stmt_cases {st st' : Stmt} (h : Sweet Stmt.desugared st st') :
    StmtCases Eq (Sweet Expr.desugared) (Sweet Stmt.desugaredAll) st st' := by
  rcases h with rfl | rfl | rfl
  · exact stmtCases_desugared st
  · exact (stmtCases_desugared st').symm Eq.symm Sweet.symm Sweet.symm
  · exact .refl (fun _ => rfl) .refl .refl st

/-- Related lists of statements are related one by one. -/
theorem body_cases {b b' : List Stmt} (h : Sweet Stmt.desugaredAll b b') :
    (b = [] ∧ b' = []) ∨ ∃ st rest st' rest', b = st :: rest ∧ b' = st' :: rest' ∧
      Sweet Stmt.desugared st st' ∧ Sweet Stmt.desugaredAll rest rest' := by
  have hout : ∀ b, (b = [] ∧ Stmt.desugaredAll b = []) ∨ ∃ st rest, b = st :: rest ∧
      Stmt.desugaredAll b = st.desugared :: Stmt.desugaredAll rest := by
    intro b
    cases b with
    | nil => exact Or.inl ⟨rfl, by rw [Stmt.desugaredAll]⟩
    | cons st rest => exact Or.inr ⟨st, rest, rfl, by rw [Stmt.desugaredAll]⟩
  rcases h with rfl | rfl | rfl
  · rcases hout b with ⟨hb, hd⟩ | ⟨st, rest, hb, hd⟩
    · exact Or.inl ⟨hb, hd⟩
    · exact Or.inr ⟨st, rest, _, _, hb, hd, .out st, .out rest⟩
  · rcases hout b' with ⟨hb, hd⟩ | ⟨st, rest, hb, hd⟩
    · exact Or.inl ⟨hd, hb⟩
    · exact Or.inr ⟨_, _, st, rest, hd, hb, (Sweet.out st).symm, (Sweet.out rest).symm⟩
  · cases b with
    | nil => exact Or.inl ⟨rfl, rfl⟩
    | cons st rest => exact Or.inr ⟨st, rest, st, rest, rfl, rfl, .refl st, .refl rest⟩

end Sweet

end PocketScript
