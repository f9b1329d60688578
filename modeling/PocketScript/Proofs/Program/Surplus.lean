import PocketScript.Proofs.Grammar

/-!
# Arguments and parameters beyond the limit

A call may have more arguments than the limit, and a function more parameters. The
tree keeps them all, and the parser remarks on each.

The surplus of a tree is what there is to remark on, in the order in which it is
written: an argument is written before what is surplus inside it and after what is
surplus in the arguments in front of it. The excess of a tree is the number that
has to come out, a sum over all calls and all functions in it with no regard to
any order.

## Main definitions

* `Surplus`: An argument or a parameter beyond the limit.
* `Surplus.remark`, `Surplus.Starts`: The remark on it, and where it is written.
* `Expr.surplus`, `Stmt.surplusAll`: All of them in a tree, in written order.
* `Expr.excess`, `Stmt.excessAll`: The number of them, from the calls and functions.

## Theorems

* `Expr.length_surplus`, `Stmt.length_surplusAll`: The numbers agree.
-/

namespace PocketScript

open Reading

/-- An argument or a parameter beyond the limit. -/
inductive Surplus where
  | argument (e : Expr)
  | parameter (name : Token)

namespace Surplus

/-- The remark on it at the token where it starts. -/
def remark : Surplus → Token → GrammarFault
  | argument _, t =>
    { cause := .tooManyArguments, found := t, detail := "Can't have more than 255 arguments" }
  | parameter _, t =>
    { cause := .tooManyArguments, found := t, detail := "Can't have more than 255 parameters" }

/-- It is written at the front of the tokens. -/
def Starts : Surplus → List Token → Prop
  | argument e, ts => ∃ us, us <+: ts ∧ Grammar.Derives .assignment us e
  | parameter name, ts => [name] <+: ts

@[simp] theorem cause_remark (item : Surplus) (t : Token) :
    (item.remark t).cause = .tooManyArguments := by
  cases item <;> rfl

@[simp] theorem found_remark (item : Surplus) (t : Token) : (item.remark t).found = t := by
  cases item <;> rfl

theorem Starts.append {item : Surplus} {ts : List Token} (h : item.Starts ts) (us : List Token) :
    item.Starts (ts ++ us) := by
  cases item with
  | argument e =>
      rcases h with ⟨vs, hvs, hd⟩
      exact ⟨vs, hvs.trans (List.prefix_append ts us), hd⟩
  | parameter name => exact h.trans (List.prefix_append ts us)

end Surplus

mutual

/-- The surplus arguments in an expression. -/
def Expr.surplus : Expr → List Surplus
  | .constant _ _ => []
  | .grouping inner _ => inner.surplus
  | .reference _ => []
  | .assign _ value => value.surplus
  | .augmented _ _ value => value.surplus
  | .step _ _ => []
  | .unary _ operand => operand.surplus
  | .binary left _ right => left.surplus ++ right.surplus
  | .logical left _ right => left.surplus ++ right.surplus
  | .call callee _ args => callee.surplus ++ Expr.surplusFrom 0 args

/-- The surplus arguments among arguments that follow `count` others, and in them. -/
def Expr.surplusFrom : (count : Nat) → List Expr → List Surplus
  | _, [] => []
  | count, e :: es =>
    (if argumentLimit ≤ count then [.argument e] else []) ++
      (e.surplus ++ Expr.surplusFrom (count + 1) es)

end

/-- The surplus parameters among parameters that follow `count` others. -/
def Surplus.parametersFrom : (count : Nat) → List Token → List Surplus
  | _, [] => []
  | count, name :: names =>
    (if argumentLimit ≤ count then [.parameter name] else []) ++ parametersFrom (count + 1) names

mutual

/-- What is surplus in a statement. -/
def Stmt.surplus : Stmt → List Surplus
  | .expression value => value.surplus
  | .echo _ value => value.surplus
  | .function _ params body => Surplus.parametersFrom 0 params ++ Stmt.surplusAll body
  | .giveBack _ none => []
  | .giveBack _ (some value) => value.surplus
  | .delete _ _ => []
  | .branch _ condition consequent alternate =>
    condition.surplus ++ (Stmt.surplusAll consequent ++ Stmt.surplusElse alternate)
  | .loop _ condition body => condition.surplus ++ Stmt.surplusAll body
  | .leave _ => []
  | .next _ => []

/-- What is surplus in statements. -/
def Stmt.surplusAll : List Stmt → List Surplus
  | [] => []
  | st :: rest => st.surplus ++ Stmt.surplusAll rest

/-- What is surplus in an else part. -/
def Stmt.surplusElse : Option (List Stmt) → List Surplus
  | none => []
  | some body => Stmt.surplusAll body

end

mutual

/-- The number of arguments beyond the limit, over all calls in an expression. -/
def Expr.excess : Expr → Nat
  | .constant _ _ => 0
  | .grouping inner _ => inner.excess
  | .reference _ => 0
  | .assign _ value => value.excess
  | .augmented _ _ value => value.excess
  | .step _ _ => 0
  | .unary _ operand => operand.excess
  | .binary left _ right => left.excess + right.excess
  | .logical left _ right => left.excess + right.excess
  | .call callee _ args => (args.length - 255) + callee.excess + Expr.excessAll args

/-- The number of arguments beyond the limit, over all calls in expressions. -/
def Expr.excessAll : List Expr → Nat
  | [] => 0
  | e :: es => e.excess + Expr.excessAll es

end

mutual

/-- The number of arguments and parameters beyond the limit, over all calls and all
    functions in a statement. -/
def Stmt.excess : Stmt → Nat
  | .expression value => value.excess
  | .echo _ value => value.excess
  | .function _ params body => (params.length - 255) + Stmt.excessAll body
  | .giveBack _ none => 0
  | .giveBack _ (some value) => value.excess
  | .delete _ _ => 0
  | .branch _ condition consequent alternate =>
    condition.excess + Stmt.excessAll consequent + Stmt.excessElse alternate
  | .loop _ condition body => condition.excess + Stmt.excessAll body
  | .leave _ => 0
  | .next _ => 0

/-- The same for statements. -/
def Stmt.excessAll : List Stmt → Nat
  | [] => 0
  | st :: rest => st.excess + Stmt.excessAll rest

/-- The same for an else part. -/
def Stmt.excessElse : Option (List Stmt) → Nat
  | none => 0
  | some body => Stmt.excessAll body

end

mutual

theorem Expr.length_surplus : ∀ e : Expr, e.surplus.length = e.excess
  | .constant _ _ => rfl
  | .grouping inner _ => Expr.length_surplus inner
  | .reference _ => rfl
  | .assign _ value => Expr.length_surplus value
  | .augmented _ _ value => Expr.length_surplus value
  | .step _ _ => rfl
  | .unary _ operand => Expr.length_surplus operand
  | .binary left _ right => by
      rw [Expr.surplus, List.length_append, Expr.length_surplus left, Expr.length_surplus right]
      rfl
  | .logical left _ right => by
      rw [Expr.surplus, List.length_append, Expr.length_surplus left, Expr.length_surplus right]
      rfl
  | .call callee _ args => by
      rw [Expr.surplus, List.length_append, Expr.length_surplus callee,
        Expr.length_surplusFrom 0 args, Expr.excess, argumentLimit]
      omega

/-- Of `count` arguments and those given, as many are beyond the limit as of them
    all, less those that were beyond it before. -/
theorem Expr.length_surplusFrom : ∀ (count : Nat) (es : List Expr),
    (Expr.surplusFrom count es).length =
      (count + es.length - argumentLimit) - (count - argumentLimit) + Expr.excessAll es
  | count, [] => by
      simp only [Expr.surplusFrom, Expr.excessAll, List.length_nil]
      omega
  | count, e :: es => by
      rw [Expr.surplusFrom, List.length_append, List.length_append, Expr.length_surplus e,
        Expr.length_surplusFrom (count + 1) es, Expr.excessAll, List.length_cons]
      split
      · rw [List.length_singleton]
        omega
      · rw [List.length_nil]
        omega

end

theorem Surplus.length_parametersFrom (count : Nat) (names : List Token) :
    (parametersFrom count names).length =
      (count + names.length - argumentLimit) - (count - argumentLimit) := by
  induction names generalizing count with
  | nil =>
      simp only [parametersFrom, List.length_nil]
      omega
  | cons name names ih =>
      rw [parametersFrom, List.length_append, ih, List.length_cons]
      split
      · rw [List.length_singleton]
        omega
      · rw [List.length_nil]
        omega

mutual

theorem Stmt.length_surplus : ∀ st : Stmt, st.surplus.length = st.excess
  | .expression value => value.length_surplus
  | .echo _ value => value.length_surplus
  | .function _ params body => by
      rw [Stmt.surplus, List.length_append, Surplus.length_parametersFrom,
        Stmt.length_surplusAll body, Stmt.excess, argumentLimit]
      omega
  | .giveBack _ none => rfl
  | .giveBack _ (some value) => value.length_surplus
  | .delete _ _ => rfl
  | .branch _ condition consequent alternate => by
      rw [Stmt.surplus, List.length_append, List.length_append, condition.length_surplus,
        Stmt.length_surplusAll consequent, Stmt.length_surplusElse alternate, Stmt.excess]
      omega
  | .loop _ condition body => by
      rw [Stmt.surplus, List.length_append, condition.length_surplus,
        Stmt.length_surplusAll body, Stmt.excess]
  | .leave _ => rfl
  | .next _ => rfl

theorem Stmt.length_surplusAll : ∀ b : List Stmt, (Stmt.surplusAll b).length = Stmt.excessAll b
  | [] => rfl
  | st :: rest => by
      rw [Stmt.surplusAll, List.length_append, Stmt.length_surplus st,
        Stmt.length_surplusAll rest, Stmt.excessAll]

theorem Stmt.length_surplusElse :
    ∀ b : Option (List Stmt), (Stmt.surplusElse b).length = Stmt.excessElse b
  | none => rfl
  | some body => Stmt.length_surplusAll body

end

end PocketScript
