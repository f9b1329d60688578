import PocketScript.Proofs.Parser.Soundness

/-!
# How deep the parser descends

The counter of the parser bounds its descent and decides nothing else. Two
facts say so. A larger counter keeps every reading that was not starved
(`Steady`), and a counter that grows with the number of tokens starves nothing
(`Fed`), so `parse` never answers for want of it.

For the second fact each reader gets an allowance on top of a fixed amount for
every token left. The allowances fall along every call that takes no token,
from an expression through the rungs down to the primary expressions; a call
that comes after a token was taken can start again from the top. That a form
takes a token at all is soundness: what was read derives the form, and solid
forms are not empty.

## Main definitions

* `SteadyExpressions`, `SteadyStatements`: More counter keeps readings.
* `Rung.allowance`: How far a rung is from the primary expressions.
* `FedExpressions`, `FedStatements`: A counter that is not used up.

## Theorems

* `Reads.length_lt`: Reading a solid form takes a token.
* `program_steady`: A larger counter keeps what was read.
* `program_fed`: The counter that `parse` supplies is not used up.
-/

namespace PocketScript

open Grammar Reading

/-- Reading a form that cannot be empty takes at least one token. -/
theorem Reads.length_lt {f : Form} {ts : List Token} {tree : f.Tree} {rest : List Token}
    (h : Reads f ts tree rest) (hs : f.isSolid = true) : rest.length < ts.length := by
  rcases h with ⟨us, rfl, hd⟩
  rcases hd.starts hs with ⟨t, vs, rfl, _⟩
  simp only [List.cons_append, List.length_cons, List.length_append]
  omega

theorem Reads.length_le {f : Form} {ts : List Token} {tree : f.Tree} {rest : List Token}
    (h : Reads f ts tree rest) : rest.length ≤ ts.length := by
  rcases h with ⟨us, rfl, _⟩
  simp only [List.length_append]
  omega

/-- One more of the counter keeps what is read as an expression. -/
structure SteadyExpressions (stop : Token) (n : Nat) : Prop where
  expression : ∀ ts, Within (expression stop n ts) (expression stop (n + 1) ts)
  chain : ∀ r ts, Within (chain stop n r ts) (chain stop (n + 1) r ts)
  links : ∀ r e ts, Within (links stop n r e ts) (links stop (n + 1) r e ts)
  operand : ∀ r ts, Within (operand stop n r ts) (operand stop (n + 1) r ts)
  signed : ∀ ts, Within (signed stop n ts) (signed stop (n + 1) ts)
  stepped : ∀ ts, Within (stepped stop n ts) (stepped stop (n + 1) ts)
  called : ∀ ts, Within (called stop n ts) (called stop (n + 1) ts)
  calls : ∀ e ts, Within (calls stop n e ts) (calls stop (n + 1) e ts)
  arguments : ∀ c ts, Within (arguments stop n c ts) (arguments stop (n + 1) c ts)
  suffixed : ∀ ts, Within (suffixed stop n ts) (suffixed stop (n + 1) ts)
  primary : ∀ ts, Within (primary stop n ts) (primary stop (n + 1) ts)

section SteadyExpressions

variable {stop : Token} {n : Nat}

theorem expression_steady (h : SteadyExpressions stop n) (ts : List Token) :
    Within (expression stop (n + 1) ts) (expression stop (n + 2) ts) := by
  rw [expression, expression]
  refine within_andThen (h.chain .either ts) fun left rest => ?_
  cases rest with
  | nil => exact within_refl _
  | cons op rest =>
      simp only
      split
      · cases left with
        | reference name => exact within_map _ (h.expression rest)
        | _ => exact within_refl _
      · split
        · cases left with
          | reference name => exact within_map _ (h.expression rest)
          | _ => exact within_refl _
        · exact within_refl _

theorem links_steady (h : SteadyExpressions stop n) (r : Rung) (e : Expr) (ts : List Token) :
    Within (links stop (n + 1) r e ts) (links stop (n + 2) r e ts) := by
  cases ts with
  | nil => exact within_refl _
  | cons op ts =>
      rw [links, links]
      split
      · exact within_andThen (h.operand r ts) fun right rest => h.links r _ rest
      · exact within_refl _

theorem operand_steady (h : SteadyExpressions stop n) (r : Rung) (ts : List Token) :
    Within (operand stop (n + 1) r ts) (operand stop (n + 2) r ts) := by
  rw [operand, operand]
  cases r.above with
  | some next => exact h.chain next ts
  | none => exact h.signed ts

theorem signed_steady (h : SteadyExpressions stop n) (ts : List Token) :
    Within (signed stop (n + 1) ts) (signed stop (n + 2) ts) := by
  cases ts with
  | nil => exact h.stepped []
  | cons op ts =>
      rw [signed, signed]
      split
      · exact within_map _ (h.signed ts)
      · exact h.stepped (op :: ts)

theorem stepped_steady (h : SteadyExpressions stop n) (ts : List Token) :
    Within (stepped stop (n + 1) ts) (stepped stop (n + 2) ts) := by
  cases ts with
  | nil => exact h.called []
  | cons op ts =>
      rw [stepped, stepped]
      split
      · exact within_andThen (h.called ts) fun _ _ => within_refl _
      · exact h.called (op :: ts)

theorem calls_steady (h : SteadyExpressions stop n) (e : Expr) (ts : List Token) :
    Within (calls stop (n + 1) e ts) (calls stop (n + 2) e ts) := by
  cases ts with
  | nil => exact within_refl _
  | cons t ts =>
      rw [calls, calls]
      split
      · refine within_andThen ?_ fun args rest => within_andThen (within_refl _)
          fun paren rest => h.calls _ rest
        split
        · exact within_refl _
        · exact h.arguments 0 ts
      · exact within_refl _

theorem arguments_steady (h : SteadyExpressions stop n) (count : Nat) (ts : List Token) :
    Within (arguments stop (n + 1) count ts) (arguments stop (n + 2) count ts) := by
  rw [arguments, arguments]
  refine within_noting _ (within_andThen (h.expression ts) fun arg rest => ?_)
  cases rest with
  | nil => exact within_refl _
  | cons c rest =>
      simp only
      split
      · exact within_map _ (h.arguments (count + 1) rest)
      · exact within_refl _

theorem primary_steady (h : SteadyExpressions stop n) (ts : List Token) :
    Within (primary stop (n + 1) ts) (primary stop (n + 2) ts) := by
  cases ts with
  | nil => exact within_refl _
  | cons t ts =>
      rw [primary, primary]
      split
      · exact within_refl _
      · split
        · exact within_refl _
        · split
          · exact within_andThen (h.expression ts) fun _ _ => within_refl _
          · exact within_refl _

end SteadyExpressions

theorem steadyExpressions (stop : Token) (n : Nat) : SteadyExpressions stop n := by
  induction n with
  | zero => constructor <;> intros <;> exact Or.inl rfl
  | succ n ih =>
      exact
        { expression := expression_steady ih
          chain := fun r ts => by
            rw [chain, chain]
            exact within_andThen (ih.operand r ts) fun left rest => ih.links r left rest
          links := links_steady ih
          operand := operand_steady ih
          signed := signed_steady ih
          stepped := stepped_steady ih
          called := fun ts => by
            rw [called, called]
            exact within_andThen (ih.suffixed ts) fun e rest => ih.calls e rest
          calls := calls_steady ih
          arguments := arguments_steady ih
          suffixed := fun ts => by
            rw [suffixed, suffixed]
            exact within_andThen (ih.primary ts) fun _ _ => within_refl _
          primary := primary_steady ih }

theorem terminated_steady (stop : Token) (n : Nat) (detail : Text) (ts : List Token) :
    Within (terminated stop n detail ts) (terminated stop (n + 1) detail ts) :=
  within_andThen ((steadyExpressions stop n).expression ts) fun _ _ => within_refl _

/-- One more of the counter keeps what is read as statements. -/
structure SteadyStatements (stop : Token) (n : Nat) : Prop where
  statement : ∀ ts, Within (statement stop n ts) (statement stop (n + 1) ts)
  branch : ∀ t ts, Within (branch stop n t ts) (branch stop (n + 1) t ts)
  block : ∀ c ts, Within (block stop n c ts) (block stop (n + 1) c ts)
  statements : ∀ ts, Within (statements stop n ts) (statements stop (n + 1) ts)

section SteadyStatements

variable {stop : Token} {n : Nat}

theorem statement_steady (h : SteadyStatements stop n) (ts : List Token) :
    Within (statement stop (n + 1) ts) (statement stop (n + 2) ts) := by
  have hexpr := (steadyExpressions stop n).expression
  cases ts with
  | nil => exact within_map _ (terminated_steady stop n _ [])
  | cons t ts =>
      rw [statement, statement]
      split
      · exact within_andThen (within_refl _) fun _ rest => within_andThen (within_refl _)
          fun _ rest => within_andThen (within_refl _) fun _ rest => within_map _ (h.block _ rest)
      · rw [giveBack, giveBack]
        split
        · exact within_refl _
        · exact within_map _ (terminated_steady stop n _ ts)
      · exact within_refl _
      · exact within_andThen (hexpr ts) fun _ rest => within_map _ (h.block _ rest)
      · exact h.branch t ts
      · exact within_map _ (terminated_steady stop n _ ts)
      · exact within_refl _
      · exact within_refl _
      · exact within_map _ (terminated_steady stop n _ (t :: ts))

theorem branch_steady (h : SteadyStatements stop n) (keyword : Token) (ts : List Token) :
    Within (branch stop (n + 1) keyword ts) (branch stop (n + 2) keyword ts) := by
  rw [branch, branch]
  refine within_andThen ((steadyExpressions stop n).expression ts) fun condition rest =>
    within_andThen (h.block _ rest) fun body rest => ?_
  cases rest with
  | nil => exact within_refl _
  | cons t rest =>
      simp only
      split
      · cases rest with
        | nil => exact within_map _ (h.block _ [])
        | cons i rest =>
            simp only
            split
            · exact within_map _ (h.branch i rest)
            · exact within_map _ (h.block _ (i :: rest))
      · exact within_refl _

theorem statements_steady (h : SteadyStatements stop n) (ts : List Token) :
    Within (statements stop (n + 1) ts) (statements stop (n + 2) ts) := by
  cases ts with
  | nil => exact within_refl _
  | cons t ts =>
      rw [statements, statements]
      split
      · exact within_refl _
      · exact within_andThen (h.statement (t :: ts)) fun _ rest =>
          within_map _ (h.statements rest)

end SteadyStatements

theorem steadyStatements (stop : Token) (n : Nat) : SteadyStatements stop n := by
  induction n with
  | zero => constructor <;> intros <;> exact Or.inl rfl
  | succ n ih =>
      exact
        { statement := statement_steady ih
          branch := branch_steady ih
          block := fun c ts => by
            rw [block, block]
            exact within_andThen (within_refl _) fun _ rest =>
              within_andThen (ih.statements rest) fun _ _ => within_refl _
          statements := statements_steady ih }

theorem program_steady_succ (stop : Token) (n : Nat) : ∀ ts : List Token,
    Within (program stop n ts) (program stop (n + 1) ts) := by
  induction n with
  | zero => intro ts; exact Or.inl rfl
  | succ n ih =>
      intro ts
      cases ts with
      | nil => exact within_refl _
      | cons t ts =>
          rw [program, program]
          exact within_andThen ((steadyStatements stop n).statement (t :: ts)) fun _ rest =>
            within_map _ (ih rest)

/-- A larger counter keeps what was read as a program. -/
theorem program_steady (stop : Token) {n m : Nat} (hnm : n ≤ m) (ts : List Token) :
    Within (program stop n ts) (program stop m ts) := by
  induction hnm with
  | refl => exact within_refl _
  | step _ ih => exact within_trans ih (program_steady_succ stop _ ts)

/-- How far an operand of a rung is from the primary expressions. -/
def Rung.allowance : Rung → Nat
  | either => 18
  | both => 16
  | equality => 14
  | comparison => 12
  | term => 10
  | factor => 8

theorem Rung.allowance_above {r next : Rung} (h : r.above = some next) :
    next.allowance + 2 = r.allowance := by
  cases r <;> cases h <;> rfl

theorem Rung.le_allowance (r : Rung) : 8 ≤ r.allowance := by
  cases r <;> decide

/-- With this counter, no reading of an expression is starved that has 32 for
    every token and its own allowance. -/
structure FedExpressions (stop : Token) (n : Nat) : Prop where
  expression : ∀ ts, 32 * ts.length + 20 ≤ n → expression stop n ts ≠ starved
  chain : ∀ r ts, 32 * ts.length + r.allowance + 1 ≤ n → chain stop n r ts ≠ starved
  links : ∀ r e ts, 32 * ts.length + 1 ≤ n → links stop n r e ts ≠ starved
  operand : ∀ r ts, 32 * ts.length + r.allowance ≤ n → operand stop n r ts ≠ starved
  signed : ∀ ts, 32 * ts.length + 7 ≤ n → signed stop n ts ≠ starved
  stepped : ∀ ts, 32 * ts.length + 6 ≤ n → stepped stop n ts ≠ starved
  called : ∀ ts, 32 * ts.length + 5 ≤ n → called stop n ts ≠ starved
  calls : ∀ e ts, 32 * ts.length + 1 ≤ n → calls stop n e ts ≠ starved
  arguments : ∀ c ts, 32 * ts.length + 21 ≤ n → arguments stop n c ts ≠ starved
  suffixed : ∀ ts, 32 * ts.length + 4 ≤ n → suffixed stop n ts ≠ starved
  primary : ∀ ts, 32 * ts.length + 3 ≤ n → primary stop n ts ≠ starved

section FedExpressions

variable {stop : Token} {n : Nat}

theorem done_ne_starved {α : Type} (a : α) (ts : List Token) (remarks : List GrammarFault) :
    done a ts remarks ≠ starved := by simp

theorem failed_ne_starved {α : Type} (e : GrammarFault) (remarks : List GrammarFault) :
    (failed e remarks : Reading α) ≠ starved := by simp

theorem expression_fed (h : FedExpressions stop n) (ts : List Token)
    (hn : 32 * ts.length + 20 ≤ n + 1) : expression stop (n + 1) ts ≠ starved := by
  rw [expression]
  refine andThen_ne_starved (h.chain .either ts (by simp only [Rung.allowance]; omega))
    fun left rest hg => ?_
  have hlen := ((soundExpressions stop n).chain hg).length_lt rfl
  cases rest with
  | nil => exact done_ne_starved _ _ _
  | cons op rest =>
      rw [List.length_cons] at hlen
      simp only
      split
      · cases left with
        | reference name => exact map_ne_starved (h.expression rest (by omega))
        | _ => exact failed_ne_starved _ _
      · split
        · cases left with
          | reference name => exact map_ne_starved (h.expression rest (by omega))
          | _ => exact failed_ne_starved _ _
        · exact done_ne_starved _ _ _

theorem chain_fed (h : FedExpressions stop n) (r : Rung) (ts : List Token)
    (hn : 32 * ts.length + r.allowance + 1 ≤ n + 1) : chain stop (n + 1) r ts ≠ starved := by
  rw [chain]
  refine andThen_ne_starved (h.operand r ts (by omega)) fun left rest hg => ?_
  have hlen := ((soundExpressions stop n).operand hg).length_lt rfl
  exact h.links r left rest (by omega)

theorem links_fed (h : FedExpressions stop n) (r : Rung) (e : Expr) (ts : List Token)
    (hn : 32 * ts.length + 1 ≤ n + 1) : links stop (n + 1) r e ts ≠ starved := by
  cases ts with
  | nil => exact done_ne_starved _ _ _
  | cons op ts =>
      rw [List.length_cons] at hn
      have hr : r.allowance ≤ 18 := by cases r <;> decide
      rw [links]
      split
      · refine andThen_ne_starved (h.operand r ts (by omega)) fun right rest hg => ?_
        -- No operand is empty, and a token pays for a whole way down the ladder.
        have hlen := ((soundExpressions stop n).operand hg).length_lt rfl
        exact h.links r _ rest (by omega)
      · exact done_ne_starved _ _ _

theorem operand_fed (h : FedExpressions stop n) (r : Rung) (ts : List Token)
    (hn : 32 * ts.length + r.allowance ≤ n + 1) : operand stop (n + 1) r ts ≠ starved := by
  rw [operand]
  cases hr : r.above with
  | some next =>
      have hstep := Rung.allowance_above hr
      exact h.chain next ts (by omega)
  | none =>
      have hle := r.le_allowance
      exact h.signed ts (by omega)

theorem signed_fed (h : FedExpressions stop n) (ts : List Token)
    (hn : 32 * ts.length + 7 ≤ n + 1) : signed stop (n + 1) ts ≠ starved := by
  cases ts with
  | nil => exact h.stepped [] (by omega)
  | cons op ts =>
      rw [signed]
      split
      · rw [List.length_cons] at hn
        exact map_ne_starved (h.signed ts (by omega))
      · exact h.stepped (op :: ts) (by omega)

theorem stepped_fed (h : FedExpressions stop n) (ts : List Token)
    (hn : 32 * ts.length + 6 ≤ n + 1) : stepped stop (n + 1) ts ≠ starved := by
  cases ts with
  | nil => exact h.called [] (by omega)
  | cons op ts =>
      rw [stepped]
      split
      · rw [List.length_cons] at hn
        refine andThen_ne_starved (h.called ts (by omega)) fun e rest _ => ?_
        cases e with
        | reference name => exact done_ne_starved _ _ _
        | _ => exact failed_ne_starved _ _
      · exact h.called (op :: ts) (by omega)

theorem called_fed (h : FedExpressions stop n) (ts : List Token)
    (hn : 32 * ts.length + 5 ≤ n + 1) : called stop (n + 1) ts ≠ starved := by
  rw [called]
  refine andThen_ne_starved (h.suffixed ts (by omega)) fun e rest hg => ?_
  have hlen := ((soundExpressions stop n).suffixed hg).length_lt rfl
  exact h.calls e rest (by omega)

theorem calls_fed (h : FedExpressions stop n) (e : Expr) (ts : List Token)
    (hn : 32 * ts.length + 1 ≤ n + 1) : calls stop (n + 1) e ts ≠ starved := by
  cases ts with
  | nil => exact done_ne_starved _ _ _
  | cons t ts =>
      rw [List.length_cons] at hn
      rw [calls]
      split
      · refine andThen_ne_starved ?_ fun args rest hg =>
          andThen_ne_starved (expect_ne_starved _ _ _ _) fun paren rest' hp => ?_
        · split
          · exact done_ne_starved _ _ _
          · exact h.arguments 0 ts (by omega)
        · -- Whether or not there were arguments, no token came back.
          have hle : rest.length ≤ ts.length := by
            split at hg
            · exact Nat.le_of_eq (congrArg List.length ((done_gives _ _ _ _ _).mp hg).2.symm)
            · exact ((soundExpressions stop n).arguments hg).length_le
          rcases (expect_gives _ _ _ _ _ _).mp hp with ⟨rfl, _⟩
          rw [List.length_cons] at hle
          exact h.calls _ rest' (by omega)
      · exact done_ne_starved _ _ _

theorem arguments_fed (h : FedExpressions stop n) (count : Nat) (ts : List Token)
    (hn : 32 * ts.length + 21 ≤ n + 1) : arguments stop (n + 1) count ts ≠ starved := by
  rw [arguments]
  refine noting_ne_starved (andThen_ne_starved (h.expression ts (by omega))
    fun arg rest hg => ?_)
  have hlen := ((soundExpressions stop n).expression hg).length_lt rfl
  cases rest with
  | nil => exact done_ne_starved _ _ _
  | cons c rest =>
      rw [List.length_cons] at hlen
      simp only
      split
      · exact map_ne_starved (h.arguments (count + 1) rest (by omega))
      · exact done_ne_starved _ _ _

theorem suffixed_fed (h : FedExpressions stop n) (ts : List Token)
    (hn : 32 * ts.length + 4 ≤ n + 1) : suffixed stop (n + 1) ts ≠ starved := by
  rw [suffixed]
  refine andThen_ne_starved (h.primary ts (by omega)) fun e rest _ => ?_
  cases rest with
  | nil => exact done_ne_starved _ _ _
  | cons op rest =>
      simp only
      split
      · cases e with
        | reference name => exact done_ne_starved _ _ _
        | _ => exact failed_ne_starved _ _
      · exact done_ne_starved _ _ _

theorem primary_fed (h : FedExpressions stop n) (ts : List Token)
    (hn : 32 * ts.length + 3 ≤ n + 1) : primary stop (n + 1) ts ≠ starved := by
  cases ts with
  | nil => exact failed_ne_starved _ _
  | cons t ts =>
      rw [List.length_cons] at hn
      rw [primary]
      split
      · exact done_ne_starved _ _ _
      · split
        · exact done_ne_starved _ _ _
        · split
          · exact andThen_ne_starved (h.expression ts (by omega)) fun _ _ _ =>
              map_ne_starved (expect_ne_starved _ _ _ _)
          · exact failed_ne_starved _ _

end FedExpressions

theorem fedExpressions (stop : Token) (n : Nat) : FedExpressions stop n := by
  induction n with
  | zero =>
      constructor
      case operand =>
        intro r ts hn
        have hle := r.le_allowance
        omega
      all_goals
        intros
        omega
  | succ n ih =>
      exact
        { expression := expression_fed ih
          chain := chain_fed ih
          links := links_fed ih
          operand := operand_fed ih
          signed := signed_fed ih
          stepped := stepped_fed ih
          called := called_fed ih
          calls := calls_fed ih
          arguments := arguments_fed ih
          suffixed := suffixed_fed ih
          primary := primary_fed ih }

section Parts

variable {stop : Token} {n : Nat}

theorem names_ne_starved (detail : Text) (remarks : Nat → Token → List GrammarFault)
    (count : Nat) (ts : List Token) : Reading.names stop detail remarks count ts ≠ starved := by
  fun_induction Reading.names stop detail remarks count ts with
  | case1 count => exact failed_ne_starved _ _
  | case2 count t ht c ts hc ih => exact noting_ne_starved (map_ne_starved ih)
  | case3 count t ht c ts hc => exact done_ne_starved _ _ _
  | case4 count t ht => exact done_ne_starved _ _ _
  | case5 count t ts ht => exact failed_ne_starved _ _

theorem parameters_ne_starved (ts : List Token) : parameters stop ts ≠ starved := by
  rw [parameters]
  refine andThen_ne_starved ?_ fun _ _ _ => map_ne_starved (expect_ne_starved _ _ _ _)
  split
  · exact done_ne_starved _ _ _
  · exact names_ne_starved _ _ _ _

theorem terminated_fed (detail : Text) (ts : List Token) (hn : 32 * ts.length + 20 ≤ n) :
    terminated stop n detail ts ≠ starved :=
  andThen_ne_starved ((fedExpressions stop n).expression ts hn) fun _ _ _ =>
    map_ne_starved (expect_ne_starved _ _ _ _)

end Parts

/-- The same for statements. -/
structure FedStatements (stop : Token) (n : Nat) : Prop where
  statement : ∀ ts, 32 * ts.length + 22 ≤ n → statement stop n ts ≠ starved
  branch : ∀ t ts, 32 * ts.length + 22 ≤ n → branch stop n t ts ≠ starved
  block : ∀ c ts, 32 * ts.length + 26 ≤ n → block stop n c ts ≠ starved
  statements : ∀ ts, 32 * ts.length + 24 ≤ n → statements stop n ts ≠ starved

section FedStatements

variable {stop : Token} {n : Nat}

theorem statement_fed (h : FedStatements stop n) (ts : List Token)
    (hn : 32 * ts.length + 22 ≤ n + 1) : statement stop (n + 1) ts ≠ starved := by
  cases ts with
  | nil => exact map_ne_starved (terminated_fed _ [] (by omega))
  | cons t ts =>
      have hterm : ∀ detail, terminated stop n detail (t :: ts) ≠ starved :=
        fun detail => terminated_fed detail (t :: ts) (by omega)
      rw [List.length_cons] at hn
      have hrest : ∀ detail, terminated stop n detail ts ≠ starved :=
        fun detail => terminated_fed detail ts (by omega)
      -- One goal for each word that starts a statement. Where a block comes
      -- last, what was read before it has made the rest shorter.
      rw [statement]
      split
      · refine andThen_ne_starved (expect_ne_starved _ _ _ _) fun name rest hname => ?_
        rcases (expect_gives _ _ _ _ _ _).mp hname with ⟨rfl, _⟩
        refine andThen_ne_starved (expect_ne_starved _ _ _ _) fun left rest hleft => ?_
        rcases (expect_gives _ _ _ _ _ _).mp hleft with ⟨rfl, _⟩
        refine andThen_ne_starved (parameters_ne_starved _) fun params rest hp => ?_
        rcases parameters_sound hp with ⟨us, right, rfl, _, _⟩
        simp only [List.length_cons, List.length_append] at hn
        exact map_ne_starved (h.block _ rest (by omega))
      · rw [giveBack]
        split
        · exact map_ne_starved (expect_ne_starved _ _ _ _)
        · exact map_ne_starved (hrest _)
      · exact andThen_ne_starved (names_ne_starved _ _ _ _) fun _ _ _ =>
          map_ne_starved (expect_ne_starved _ _ _ _)
      · refine andThen_ne_starved ((fedExpressions stop n).expression ts (by omega))
          fun condition rest hg => ?_
        have hlen := ((soundExpressions stop n).expression hg).length_lt rfl
        exact map_ne_starved (h.block _ rest (by omega))
      · exact h.branch t ts (by omega)
      · exact map_ne_starved (hrest _)
      · exact map_ne_starved (expect_ne_starved _ _ _ _)
      · exact map_ne_starved (expect_ne_starved _ _ _ _)
      · exact map_ne_starved (hterm _)

theorem branch_fed (h : FedStatements stop n) (keyword : Token) (ts : List Token)
    (hn : 32 * ts.length + 22 ≤ n + 1) : branch stop (n + 1) keyword ts ≠ starved := by
  rw [branch]
  refine andThen_ne_starved ((fedExpressions stop n).expression ts (by omega))
    fun condition rest hg => ?_
  have hlen := ((soundExpressions stop n).expression hg).length_lt rfl
  refine andThen_ne_starved (h.block _ rest (by omega)) fun body rest' hb => ?_
  have hlen' := ((soundStatements stop n).block hb).length_lt rfl
  cases rest' with
  | nil => exact done_ne_starved _ _ _
  | cons t rest' =>
      rw [List.length_cons] at hlen'
      simp only
      split
      · cases rest' with
        | nil => exact map_ne_starved (h.block _ [] (by simp only [List.length_nil]; omega))
        | cons i rest' =>
            simp only
            split
            · rw [List.length_cons] at hlen'
              exact map_ne_starved (h.branch i rest' (by omega))
            · exact map_ne_starved (h.block _ (i :: rest') (by omega))
      · exact done_ne_starved _ _ _

theorem block_fed (h : FedStatements stop n) (context : Text) (ts : List Token)
    (hn : 32 * ts.length + 26 ≤ n + 1) : block stop (n + 1) context ts ≠ starved := by
  rw [block]
  refine andThen_ne_starved (expect_ne_starved _ _ _ _) fun left rest hl => ?_
  rcases (expect_gives _ _ _ _ _ _).mp hl with ⟨rfl, _⟩
  rw [List.length_cons] at hn
  exact andThen_ne_starved (h.statements rest (by omega)) fun _ _ _ =>
    map_ne_starved (expect_ne_starved _ _ _ _)

theorem statements_fed (h : FedStatements stop n) (ts : List Token)
    (hn : 32 * ts.length + 24 ≤ n + 1) : statements stop (n + 1) ts ≠ starved := by
  cases ts with
  | nil => exact done_ne_starved _ _ _
  | cons t ts =>
      rw [statements]
      split
      · exact done_ne_starved _ _ _
      · refine andThen_ne_starved (h.statement (t :: ts) (by omega)) fun s rest hg => ?_
        have hlen := ((soundStatements stop n).statement hg).length_lt rfl
        exact map_ne_starved (h.statements rest (by omega))

end FedStatements

theorem fedStatements (stop : Token) (n : Nat) : FedStatements stop n := by
  induction n with
  | zero => constructor <;> intros <;> omega
  | succ n ih =>
      exact
        { statement := statement_fed ih
          branch := branch_fed ih
          block := block_fed ih
          statements := statements_fed ih }

theorem program_fed_of_le (stop : Token) (n : Nat) : ∀ ts : List Token,
    32 * ts.length + 24 ≤ n → program stop n ts ≠ starved := by
  induction n with
  | zero => intro ts hn; omega
  | succ n ih =>
      intro ts hn
      cases ts with
      | nil => exact done_ne_starved _ _ _
      | cons t ts =>
          rw [program]
          refine andThen_ne_starved ((fedStatements stop n).statement (t :: ts) (by omega))
            fun s rest hg => ?_
          have hlen := ((soundStatements stop n).statement hg).length_lt rfl
          exact map_ne_starved (ih rest (by omega))

/-- The counter that `parse` supplies is not used up. -/
theorem program_fed (stop : Token) (ts : List Token) :
    program stop (descentBound ts) ts ≠ starved :=
  program_fed_of_le stop _ ts (by rw [descentBound]; omega)

end PocketScript
