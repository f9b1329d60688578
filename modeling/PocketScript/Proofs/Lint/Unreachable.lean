import Mathlib.Data.List.Perm.Basic
import PocketScript.Lint
import PocketScript.Proofs.Evaluation.LockStep

/-!
# Unreachable statements can be removed

A program runs the same without the statements that are reported as
unreachable.

The report rests on a verdict about the statement before: it ends the list it
stands in. The verdict is right, `diverts_of_ends`. By induction on the counter
a statement with this verdict never ends normally, and neither does a list
that holds one, so a branch into two such lists does not either. What follows
is then not looked at by any run.

Functions declared on the way keep their bodies in the store, pruned on one
side and not on the other. So values are compared after pruning, and that is
the correspondence: two lists of statements are related if pruning makes them
equal. Pruned programs are related to themselves unpruned because pruning
twice is pruning once.

## Main definitions

* `Lint.ends`, `Lint.endsAll`: The verdict.
* `Lint.pruneAll`: A program without its unreachable statements.
* `Lint.removedAll`: The statements that are gone.
* `Lint.sizeAll`: The number of statements at all levels.
* `Lint.pruning`: The correspondence.
* `Lint.SameRun`: Runs that nobody can tell apart.

## Theorems

* `Lint.diverts_of_ends`: The verdict is right.
* `Lint.pruneAll_pruneAll`: Pruning is done once.
* `Lint.unreachable_findings`: What is gone is what is reported.
* `Lint.removedAll_pruneAll`, `Lint.sizeAll_pruneAll`: All of it is gone, and
  nothing else.
* `Lint.pruneAll_runs_alike`: No run is different.
-/

namespace PocketScript

namespace Lint

/-- The verdict that a statement ends the list it stands in. -/
def ends (st : Stmt) : Bool := (statement RuntimeFault.scriptName false st).1

/-- The verdict that a list of statements ends before its last is through. -/
def endsAll (b : List Stmt) : Bool := (statements RuntimeFault.scriptName false false b).1

/-- The verdict on an else part. -/
def endsElse : Option (List Stmt) → Bool
  | none => false
  | some b => endsAll b

mutual

/-- The statement without the statements inside that are unreachable. -/
def prune : Stmt → Stmt
  | .function name params body => .function name params (pruneAll body)
  | .loop keyword condition body => .loop keyword condition (pruneAll body)
  | .branch keyword condition consequent alternate =>
    .branch keyword condition (pruneAll consequent) (pruneElse alternate)
  | st => st

/-- The statements up to the first that ends the list, each pruned. -/
def pruneAll : List Stmt → List Stmt
  | [] => []
  | st :: rest => prune st :: if ends st then [] else pruneAll rest

/-- The same for an else part. -/
def pruneElse : Option (List Stmt) → Option (List Stmt)
  | none => none
  | some body => some (pruneAll body)

end

mutual

/-- What pruning takes out of a statement, each with the function it is in. -/
def removed (function : Text) : Stmt → List (Text × Stmt)
  | .function name _ body => removedAll name.lexeme body
  | .loop _ _ body => removedAll function body
  | .branch _ _ consequent alternate =>
    removedAll function consequent ++ removedElse function alternate
  | _ => []

/-- What pruning takes out of a list: what it takes out of the statements that
    stay, and everything after the first that ends the list. -/
def removedAll (function : Text) : List Stmt → List (Text × Stmt)
  | [] => []
  | st :: rest =>
    removed function st ++
      if ends st then rest.map fun gone => (function, gone) else removedAll function rest

/-- The same for an else part. -/
def removedElse (function : Text) : Option (List Stmt) → List (Text × Stmt)
  | none => []
  | some body => removedAll function body

end

mutual

/-- The number of statements in a statement, itself included. -/
def size : Stmt → Nat
  | .function _ _ body => sizeAll body + 1
  | .loop _ _ body => sizeAll body + 1
  | .branch _ _ consequent alternate => sizeAll consequent + sizeElse alternate + 1
  | _ => 1

/-- The number of statements in a list, at all levels. -/
def sizeAll : List Stmt → Nat
  | [] => 0
  | st :: rest => size st + sizeAll rest

/-- The same for an else part. -/
def sizeElse : Option (List Stmt) → Nat
  | none => 0
  | some body => sizeAll body

end

/-- Once a list has ended, the rest does not change that. -/
theorem statements_ended (function : Text) (inLoop : Bool) (b : List Stmt) :
    statements function inLoop true b = (true, b.map (unreachable function)) := by
  induction b with
  | nil => simp only [statements, List.map_nil]
  | cons st rest ih => simp only [statements, ih, List.map_cons]

/-- A list of statements is judged by its statements one after the other. -/
theorem statements_cons (function : Text) (inLoop : Bool) (st : Stmt) (rest : List Stmt) :
    statements function inLoop false (st :: rest) =
      if (statement function inLoop st).1 then
        (true, (statement function inLoop st).2 ++ rest.map (unreachable function))
      else ((statements function inLoop false rest).1,
        (statement function inLoop st).2 ++ (statements function inLoop false rest).2) := by
  rw [statements]
  cases hst : (statement function inLoop st).1 with
  | true => simp only [hst, statements_ended, if_true]
  | false => simp only [hst, Bool.false_eq_true, if_false]

mutual

/-- The verdict does not depend on the function or on loops around. -/
theorem statement_fst (function : Text) (inLoop : Bool) : ∀ st,
    (statement function inLoop st).1 = ends st
  | .giveBack _ _ => by simp only [ends, statement]
  | .leave _ => by simp only [ends, statement]
  | .next _ => by simp only [ends, statement]
  | .branch _ _ consequent alternate => by
      simp only [ends, statement, statements_fst function inLoop consequent,
        otherwise_fst function inLoop alternate,
        statements_fst RuntimeFault.scriptName false consequent,
        otherwise_fst RuntimeFault.scriptName false alternate]
  | .loop _ _ _ => by simp only [ends, statement]
  | .function _ _ _ => by simp only [ends, statement]
  | .delete _ _ => by simp only [ends, statement]
  | .expression _ => by simp only [ends, statement]
  | .echo _ _ => by simp only [ends, statement]

theorem statements_fst (function : Text) (inLoop : Bool) : ∀ b,
    (statements function inLoop false b).1 = endsAll b
  | [] => by simp only [endsAll, statements]
  | st :: rest => by
      rw [endsAll, statements_cons, statements_cons, statement_fst function inLoop st,
        statement_fst RuntimeFault.scriptName false st, statements_fst function inLoop rest,
        statements_fst RuntimeFault.scriptName false rest]
      split <;> rfl

theorem otherwise_fst (function : Text) (inLoop : Bool) : ∀ alternate,
    (otherwise function inLoop alternate).1 = endsElse alternate
  | none => by simp only [endsElse, otherwise]
  | some body => by simp only [endsElse, otherwise, statements_fst function inLoop body]

end

theorem ends_branch (k : Token) (e : Expr) (b : List Stmt) (alternate : Option (List Stmt)) :
    ends (.branch k e b alternate) = (endsAll b && endsElse alternate) := by
  simp only [ends, statement, statements_fst, otherwise_fst]

theorem endsAll_cons (st : Stmt) (rest : List Stmt) :
    endsAll (st :: rest) = (ends st || endsAll rest) := by
  rw [endsAll, statements_cons, statement_fst, statements_fst]
  cases ends st <;> rfl

/-- With counter `n`, nothing that is judged to end ends normally. -/
def VerdictRight (n : Nat) : Prop :=
  (∀ st here s t, ends st = true → exec n st here s ≠ .ok .normal t) ∧
    ∀ b here s t, endsAll b = true → execAll n b here s ≠ .ok .normal t

theorem exec_verdict {n : Nat} (ih : VerdictRight n) (st : Stmt) (here : LevelId) (s t : Session)
    (hends : ends st = true) : exec (n + 1) st here s ≠ .ok .normal t := by
  intro hrun
  cases st with
  | giveBack k value =>
      cases value with
      | none => simp [exec] at hrun
      | some e =>
          simp only [exec, Outcome.andThen] at hrun
          split at hrun <;> simp at hrun
  | leave k => simp [exec] at hrun
  | next k => simp [exec] at hrun
  | branch k e b alternate =>
      rw [ends_branch, Bool.and_eq_true] at hends
      simp only [exec, Outcome.andThen] at hrun
      split at hrun
      · -- Whichever part runs is judged to end.
        split at hrun
        · exact ih.2 _ _ _ _ hends.1 hrun
        · cases alternate with
          | none => cases hends.2
          | some c => exact ih.2 _ _ _ _ hends.2 hrun
      · cases hrun
      · cases hrun
  | loop k e b => simp [ends, statement] at hends
  | function name params b => simp [ends, statement] at hends
  | delete k targets => simp [ends, statement] at hends
  | expression e => simp [ends, statement] at hends
  | echo k e => simp [ends, statement] at hends

theorem execAll_verdict {n : Nat} (ih : VerdictRight n) (b : List Stmt) (here : LevelId)
    (s t : Session) (hends : endsAll b = true) : execAll (n + 1) b here s ≠ .ok .normal t := by
  intro hrun
  cases b with
  | nil => cases hends
  | cons st rest =>
      rw [endsAll_cons, Bool.or_eq_true] at hends
      simp only [execAll] at hrun
      cases hst : exec n st here s with
      | starved => simp [hst, Outcome.andThen] at hrun
      | fault e s' => simp [hst, Outcome.andThen] at hrun
      | ok signal s' =>
          simp only [hst, Outcome.andThen] at hrun
          cases signal with
          | normal =>
              rcases hends with hends | hends
              · exact ih.1 st here s s' hends hst
              · exact ih.2 rest here s' t hends hrun
          | giveBack v k => simp at hrun
          | leave k => simp at hrun
          | next k => simp at hrun

theorem verdictRight (n : Nat) : VerdictRight n := by
  induction n with
  | zero => constructor <;> intros <;> simp [exec, execAll]
  | succ n ih => exact ⟨exec_verdict ih, execAll_verdict ih⟩

/-- The verdict is right: a statement that is judged to end the list it stands
    in never ends normally. -/
theorem diverts_of_ends {st : Stmt} (h : ends st = true) : st.Diverts :=
  fun n here s t => (verdictRight n).1 st here s t h

mutual

/-- Pruning does not change the verdict. -/
theorem ends_prune : ∀ st, ends (prune st) = ends st
  | .branch _ _ consequent alternate => by
      rw [prune, ends_branch, ends_branch, endsAll_pruneAll consequent,
        endsElse_pruneElse alternate]
  | .loop _ _ _ => by simp only [prune, ends, statement]
  | .function _ _ _ => by simp only [prune, ends, statement]
  | .giveBack _ _ => by simp only [prune]
  | .leave _ => by simp only [prune]
  | .next _ => by simp only [prune]
  | .delete _ _ => by simp only [prune]
  | .expression _ => by simp only [prune]
  | .echo _ _ => by simp only [prune]

theorem endsAll_pruneAll : ∀ b, endsAll (pruneAll b) = endsAll b
  | [] => by rw [pruneAll]
  | st :: rest => by
      rw [pruneAll, endsAll_cons, endsAll_cons, ends_prune st]
      cases ends st with
      | true => rfl
      | false => simp only [Bool.false_eq_true, if_false, endsAll_pruneAll rest]

theorem endsElse_pruneElse : ∀ alternate, endsElse (pruneElse alternate) = endsElse alternate
  | none => by rw [pruneElse]
  | some body => by rw [pruneElse, endsElse, endsElse, endsAll_pruneAll body]

end

mutual

theorem prune_prune : ∀ st, prune (prune st) = prune st
  | .branch _ _ consequent alternate => by
      rw [prune, prune, pruneAll_pruneAll consequent, pruneElse_pruneElse alternate]
  | .loop _ _ body => by rw [prune, prune, pruneAll_pruneAll body]
  | .function _ _ body => by rw [prune, prune, pruneAll_pruneAll body]
  | .giveBack _ _ => by simp only [prune]
  | .leave _ => by simp only [prune]
  | .next _ => by simp only [prune]
  | .delete _ _ => by simp only [prune]
  | .expression _ => by simp only [prune]
  | .echo _ _ => by simp only [prune]

/-- Pruning twice is pruning once. -/
theorem pruneAll_pruneAll : ∀ b, pruneAll (pruneAll b) = pruneAll b
  | [] => by rw [pruneAll, pruneAll]
  | st :: rest => by
      rw [pruneAll, pruneAll, prune_prune st, ends_prune st]
      cases ends st with
      | true => rfl
      | false => simp only [Bool.false_eq_true, if_false, pruneAll_pruneAll rest]

theorem pruneElse_pruneElse : ∀ alternate, pruneElse (pruneElse alternate) = pruneElse alternate
  | none => by rw [pruneElse, pruneElse]
  | some body => by rw [pruneElse, pruneElse, pruneAll_pruneAll body]

end

/-- Statements that pruning makes equal are of one form. -/
theorem stmtCases_of_prune_eq {st st' : Stmt} (h : prune st = prune st') :
    StmtCases Eq Eq (fun b b' => pruneAll b = pruneAll b') st st' := by
  have hsame : ∀ ts : List Token, List.Forall₂ Eq ts ts := fun ts => List.forall₂_refl ts
  cases st <;> cases st' <;> simp only [prune, reduceCtorEq, Stmt.function.injEq, Stmt.loop.injEq,
    Stmt.branch.injEq, Stmt.giveBack.injEq, Stmt.leave.injEq, Stmt.next.injEq, Stmt.delete.injEq,
    Stmt.expression.injEq, Stmt.echo.injEq] at h
  case function.function =>
    rcases h with ⟨rfl, rfl, hb⟩
    exact .function rfl (hsame _) hb
  case giveBack.giveBack k value k' value' =>
    rcases h with ⟨rfl, rfl⟩
    cases value with
    | none => exact .giveBackNothing rfl
    | some e => exact .giveBack rfl rfl
  case delete.delete =>
    rcases h with ⟨rfl, rfl⟩
    exact .delete (hsame _)
  case loop.loop =>
    rcases h with ⟨rfl, rfl, hb⟩
    exact .loop rfl hb
  case branch.branch k e b alternate k' e' b' alternate' =>
    rcases h with ⟨rfl, rfl, hb, helse⟩
    cases alternate <;> cases alternate' <;>
      simp only [pruneElse, reduceCtorEq, Option.some.injEq] at helse
    · exact .branch rfl hb
    · exact .branchElse rfl hb helse
  case expression.expression => exact h ▸ .expression rfl
  case echo.echo =>
    rcases h with ⟨rfl, rfl⟩
    exact .echo rfl
  case leave.leave => exact .leave h
  case next.next => exact .next h

/-- Lists that pruning makes equal agree up to the first statement that ends
    them. -/
theorem bodyCases_of_pruneAll_eq {b b' : List Stmt} (h : pruneAll b = pruneAll b') :
    BodyCases (fun st st' => prune st = prune st') (fun b b' => pruneAll b = pruneAll b') b b' := by
  cases b with
  | nil =>
      cases b' with
      | nil => exact .nil
      | cons st' rest' => rw [pruneAll, pruneAll] at h; cases h
  | cons st rest =>
      cases b' with
      | nil => rw [pruneAll, pruneAll] at h; cases h
      | cons st' rest' =>
          rw [pruneAll, pruneAll] at h
          rcases List.cons.inj h with ⟨hst, hrest⟩
          refine .cons hst ?_
          cases hends : ends st with
          | true => exact Or.inr (diverts_of_ends hends)
          | false =>
              have hends' : ends st' = false := by rw [← ends_prune st', ← hst, ends_prune, hends]
              simp only [hends, hends', Bool.false_eq_true, if_false] at hrest
              exact Or.inl hrest

/-- Programs correspond if they are the same after pruning. -/
def pruning : Correspondence where
  exact := True
  token := Eq
  expr := Eq
  stmt st st' := prune st = prune st'
  body b b' := pruneAll b = pruneAll b'
  token_refl _ := rfl
  body_refl _ := rfl
  token_like := Token.like_of_eq
  expr_cases h := by rw [h]; exact .refl (fun _ => rfl) (fun _ => rfl) _
  stmt_cases := stmtCases_of_prune_eq
  body_cases := bodyCases_of_pruneAll_eq

/-- Does a finding say that a statement is unreachable? -/
def saysUnreachable (w : Warning) : Bool := w.message == ("unreachable statement" : Text)

/-- The finding on a statement that is gone. -/
def findingOn (gone : Text × Stmt) : Warning := unreachable gone.1 gone.2

theorem saysUnreachable_unreachable (function : Text) (st : Stmt) :
    saysUnreachable (unreachable function st) = true := beq_self_eq_true _

theorem filter_stray (inLoop : Bool) (function : Text) (keyword : Token) :
    (if inLoop then [] else [stray function keyword]).filter saysUnreachable = [] := by
  have hstray : saysUnreachable (stray function keyword) = false := by
    simp only [saysUnreachable, stray]
    decide
  cases inLoop
  · simp only [Bool.false_eq_true, if_false, List.filter_cons, hstray, List.filter_nil]
  · rfl

theorem filter_unreachable (function : Text) (gone : List Stmt) :
    (gone.map (unreachable function)).filter saysUnreachable =
      (gone.map fun st => (function, st)).map findingOn := by
  rw [List.map_map, List.filter_eq_self.mpr]
  · rfl
  · intro w hw
    rcases List.mem_map.mp hw with ⟨st, _, rfl⟩
    exact saysUnreachable_unreachable function st

mutual

theorem statement_findings (function : Text) (inLoop : Bool) : ∀ st,
    (statement function inLoop st).2.filter saysUnreachable =
      (removed function st).map findingOn
  | .giveBack _ _ => by simp only [statement, removed, List.filter_nil, List.map_nil]
  | .leave _ => by simp only [statement, removed, filter_stray, List.map_nil]
  | .next _ => by simp only [statement, removed, filter_stray, List.map_nil]
  | .branch _ _ consequent alternate => by
      simp only [statement, removed, List.filter_append, List.map_append,
        statements_findings function inLoop consequent,
        otherwise_findings function inLoop alternate]
  | .loop _ _ body => by simp only [statement, removed, statements_findings function true body]
  | .function name _ body => by
      simp only [statement, removed, statements_findings name.lexeme false body]
  | .delete _ _ => by simp only [statement, removed, List.filter_nil, List.map_nil]
  | .expression _ => by simp only [statement, removed, List.filter_nil, List.map_nil]
  | .echo _ _ => by simp only [statement, removed, List.filter_nil, List.map_nil]

theorem statements_findings (function : Text) (inLoop : Bool) : ∀ b,
    (statements function inLoop false b).2.filter saysUnreachable =
      (removedAll function b).map findingOn
  | [] => by simp only [statements, removedAll, List.filter_nil, List.map_nil]
  | st :: rest => by
      rw [statements_cons, statement_fst, removedAll, List.map_append]
      cases ends st with
      | true =>
          simp only [if_true, List.filter_append, statement_findings function inLoop st,
            filter_unreachable]
      | false =>
          simp only [Bool.false_eq_true, if_false, List.filter_append,
            statement_findings function inLoop st, statements_findings function inLoop rest]

theorem otherwise_findings (function : Text) (inLoop : Bool) : ∀ alternate,
    (otherwise function inLoop alternate).2.filter saysUnreachable =
      (removedElse function alternate).map findingOn
  | none => by simp only [otherwise, removedElse, List.filter_nil, List.map_nil]
  | some body => by simp only [otherwise, removedElse, statements_findings function inLoop body]

end

/-- The findings that a statement is unreachable are on the statements that
    pruning removes, one each. -/
theorem unreachable_findings (p : List Stmt) :
    ((check p).filter saysUnreachable).Perm
      ((removedAll RuntimeFault.scriptName p).map findingOn) := by
  rw [← statements_findings RuntimeFault.scriptName false p]
  exact (List.mergeSort_perm _ _).filter _

mutual

theorem removed_prune (function : Text) : ∀ st, removed function (prune st) = []
  | .branch _ _ consequent alternate => by
      rw [prune, removed, removedAll_pruneAll function consequent,
        removedElse_pruneElse function alternate]
      rfl
  | .loop _ _ body => by rw [prune, removed, removedAll_pruneAll function body]
  | .function name _ body => by rw [prune, removed, removedAll_pruneAll name.lexeme body]
  | .giveBack _ _ => by simp only [prune, removed]
  | .leave _ => by simp only [prune, removed]
  | .next _ => by simp only [prune, removed]
  | .delete _ _ => by simp only [prune, removed]
  | .expression _ => by simp only [prune, removed]
  | .echo _ _ => by simp only [prune, removed]

/-- There is nothing to remove from a pruned program. -/
theorem removedAll_pruneAll (function : Text) : ∀ b, removedAll function (pruneAll b) = []
  | [] => by rw [pruneAll, removedAll]
  | st :: rest => by
      rw [pruneAll, removedAll, removed_prune function st, ends_prune st]
      cases ends st with
      | true => rfl
      | false => simp only [Bool.false_eq_true, if_false, removedAll_pruneAll function rest,
          List.append_nil]

theorem removedElse_pruneElse (function : Text) : ∀ alternate,
    removedElse function (pruneElse alternate) = []
  | none => by rw [pruneElse, removedElse]
  | some body => by rw [pruneElse, removedElse, removedAll_pruneAll function body]

end

/-- The number of statements that are gone, at all levels. -/
def sizeGone : List (Text × Stmt) → Nat
  | [] => 0
  | entry :: gone => size entry.2 + sizeGone gone

theorem sizeGone_append (gone more : List (Text × Stmt)) :
    sizeGone (gone ++ more) = sizeGone gone + sizeGone more := by
  induction gone with
  | nil => rw [List.nil_append, sizeGone, Nat.zero_add]
  | cons entry gone ih => rw [List.cons_append, sizeGone, sizeGone, ih, Nat.add_assoc]

theorem sizeGone_rest (function : Text) (rest : List Stmt) :
    sizeGone (rest.map fun st => (function, st)) = sizeAll rest := by
  induction rest with
  | nil => rw [sizeAll]; rfl
  | cons st rest ih =>
      rw [sizeAll, ← ih]
      rfl

mutual

theorem size_prune (function : Text) : ∀ st,
    size st = size (prune st) + sizeGone (removed function st)
  | .branch _ _ consequent alternate => by
      have hthen := sizeAll_pruneAll function consequent
      have helse := sizeElse_pruneElse function alternate
      rw [prune, removed, size, size, sizeGone_append]
      omega
  | .loop _ _ body => by
      have hbody := sizeAll_pruneAll function body
      rw [prune, removed, size, size]
      omega
  | .function name _ body => by
      have hbody := sizeAll_pruneAll name.lexeme body
      rw [prune, removed, size, size]
      omega
  | .giveBack _ _ => by simp only [prune, removed]; rfl
  | .leave _ => by simp only [prune, removed]; rfl
  | .next _ => by simp only [prune, removed]; rfl
  | .delete _ _ => by simp only [prune, removed]; rfl
  | .expression _ => by simp only [prune, removed]; rfl
  | .echo _ _ => by simp only [prune, removed]; rfl

/-- A statement is kept or gone, and not both. -/
theorem sizeAll_pruneAll (function : Text) : ∀ b,
    sizeAll b = sizeAll (pruneAll b) + sizeGone (removedAll function b)
  | [] => by rw [pruneAll, removedAll]; rfl
  | st :: rest => by
      have hst := size_prune function st
      have hrest := sizeAll_pruneAll function rest
      rw [pruneAll, removedAll, sizeGone_append, sizeAll, sizeAll]
      cases ends st with
      | true =>
          simp only [if_true, sizeGone_rest, sizeAll]
          omega
      | false =>
          simp only [Bool.false_eq_true, if_false]
          omega

theorem sizeElse_pruneElse (function : Text) : ∀ alternate,
    sizeElse alternate = sizeElse (pruneElse alternate) + sizeGone (removedElse function alternate)
  | none => by rw [pruneElse, removedElse]; rfl
  | some body => by
      rw [pruneElse, removedElse, sizeElse, sizeElse]
      exact sizeAll_pruneAll function body

end

/-- A value with the body of a function pruned. -/
def pruneValue : Value → Value
  | .function f => .function { f with body := pruneAll f.body }
  | v => v

/-- The outermost bindings of a session, with the bodies of functions
    pruned. -/
def prunedGlobals (s : Session) : Bindings :=
  s.globals.map fun entry => (entry.1, pruneValue entry.2)

theorem pruneValue_eq {v v' : Value} (h : pruning.Values v v') : pruneValue v = pruneValue v' := by
  cases h with
  | function hparams hb =>
      have hp : _ = _ := List.forall₂_eq_eq_eq ▸ hparams
      rw [pruneValue, pruneValue, hp, hb]
  | _ => rfl

theorem prunedGlobals_eq {s s' : Session} (h : pruning.Sessions s s') :
    prunedGlobals s = prunedGlobals s' := h.map_globals_eq pruneValue_eq

/-- Two runs that nobody can tell apart: both use the counter up, or both end
    or fault, with the same fault, the same output and the same outermost
    bindings up to the pruning of functions. -/
inductive SameRun : Outcome RuntimeFault Unit → Outcome RuntimeFault Unit → Prop where
  | ended {t t' : Session} : t.output = t'.output → prunedGlobals t = prunedGlobals t' →
      SameRun (.ok () t) (.ok () t')
  | faulted {e : RuntimeFault} {t t' : Session} : t.output = t'.output →
      prunedGlobals t = prunedGlobals t' → SameRun (.fault e t) (.fault e t')
  | starved : SameRun .starved .starved

/-- Pruning removes a statement for every finding that one is unreachable, so
    that no such finding is left, and removes nothing else. And it changes no
    run, whatever the counter and whatever the session, as long as no native function
    looks into the bodies of functions. -/
theorem pruneAll_runs_alike (p : List Stmt) :
    ((check p).filter saysUnreachable).Perm
      ((removedAll RuntimeFault.scriptName p).map findingOn) ∧
    (check (pruneAll p)).filter saysUnreachable = [] ∧
    sizeAll p = sizeAll (pruneAll p) + sizeGone (removedAll RuntimeFault.scriptName p) ∧
    ∀ (n : Nat) (s : Session), s.store.Discreet →
      SameRun (interpret n p s) (interpret n (pruneAll p) s) := by
  refine ⟨unreachable_findings p, ?_, sizeAll_pruneAll _ p, ?_⟩
  · have hnone := unreachable_findings (pruneAll p)
    rw [removedAll_pruneAll] at hnone
    exact hnone.eq_nil
  · intro n s hs
    have hbody : pruning.body p (pruneAll p) := (pruneAll_pruneAll p).symm
    have hrun := (Correspondence.lockStep n).interpret hbody (.refl hs)
    generalize interpret n p s = o at hrun ⊢
    generalize interpret n (pruneAll p) s = o' at hrun ⊢
    cases hrun with
    | ok _ ht => exact .ended ht.output_eq (prunedGlobals_eq ht)
    | starved => exact .starved
    | fault he ht =>
        rw [he.eq_of_exact trivial]
        exact .faulted ht.output_eq (prunedGlobals_eq ht)

/-- A function with a statement behind its return, and a call of it. -/
def idleProgram : List Stmt :=
  [.function ⟨.identifier, "f", none, ⟨1, 6⟩⟩ []
      [.giveBack ⟨.returnWord, "return", none, ⟨1, 12⟩⟩ none,
        .echo ⟨.echoWord, "echo", none, ⟨1, 20⟩⟩ (.constant .null ⟨1, 25⟩)],
    .echo ⟨.echoWord, "echo", none, ⟨1, 33⟩⟩
      (.call (.reference ⟨.identifier, "f", none, ⟨1, 38⟩⟩) ⟨.rightParen, ")", none, ⟨1, 40⟩⟩ [])]

/-- One statement is reported and goes, and the program runs as before. -/
theorem idleProgram_runs_alike :
    (removedAll RuntimeFault.scriptName idleProgram).map findingOn =
        [⟨"f", ⟨1, 20⟩, "unreachable statement"⟩] ∧
      (check idleProgram).filter saysUnreachable = [⟨"f", ⟨1, 20⟩, "unreachable statement"⟩] ∧
      Session.initial.store.Discreet ∧
      ∃ t t', interpret 9 idleProgram .initial = .ok () t ∧
        interpret 9 (pruneAll idleProgram) .initial = .ok () t' ∧ t.output = utf8 "null\n" ∧
        t.output = t'.output ∧ prunedGlobals t = prunedGlobals t' := by
  have hremoved : (removedAll RuntimeFault.scriptName idleProgram).map findingOn =
      [⟨"f", ⟨1, 20⟩, "unreachable statement"⟩] := by decide +kernel
  rcases pruneAll_runs_alike idleProgram with ⟨hfindings, _, _, hruns⟩
  rw [hremoved, List.perm_singleton] at hfindings
  have hsame := hruns 9 .initial Session.discreet_initial
  have houtput : (interpret 9 idleProgram .initial).ended?.map Session.output =
      some (utf8 "null\n") := by decide +kernel
  refine ⟨hremoved, hfindings, Session.discreet_initial, ?_⟩
  generalize interpret 9 idleProgram .initial = o at hsame houtput ⊢
  generalize interpret 9 (pruneAll idleProgram) .initial = o' at hsame ⊢
  cases hsame with
  | ended hout hglobals => exact ⟨_, _, rfl, rfl, Option.some.inj houtput, hout, hglobals⟩
  | faulted _ _ => cases houtput
  | starved => cases houtput

/-- What follows a branch goes if both of its sides return. -/
example (k : Token) (e : Expr) :
    pruneAll [.branch k e [.giveBack k none, .echo k e] (some [.giveBack k none]), .echo k e] =
      [.branch k e [.giveBack k none] (some [.giveBack k none])] := by
  simp [pruneAll, prune, pruneElse, ends, statement, statements, otherwise]

end Lint

end PocketScript
