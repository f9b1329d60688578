import PocketScript.Session.Evaluate

/-!
# A larger counter keeps the answer

What a run gives with one counter it gives with every larger one.

The counter only ever decides whether a run goes on. Going through one form of
expression or statement with two counters asks the same questions of its parts
with the two counters one smaller, so an answer that the smaller counter has is
the answer of both. The induction is on the smaller counter, with the larger
one along for the ride: all that is asked of it is that it does not run out
first.

## Main definitions

* `Outcome.Keeps`: An outcome is starved or the same as another.
* `Steady`: Everything keeps its outcome between two counters.

## Theorems

* `steady`: Every larger counter keeps all outcomes.
* `execAll_append`: Statements in a row, when the first of them end normally.
-/

namespace PocketScript

/-- The second outcome is the first, unless that was starved. -/
def Outcome.Keeps {ε α : Type} (o o' : Outcome ε α) : Prop := o = .starved ∨ o' = o

namespace Outcome

variable {ε α β : Type}

theorem keeps_refl (o : Outcome ε α) : o.Keeps o := Or.inr rfl

theorem keeps_starved (o : Outcome ε α) : starved.Keeps o := Or.inl rfl

/-- Going on keeps what both parts keep. -/
theorem Keeps.andThen {o o' : Outcome ε α} {f f' : α → Session → Outcome ε β} (h : o.Keeps o')
    (hf : ∀ a s, (f a s).Keeps (f' a s)) : (o.andThen f).Keeps (o'.andThen f') := by
  rcases h with rfl | rfl
  · exact keeps_starved _
  · cases o' with
    | ok a s => exact hf a s
    | fault e s => exact keeps_refl _
    | starved => exact keeps_starved _

theorem Keeps.either {ε' : Type} {o o' : Outcome ε Unit}
    {f f' : Option ε → Session → Outcome ε' β} (h : o.Keeps o')
    (hf : ∀ e s, (f e s).Keeps (f' e s)) : (o.either f).Keeps (o'.either f') := by
  rcases h with rfl | rfl
  · exact keeps_starved _
  · cases o' with
    | ok a s => exact hf none s
    | fault e s => exact hf (some e) s
    | starved => exact keeps_starved _

theorem Keeps.eq {o o' : Outcome ε α} (h : o.Keeps o') (ho : o ≠ .starved) : o' = o :=
  h.resolve_left ho

end Outcome

open Outcome

/-- Counter `m` keeps every outcome of counter `n`. -/
structure Steady (n m : Nat) : Prop where
  eval : ∀ e here s, (eval n e here s).Keeps (eval m e here s)
  evalAll : ∀ es here s, (evalAll n es here s).Keeps (evalAll m es here s)
  apply : ∀ f args paren s, (apply n f args paren s).Keeps (apply m f args paren s)
  callFunction : ∀ f args paren s,
    (callFunction n f args paren s).Keeps (callFunction m f args paren s)
  callNative : ∀ script held s, (callNative n script held s).Keeps (callNative m script held s)
  exec : ∀ st here s, (exec n st here s).Keeps (exec m st here s)
  execAll : ∀ b here s, (execAll n b here s).Keeps (execAll m b here s)
  execLoop : ∀ e b here s, (execLoop n e b here s).Keeps (execLoop m e b here s)
  interpret : ∀ p s, (interpret n p s).Keeps (interpret m p s)
  runSource : ∀ source s, (runSource n source s).Keeps (runSource m source s)

theorem steady_zero (m : Nat) : Steady 0 m := by
  constructor
  all_goals
    intros
    simp only [eval, evalAll, apply, callFunction, callNative, exec, execAll, execLoop, interpret,
      runSource]
    exact keeps_starved _

theorem finishCall_keeps {o o' : Outcome RuntimeFault Signal} (h : o.Keeps o') :
    (finishCall o).Keeps (finishCall o') := by
  rcases h with rfl | rfl
  · exact keeps_starved _
  · exact keeps_refl _

section

variable {n m : Nat} (ih : Steady n m)
include ih

theorem eval_keeps (e : Expr) (here : LevelId) (s : Session) :
    (eval (n + 1) e here s).Keeps (eval (m + 1) e here s) := by
  cases e with
  | constant v p =>
      simp only [eval]
      exact keeps_refl _
  | grouping inner p =>
      simp only [eval]
      exact ih.eval inner here s
  | reference name =>
      simp only [eval]
      exact keeps_refl _
  | assign name value =>
      simp only [eval]
      exact (ih.eval value here s).andThen fun _ _ => keeps_refl _
  | augmented name operator value =>
      simp only [eval]
      cases s.store.get here name with
      | error e => exact keeps_refl _
      | ok current => exact (ih.eval value here s).andThen fun _ _ => keeps_refl _
  | step operator name =>
      simp only [eval]
      exact keeps_refl _
  | unary operator operand =>
      simp only [eval]
      exact (ih.eval operand here s).andThen fun _ _ => keeps_refl _
  | binary left operator right =>
      simp only [eval]
      exact (ih.eval left here s).andThen fun _ s =>
        (ih.eval right here s).andThen fun _ _ => keeps_refl _
  | logical left operator right =>
      simp only [eval]
      refine (ih.eval left here s).andThen fun a s => ?_
      split
      · exact keeps_refl _
      · exact ih.eval right here s
  | call callee paren args =>
      simp only [eval]
      exact (ih.eval callee here s).andThen fun f s =>
        (ih.evalAll args here s).andThen fun vs s => ih.apply f vs paren s

theorem evalAll_keeps (es : List Expr) (here : LevelId) (s : Session) :
    (evalAll (n + 1) es here s).Keeps (evalAll (m + 1) es here s) := by
  cases es with
  | nil =>
      simp only [evalAll]
      exact keeps_refl _
  | cons e es =>
      simp only [evalAll]
      exact (ih.eval e here s).andThen fun _ s =>
        (ih.evalAll es here s).andThen fun _ _ => keeps_refl _

theorem apply_keeps (f : Value) (args : List Value) (paren : Token) (s : Session) :
    (apply (n + 1) f args paren s).Keeps (apply (m + 1) f args paren s) := by
  cases f with
  | function f =>
      simp only [apply]
      split
      · exact ih.callFunction f args paren s
      · exact keeps_refl _
  | native f =>
      simp only [apply]
      split
      · rcases ih.callNative (f.action (args.map Value.shown)) args s with hstarved | hsame
        · rw [hstarved]
          exact keeps_starved _
        · rw [hsame]
          exact keeps_refl _
      · exact keeps_refl _
  | _ =>
      simp only [apply]
      exact keeps_refl _

theorem callFunction_keeps (f : Closure) (args : List Value) (paren : Token) (s : Session) :
    (callFunction (n + 1) f args paren s).Keeps (callFunction (m + 1) f args paren s) := by
  simp only [callFunction]
  exact finishCall_keeps (ih.execAll _ _ _)

theorem callNative_keeps (script : Script) (held : List Value) (s : Session) :
    (callNative (n + 1) script held s).Keeps (callNative (m + 1) script held s) := by
  cases script with
  | give v =>
      simp only [callNative]
      exact keeps_refl _
  | fail e =>
      simp only [callNative]
      exact keeps_refl _
  | ask q next =>
      simp only [callNative]
      exact ih.callNative _ _ _
  | wrap name arity action next =>
      simp only [callNative]
      exact ih.callNative _ _ _
  | run work next =>
      cases work with
      | source t =>
          simp only [callNative]
          exact (ih.runSource t s).either fun e u => ih.callNative (next e) held u
      | program p =>
          simp only [callNative]
          exact (ih.interpret p s).either fun e u => ih.callNative _ held u

theorem exec_keeps (st : Stmt) (here : LevelId) (s : Session) :
    (exec (n + 1) st here s).Keeps (exec (m + 1) st here s) := by
  cases st with
  | expression value =>
      simp only [exec]
      exact (ih.eval value here s).andThen fun _ _ => keeps_refl _
  | echo keyword value =>
      simp only [exec]
      exact (ih.eval value here s).andThen fun _ _ => keeps_refl _
  | giveBack keyword value =>
      cases value with
      | none =>
          simp only [exec]
          exact keeps_refl _
      | some value =>
          simp only [exec]
          exact (ih.eval value here s).andThen fun _ _ => keeps_refl _
  | branch keyword condition consequent alternate =>
      simp only [exec]
      refine (ih.eval condition here s).andThen fun v s => ?_
      split
      · exact ih.execAll consequent here s
      · cases alternate with
        | none => exact keeps_refl _
        | some body => exact ih.execAll body here s
  | loop keyword condition body =>
      simp only [exec]
      exact ih.execLoop condition body here s
  | _ =>
      simp only [exec]
      exact keeps_refl _

theorem execAll_keeps (b : List Stmt) (here : LevelId) (s : Session) :
    (execAll (n + 1) b here s).Keeps (execAll (m + 1) b here s) := by
  cases b with
  | nil =>
      simp only [execAll]
      exact keeps_refl _
  | cons st rest =>
      simp only [execAll]
      refine (ih.exec st here s).andThen fun signal s => ?_
      cases signal with
      | normal => exact ih.execAll rest here s
      | _ => exact keeps_refl _

theorem execLoop_keeps (e : Expr) (b : List Stmt) (here : LevelId) (s : Session) :
    (execLoop (n + 1) e b here s).Keeps (execLoop (m + 1) e b here s) := by
  simp only [execLoop]
  refine (ih.eval e here s).andThen fun v s => ?_
  split
  · refine (ih.execAll b here s).andThen fun signal s => ?_
    cases signal with
    | normal => exact ih.execLoop e b here s
    | next k => exact ih.execLoop e b here s
    | leave k => exact keeps_refl _
    | giveBack v k => exact keeps_refl _
  · exact keeps_refl _

theorem interpret_keeps (p : List Stmt) (s : Session) :
    (interpret (n + 1) p s).Keeps (interpret (m + 1) p s) := by
  simp only [interpret]
  exact (ih.execAll p _ _).andThen fun _ _ => keeps_refl _

theorem runSource_keeps (source : Text) (s : Session) :
    (runSource (n + 1) source s).Keeps (runSource (m + 1) source s) := by
  simp only [runSource]
  cases Token.scan source with
  | error e => exact keeps_refl _
  | ok tokens =>
      dsimp only
      cases (parse tokens).outcome with
      | error e => exact keeps_refl _
      | ok program =>
          dsimp only
          rcases ih.interpret program ((s.begin.keepRemarks (parse tokens).remarks).note
            (.parsed tokens.length program.length)) with hstarved | hsame
          · rw [hstarved]
            exact keeps_starved _
          · rw [hsame]
            exact keeps_refl _

theorem steady_succ : Steady (n + 1) (m + 1) where
  eval := eval_keeps ih
  evalAll := evalAll_keeps ih
  apply := apply_keeps ih
  callFunction := callFunction_keeps ih
  callNative := callNative_keeps ih
  exec := exec_keeps ih
  execAll := execAll_keeps ih
  execLoop := execLoop_keeps ih
  interpret := interpret_keeps ih
  runSource := runSource_keeps ih

end

/-- Every larger counter keeps all outcomes. -/
theorem steady {n m : Nat} (h : n ≤ m) : Steady n m := by
  induction n generalizing m with
  | zero => exact steady_zero m
  | succ n ih =>
      cases m with
      | zero => omega
      | succ m => exact steady_succ (ih (by omega))

/-- When the first statements of a list end normally, the rest runs in the
    session they leave, with what is left of the counter. -/
theorem execAll_append {b c : List Stmt} {here : LevelId} : ∀ {n k : Nat} {s t : Session},
    execAll n b here s = .ok .normal t →
      n ≤ k → execAll (b.length + k) (b ++ c) here s = execAll k c here t := by
  induction b with
  | nil =>
      intro n k s t hrun _
      cases n with
      | zero => simp [execAll] at hrun
      | succ n =>
          simp only [execAll, Outcome.ok.injEq, true_and] at hrun
          rw [hrun, List.length_nil, Nat.zero_add, List.nil_append]
  | cons st b ih =>
      intro n k s t hrun hk
      cases n with
      | zero => simp [execAll] at hrun
      | succ n =>
          have hlength : (st :: b).length + k = (b.length + k) + 1 := by
            rw [List.length_cons]
            omega
          -- The first statement has more to use up here than it had alone.
          have hkeeps := (steady (show n ≤ b.length + k by omega)).exec st here s
          rw [hlength, List.cons_append]
          simp only [execAll] at hrun ⊢
          cases hst : exec n st here s with
          | starved => rw [hst] at hrun; cases hrun
          | fault e s' => rw [hst] at hrun; cases hrun
          | ok signal s' =>
              rw [hst] at hrun hkeeps
              rw [hkeeps.eq (by simp)]
              cases signal with
              | normal => exact ih hrun (by omega)
              | giveBack v keyword => simp [Outcome.andThen] at hrun
              | leave keyword => simp [Outcome.andThen] at hrun
              | next keyword => simp [Outcome.andThen] at hrun

end PocketScript
