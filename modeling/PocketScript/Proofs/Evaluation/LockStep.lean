import PocketScript.Proofs.Evaluation.Correspondence

/-!
# Corresponding programs run in step

Two corresponding programs, started in corresponding sessions with the same
counter, come to corresponding ends: both use the counter up, both fault, or
both end, with related results and sessions.

The counter is the same on both sides all the way. What one program evaluates
and the other does not is only what follows a statement that never ends
normally, and neither run gets there. So the induction is on the counter, over
all functions of the evaluator at once, and each step looks at one form of
expression or statement.

## Main definitions

* `Correspondence.LockStep`: Everything runs in step with a given counter.

## Theorems

* `Correspondence.lockStep`: Everything runs in step.
-/

namespace PocketScript

namespace Correspondence

open Likeness

variable (C : Correspondence)

/-- With counter `n`, related programs in related sessions have related
    outcomes. -/
structure LockStep (n : Nat) : Prop where
  eval : ∀ {e e' : Expr} {here : LevelId} {s s' : Session}, C.expr e e' → C.Sessions s s' →
    C.Outcomes C.Faults C.Values (eval n e here s) (eval n e' here s')
  evalAll : ∀ {es es' : List Expr} {here : LevelId} {s s' : Session},
    List.Forall₂ C.expr es es' → C.Sessions s s' →
    C.Outcomes C.Faults (List.Forall₂ C.Values) (evalAll n es here s) (evalAll n es' here s')
  apply : ∀ {f f' : Value} {vs vs' : List Value} {paren paren' : Token} {s s' : Session},
    C.Values f f' → List.Forall₂ C.Values vs vs' → C.token paren paren' → C.Sessions s s' →
    C.Outcomes C.Faults C.Values (apply n f vs paren s) (apply n f' vs' paren' s')
  callFunction : ∀ {name : Text} {params params' : List Token} {b b' : List Stmt}
    {home : LevelId} {stamp : Nat} {vs vs' : List Value} {paren paren' : Token} {s s' : Session},
    List.Forall₂ C.token params params' → C.body b b' → List.Forall₂ C.Values vs vs' →
    C.token paren paren' → C.Sessions s s' →
    C.Outcomes C.Faults C.Values
      (callFunction n ⟨name, params, b, home, stamp⟩ vs paren s)
      (callFunction n ⟨name, params', b', home, stamp⟩ vs' paren' s')
  callNative : ∀ {script : Script} {held held' : List Value} {s s' : Session},
    script.Discreet → List.Forall₂ C.Values held held' → C.Sessions s s' →
    C.Outcomes C.AnyFaults C.Values (callNative n script held s) (callNative n script held' s')
  exec : ∀ {st st' : Stmt} {here : LevelId} {s s' : Session}, C.stmt st st' → C.Sessions s s' →
    C.Outcomes C.Faults C.Signals (exec n st here s) (exec n st' here s')
  execAll : ∀ {b b' : List Stmt} {here : LevelId} {s s' : Session},
    C.body b b' → C.Sessions s s' →
    C.Outcomes C.Faults C.Signals (execAll n b here s) (execAll n b' here s')
  execLoop : ∀ {e e' : Expr} {b b' : List Stmt} {here : LevelId} {s s' : Session},
    C.expr e e' → C.body b b' → C.Sessions s s' →
    C.Outcomes C.Faults C.Signals (execLoop n e b here s) (execLoop n e' b' here s')
  interpret : ∀ {b b' : List Stmt} {s s' : Session}, C.body b b' → C.Sessions s s' →
    C.Outcomes C.Faults (fun _ _ => True) (interpret n b s) (interpret n b' s')
  runSource : ∀ {source : Text} {s s' : Session}, C.Sessions s s' →
    C.Outcomes C.AnyFaults (fun _ _ => True) (runSource n source s) (runSource n source s')

variable {C}

theorem lockStep_zero : C.LockStep 0 := by
  constructor
  all_goals
    intros
    simp only [eval, evalAll, apply, callFunction, callNative, exec, execAll, execLoop, interpret,
      runSource]
    exact .starved

theorem deleteAll_step {here : LevelId} {ts ts' : List Token} {s s' : Session}
    (hts : List.Forall₂ C.token ts ts') (hs : C.Sessions s s') :
    C.Outcomes C.Faults C.Signals (deleteAll here ts s) (deleteAll here ts' s') := by
  induction hts generalizing s s' with
  | nil => exact .ok .normal hs
  | @cons t t' ts ts' ht _ ih =>
      have hremove := hs.store.remove here t.lexeme
      rw [deleteAll, deleteAll, Store.delete, Store.delete, ← (C.token_like ht).2.1]
      generalize s.store.remove here t.lexeme = r at hremove ⊢
      generalize s'.store.remove here t.lexeme = r' at hremove ⊢
      cases hremove with
      | none => exact .raise (.undefined ht) hs
      | some hstore => exact ih { hs with store := hstore }

theorem finishCall_step {o o' : Outcome RuntimeFault Signal}
    (h : C.Outcomes C.Faults C.Signals o o') :
    C.Outcomes C.Faults C.Values (finishCall o) (finishCall o') := by
  cases h with
  | starved => exact .starved
  | fault he hs => exact .fault he hs.leave
  | ok hsignal hs =>
      cases hsignal with
      | normal => exact .ok .null hs.leave
      | giveBack hv _ => exact .ok hv hs.leave
      | leave hk => exact .fault ((Faults.strayControl hk).attach hs.calls) hs.leave
      | next hk => exact .fault ((Faults.strayControl hk).attach hs.calls) hs.leave

/-- Natives that fail with related faults fail in step. -/
theorem fail_step {e e' : Fault} {held held' : List Value} {s s' : Session} (he : C.AnyFaults e e')
    (hs : C.Sessions s s') (n : Nat) : C.Outcomes C.AnyFaults C.Values
      (callNative n (.fail e) held s) (callNative n (.fail e') held' s') := by
  cases n with
  | zero =>
      simp only [callNative]
      exact .starved
  | succ n =>
      simp only [callNative]
      exact .fault he hs

section

variable {n : Nat} (ih : C.LockStep n)
include ih

theorem eval_step {e e' : Expr} {here : LevelId} {s s' : Session} (he : C.expr e e')
    (hs : C.Sessions s s') :
    C.Outcomes C.Faults C.Values (eval (n + 1) e here s) (eval (n + 1) e' here s') := by
  cases C.expr_cases he with
  | constant v p p' =>
      simp only [eval]
      exact .ok (.data (Value.isCallable_ofLiteral v)) hs
  | grouping hinner =>
      simp only [eval]
      exact ih.eval hinner hs
  | reference ht =>
      simp only [eval]
      rcases get_cases hs.store here ht with ⟨v, v', hv, hv', hvalues⟩ | ⟨hnone, hnone'⟩
      · simp only [hv, hv']
        exact .ok hvalues hs
      · simp only [hnone, hnone']
        exact .raise (.undefined ht) hs
  | assign ht hvalue =>
      simp only [eval, (C.token_like ht).2.1]
      exact (ih.eval hvalue hs).andThen fun hv hs => .ok hv (hs.bind here _ hv)
  | @augmented name name' op op' value value' ht hop hvalue =>
      simp only [eval]
      rcases get_cases hs.store here ht with ⟨v, v', hv, hv', hvalues⟩ | ⟨hnone, hnone'⟩
      · simp only [hv, hv']
        refine (ih.eval hvalue hs).andThen ?_
        intro w w' s s' hw hs
        have hbinary : (op.kind.underlying?.bind fun k => Value.binary? k v w) =
            op'.kind.underlying?.bind fun k => Value.binary? k v' w' := by
          rw [(C.token_like hop).1]
          simp only [Values.binary?_eq _ hvalues hw]
        rw [hbinary, hvalues.kindName_eq, hw.kindName_eq, (C.token_like ht).2.1]
        split
        · rename_i hresult
          have hdata := Values.data (C := C.toLikeness) (Value.isCallable_of_augmented hresult)
          exact .ok hdata (hs.bind here _ hdata)
        · exact .raise (.badOperands hop _ _) hs
      · simp only [hnone, hnone']
        exact .raise (.undefined ht) hs
  | step hop ht =>
      simp only [eval]
      rcases get_cases hs.store here ht with ⟨v, v', hv, hv', hvalues⟩ | ⟨hnone, hnone'⟩
      · simp only [hv, hv', (C.token_like hop).1, (C.token_like ht).2.1, hvalues.step?_eq,
          hvalues.kindName_eq]
        split
        · rename_i hresult
          have hdata := Values.data (C := C.toLikeness) (Value.isCallable_of_step? hresult)
          exact .ok hdata (hs.bind here _ hdata)
        · exact .raise (.badOperand hop _) hs
      · simp only [hnone, hnone']
        exact .raise (.undefined ht) hs
  | unary hop hoperand =>
      simp only [eval]
      refine (ih.eval hoperand hs).andThen ?_
      intro v v' s s' hv hs
      rw [(C.token_like hop).1, hv.unary?_eq, hv.kindName_eq]
      split
      · rename_i hresult
        exact .ok (.data (Value.isCallable_of_unary? hresult)) hs
      · exact .raise (.badOperand hop _) hs
  | binary hl hop hr =>
      simp only [eval]
      refine (ih.eval hl hs).andThen ?_
      intro v v' s s' hv hs
      refine (ih.eval hr hs).andThen ?_
      intro w w' s s' hw hs
      rw [(C.token_like hop).1, Values.binary?_eq _ hv hw, hv.kindName_eq, hw.kindName_eq]
      split
      · rename_i hresult
        exact .ok (.data (Value.isCallable_of_binary? hresult)) hs
      · exact .raise (.badOperands hop _ _) hs
  | logical hl hop hr =>
      simp only [eval]
      refine (ih.eval hl hs).andThen ?_
      intro v v' s s' hv hs
      rw [(C.token_like hop).1, hv.truthy_eq]
      split
      · exact .ok hv hs
      · exact ih.eval hr hs
  | call hf hparen hargs =>
      simp only [eval]
      exact (ih.eval hf hs).andThen fun hf hs =>
        (ih.evalAll hargs hs).andThen fun hvs hs => ih.apply hf hvs hparen hs

theorem evalAll_step {es es' : List Expr} {here : LevelId} {s s' : Session}
    (hes : List.Forall₂ C.expr es es') (hs : C.Sessions s s') :
    C.Outcomes C.Faults (List.Forall₂ C.Values) (evalAll (n + 1) es here s)
      (evalAll (n + 1) es' here s') := by
  cases hes with
  | nil =>
      simp only [evalAll]
      exact .ok .nil hs
  | cons he hes =>
      simp only [evalAll]
      exact (ih.eval he hs).andThen fun hv hs =>
        (ih.evalAll hes hs).andThen fun hvs hs => .ok (.cons hv hvs) hs

theorem apply_step {f f' : Value} {vs vs' : List Value} {paren paren' : Token} {s s' : Session}
    (hf : C.Values f f') (hvs : List.Forall₂ C.Values vs vs') (hparen : C.token paren paren')
    (hs : C.Sessions s s') :
    C.Outcomes C.Faults C.Values (apply (n + 1) f vs paren s) (apply (n + 1) f' vs' paren' s') := by
  cases hf with
  | function hparams hb =>
      simp only [apply, hparams.length_eq, hvs.length_eq]
      split
      · exact ih.callFunction hparams hb hvs hparen hs
      · exact .raise (.wrongArity hparen _ _) hs
  | native hf =>
      simp only [apply, hvs.length_eq]
      split
      · -- What the function does is the same on both sides, because it does not
        -- go by what is inside its arguments.
        rw [hf.outside _ _ (Values.outside_all_eq hvs)]
        have hcall := ih.callNative (hf.script (vs'.map Value.shown)) hvs hs
        generalize callNative n _ vs s = o at hcall ⊢
        generalize callNative n _ vs' s' = o' at hcall ⊢
        cases hcall with
        | ok hv hs => exact .ok hv hs
        | starved => exact .starved
        | fault he hs =>
            -- A fault of a running program goes on as it is. Any other is told
            -- by its message, which is the same on both sides.
            cases he with
            | runtime he => exact .raise he hs
            | lexical e => exact .raise (.nativeFailed hparen _ _) hs
            | grammar e => exact .raise (.nativeFailed hparen _ _) hs
            | plain m => exact .raise (.nativeFailed hparen _ _) hs
      · exact .raise (.wrongArity hparen _ _) hs
  | _ =>
      simp only [apply]
      exact .raise (.uncallable hparen _) hs

theorem callFunction_step {name : Text} {params params' : List Token} {b b' : List Stmt}
    {home : LevelId} {stamp : Nat} {vs vs' : List Value} {paren paren' : Token} {s s' : Session}
    (hparams : List.Forall₂ C.token params params') (hb : C.body b b')
    (hvs : List.Forall₂ C.Values vs vs') (hparen : C.token paren paren') (hs : C.Sessions s s') :
    C.Outcomes C.Faults C.Values
      (callFunction (n + 1) ⟨name, params, b, home, stamp⟩ vs paren s)
      (callFunction (n + 1) ⟨name, params', b', home, stamp⟩ vs' paren' s') := by
  rcases hs.store.openLevel (some home) with ⟨hlevel, hstore⟩
  simp only [callFunction, hlevel]
  refine finishCall_step (ih.execAll hb ?_)
  refine Sessions.enter (Sessions.bindAll ?_ _ hparams hvs) name (C.token_like hparen).2.2
  exact { hs with store := hstore }

theorem callNative_step {script : Script} {held held' : List Value} {s s' : Session}
    (hscript : script.Discreet) (hheld : List.Forall₂ C.Values held held') (hs : C.Sessions s s') :
    C.Outcomes C.AnyFaults C.Values (callNative (n + 1) script held s)
      (callNative (n + 1) script held' s') := by
  cases script with
  | give v =>
      simp only [callNative]
      exact .ok (Values.among hheld v) hs
  | fail e =>
      simp only [callNative]
      exact .fault (Faults.any e) hs
  | ask q next =>
      rcases hs.reply q hheld with ⟨hanswer, hshown, hsession⟩
      simp only [callNative, hscript.1 _ _ hanswer]
      exact ih.callNative (hscript.2 _) (List.rel_append hheld hshown) hsession
  | wrap name arity action next =>
      rcases hscript with ⟨houtside, haction, hnext⟩
      simp only [callNative, hs.stamp.1]
      exact ih.callNative hnext (List.rel_append hheld (.cons (.native ⟨houtside, haction⟩) .nil))
        hs.stamp.2
  | run work next =>
      cases work with
      | source t =>
          simp only [callNative]
          refine (ih.runSource hs).either (ih.callNative hscript.1 hheld) fun he hs => ?_
          simp only [hscript.2]
          exact fail_step he hs n
      | program p =>
          simp only [callNative]
          refine (ih.interpret (C.body_refl p) hs).either (ih.callNative hscript.1 hheld)
            fun he hs => ?_
          simp only [Option.map_some, hscript.2]
          exact fail_step (.runtime he) hs n

theorem exec_step {st st' : Stmt} {here : LevelId} {s s' : Session} (hst : C.stmt st st')
    (hs : C.Sessions s s') :
    C.Outcomes C.Faults C.Signals (exec (n + 1) st here s) (exec (n + 1) st' here s') := by
  cases C.stmt_cases hst with
  | function hname hparams hb =>
      simp only [exec]
      exact .ok .normal (hs.declare here hname hparams hb)
  | giveBackNothing hk =>
      simp only [exec]
      exact .ok (.giveBack .null hk) hs
  | giveBack hk hvalue =>
      simp only [exec]
      exact (ih.eval hvalue hs).andThen fun hv hs => .ok (.giveBack hv hk) hs
  | delete htargets =>
      simp only [exec]
      exact deleteAll_step htargets hs
  | loop hcondition hb =>
      simp only [exec]
      exact ih.execLoop hcondition hb hs
  | branch hcondition hb =>
      simp only [exec]
      refine (ih.eval hcondition hs).andThen ?_
      intro v v' s s' hv hs
      rw [hv.truthy_eq]
      split
      · exact ih.execAll hb hs
      · exact .ok .normal hs
  | branchElse hcondition hb hc =>
      simp only [exec]
      refine (ih.eval hcondition hs).andThen ?_
      intro v v' s s' hv hs
      rw [hv.truthy_eq]
      split
      · exact ih.execAll hb hs
      · exact ih.execAll hc hs
  | expression hvalue =>
      simp only [exec]
      exact (ih.eval hvalue hs).andThen fun _ hs => .ok .normal hs
  | echo hvalue =>
      simp only [exec]
      refine (ih.eval hvalue hs).andThen ?_
      intro v v' s s' hv hs
      rw [hv.text_eq]
      exact .ok .normal (hs.echo _)
  | leave hk =>
      simp only [exec]
      exact .ok (.leave hk) hs
  | next hk =>
      simp only [exec]
      exact .ok (.next hk) hs

theorem execAll_step {b b' : List Stmt} {here : LevelId} {s s' : Session} (hb : C.body b b')
    (hs : C.Sessions s s') :
    C.Outcomes C.Faults C.Signals (execAll (n + 1) b here s) (execAll (n + 1) b' here s') := by
  cases C.body_cases hb with
  | nil =>
      simp only [execAll]
      exact .ok .normal hs
  | @cons st st' rest rest' hst hrest =>
      simp only [execAll]
      have hfirst : C.Outcomes C.Faults C.Signals (exec n st here s) (exec n st' here s') :=
        ih.exec hst hs
      -- The rest is looked at only if the first statement ended normally.
      have hnormal : ∀ t, exec n st here s = .ok .normal t → C.body rest rest' := by
        intro t ht
        rcases hrest with hrest | hdiverts
        · exact hrest
        · exact absurd ht (hdiverts n here s t)
      generalize exec n st here s = o at hfirst hnormal ⊢
      generalize exec n st' here s' = o' at hfirst ⊢
      cases hfirst with
      | starved => exact .starved
      | fault he hs => exact .fault he hs
      | ok hsignal hs =>
          cases hsignal with
          | normal => exact ih.execAll (hnormal _ rfl) hs
          | giveBack hv hk => exact .ok (.giveBack hv hk) hs
          | leave hk => exact .ok (.leave hk) hs
          | next hk => exact .ok (.next hk) hs

theorem execLoop_step {e e' : Expr} {b b' : List Stmt} {here : LevelId} {s s' : Session}
    (he : C.expr e e') (hb : C.body b b') (hs : C.Sessions s s') :
    C.Outcomes C.Faults C.Signals (execLoop (n + 1) e b here s)
      (execLoop (n + 1) e' b' here s') := by
  simp only [execLoop]
  refine (ih.eval he hs).andThen ?_
  intro v v' s s' hv hs
  rw [hv.truthy_eq]
  split
  · refine (ih.execAll hb hs).andThen ?_
    intro signal signal' s s' hsignal hs
    cases hsignal with
    | normal => exact ih.execLoop he hb hs
    | giveBack hv hk => exact .ok (.giveBack hv hk) hs
    | leave hk => exact .ok .normal hs
    | next hk => exact ih.execLoop he hb hs
  · exact .ok .normal hs

theorem interpret_step {b b' : List Stmt} {s s' : Session} (hb : C.body b b')
    (hs : C.Sessions s s') :
    C.Outcomes C.Faults (fun _ _ => True) (interpret (n + 1) b s) (interpret (n + 1) b' s') := by
  have hfresh : C.Sessions { s with calls := [] } { s' with calls := [] } :=
    { hs with calls := .nil }
  simp only [interpret]
  refine (ih.execAll hb hfresh).andThen ?_
  intro signal signal' s s' hsignal hs
  cases hsignal with
  | normal => exact .ok trivial hs
  | giveBack hv hk => exact .ok trivial hs
  | leave hk => exact .raise (.strayControl hk) hs
  | next hk => exact .raise (.strayControl hk) hs

theorem runSource_step {source : Text} {s s' : Session} (hs : C.Sessions s s') :
    C.Outcomes C.AnyFaults (fun _ _ => True) (runSource (n + 1) source s)
      (runSource (n + 1) source s') := by
  simp only [runSource]
  cases Token.scan source with
  | error e => exact .fault (.lexical e) hs.begin
  | ok tokens =>
      have hkept := hs.begin.keepRemarks (parse tokens).remarks
      dsimp only
      cases (parse tokens).outcome with
      | error e => exact .fault (.grammar e) hkept
      | ok program =>
          have hrun := ih.interpret (C.body_refl program)
            (hkept.note (.parsed tokens.length program.length)
              (.parsed tokens.length program.length))
          dsimp only
          generalize interpret n program _ = o at hrun ⊢
          generalize interpret n program _ = o' at hrun ⊢
          cases hrun with
          | ok _ hs => exact .ok trivial (hs.conclude true)
          | fault he hs => exact .fault (.runtime (he.located source)) (hs.conclude false)
          | starved => exact .starved

theorem lockStep_succ : C.LockStep (n + 1) where
  eval := eval_step ih
  evalAll := evalAll_step ih
  apply := apply_step ih
  callFunction := callFunction_step ih
  callNative := callNative_step ih
  exec := exec_step ih
  execAll := execAll_step ih
  execLoop := execLoop_step ih
  interpret := interpret_step ih
  runSource := runSource_step ih

end

/-- Corresponding programs run in step, whatever the counter. -/
theorem lockStep (n : Nat) : C.LockStep n := by
  induction n with
  | zero => exact lockStep_zero
  | succ n ih => exact lockStep_succ ih

end Correspondence

end PocketScript
