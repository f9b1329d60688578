import PocketScript.Proofs.Evaluation.Steady
import PocketScript.Proofs.Program.Sugar

/-!
# Sugar means what replaces it

A program and the same program without sugar run alike: the same output, the same
outermost bindings up to sugar in the bodies of functions, and both end, both
fail for the same reason, or neither ends.

The two do not run in step. Sugar takes fewer steps than what replaces it, and
parentheses take more than nothing, so there is no telling which of the two uses
up its counter first. What can be said is that once one of them has come to an
end, with whatever counter, the other comes to a related end as soon as its
counter is large enough. The relation between programs has no direction, so this
is all there is to show: whichever of the two ends, the other one ends alike.

The induction is on the counter of the run that has ended. The other counter is
not mentioned, and `Follows` says what it says for all large counters at once.

Faults are not the same on both sides. An operator inside a compound assignment
is reported under another token, and a step reports one operand where a sum
reports two. So faults are compared by cause and name and by the functions that
were being carried out.

## Main definitions

* `sugaring`: What is alike up to sugar.
* `RuntimeFault.Akin`: Faults for the same reason.
* `Outcome.Follows`: A run with any large counter comes to an end like another.
* `Trails`: Everything follows what ended with a given counter.
* `Session.Matches`: Sessions with the same output and, up to sugar, the same
  outermost bindings.
* `SameCourse`: Runs that end alike, or do not end.

## Theorems

* `Value.binary?_plain`, `Value.step?_eq_binary?`: Sugar computes what replaces
  it computes.
* `Outcome.Follows.andThen`: Following part by part.
* `trails`: Everything follows.
* `desugaredAll_runs_alike`: Sugar means what replaces it.
-/

namespace PocketScript

/-- Alike up to sugar: tokens are the same, and one body is the other without
    sugar or they are the same. -/
def sugaring : Likeness where
  exact := True
  token := Eq
  body := Sweet Stmt.desugaredAll
  token_refl _ := rfl
  body_refl := .refl
  token_like := Token.like_of_eq

/-- The functions that a fault has recorded, innermost first. -/
def RuntimeFault.functions (e : RuntimeFault) : Option (List Text) :=
  e.frames.map (List.map Frame.function)

/-- Faults for the same reason, in the same functions. -/
structure RuntimeFault.Akin (e e' : RuntimeFault) : Prop where
  cause : e.cause = e'.cause
  name : e.name = e'.name
  functions : e.functions = e'.functions

/-- The same for faults of any stage. -/
inductive Fault.Akin : Fault → Fault → Prop where
  | same (e : Fault) : Akin e e
  | runtime {e e' : RuntimeFault} : e.Akin e' → Akin (.runtime e) (.runtime e')

namespace RuntimeFault.Akin

variable {e e' : RuntimeFault}

theorem refl (e : RuntimeFault) : e.Akin e := ⟨rfl, rfl, rfl⟩

theorem map_function_framesAt (pos : Position) (calls : List Frame) :
    (framesAt pos calls).map Frame.function = calls.map Frame.function ++ [scriptName] := by
  induction calls generalizing pos with
  | nil => rfl
  | cons call calls ih => exact congrArg (List.cons call.function) (ih call.pos)

/-- Faults that start to travel record the same functions. -/
theorem attach (h : e.Akin e') {calls calls' : List Frame}
    (hcalls : List.Forall₂ sugaring.Frames calls calls') :
    (e.attach calls).Akin (e'.attach calls') := by
  have hsame : calls.map Frame.function = calls'.map Frame.function := by
    rw [← List.forall₂_eq_eq_eq, List.forall₂_map_left_iff, List.forall₂_map_right_iff]
    exact hcalls.imp fun _ _ hcall => hcall.1
  have hfunctions := h.functions
  rw [RuntimeFault.functions, RuntimeFault.functions] at hfunctions
  rw [RuntimeFault.attach, RuntimeFault.attach]
  -- Either both have recorded their calls before or neither has.
  cases hframes : e.frames with
  | some frames =>
      cases hframes' : e'.frames with
      | some frames' => exact h
      | none =>
          rw [hframes, hframes'] at hfunctions
          cases hfunctions
  | none =>
      cases hframes' : e'.frames with
      | some frames' =>
          rw [hframes, hframes'] at hfunctions
          cases hfunctions
      | none =>
          refine ⟨h.cause, h.name, ?_⟩
          simp only [RuntimeFault.functions, Option.map_some, map_function_framesAt, hsame]

theorem located (h : e.Akin e') (source : Text) : (e.located source).Akin (e'.located source) := by
  have hlocated : ∀ f : RuntimeFault, f.Akin (f.located source) := by
    intro f
    rw [RuntimeFault.located]
    split
    · exact ⟨rfl, rfl, rfl⟩
    · exact .refl f
  have hleft := hlocated e
  have hright := hlocated e'
  exact ⟨hleft.cause.symm.trans (h.cause.trans hright.cause),
    hleft.name.symm.trans (h.name.trans hright.name),
    hleft.functions.symm.trans (h.functions.trans hright.functions)⟩

end RuntimeFault.Akin

namespace Value

/-- A compound assignment computes what its plain operator computes. -/
theorem binary?_plain (operator : Token) (v w : Value) :
    (operator.kind.underlying?.bind fun op => binary? op v w) =
      binary? operator.plain.kind v w := by
  have hnone : binary? .endOfInput v w = none := by
    cases v <;> cases w <;> rfl
  rw [Kind.underlying?_eq, Token.plain, Token.operatorAt]
  by_cases hplain : operator.kind.plain = .endOfInput
  · rw [if_pos hplain, hplain, hnone]
    rfl
  · rw [if_neg hplain]
    rfl

/-- A step computes a sum. -/
theorem step?_eq_binary? (op : Kind) (v : Value) :
    v.step? op = binary? .plus v (.number (if op = .decrement then -1 else 1)) := by
  cases v <;> rfl

end Value

namespace Outcome

variable {ε α β : Type} {E : ε → ε → Prop} {R : α → α → Prop} {Q : β → β → Prop}

theorem andThen_ok (a : α) (s : Session) (f : α → Session → Outcome ε β) :
    (ok a s).andThen f = f a s := rfl

theorem andThen_assoc {γ : Type} (o : Outcome ε α) (f : α → Session → Outcome ε β)
    (g : β → Session → Outcome ε γ) :
    (o.andThen f).andThen g = o.andThen fun a s => (f a s).andThen g := by
  cases o <;> rfl

/-- The run comes to an end like the outcome as soon as its counter is large
    enough, if the outcome is an end. -/
def Follows (E : ε → ε → Prop) (R : α → α → Prop) (o : Outcome ε α) (run : Nat → Outcome ε α) :
    Prop :=
  o = .starved ∨ ∃ o' bound, sugaring.Outcomes E R o o' ∧ ∀ n, bound ≤ n → run n = o'

namespace Follows

theorem starved {run : Nat → Outcome ε α} : Follows E R .starved run := Or.inl rfl

theorem ends {o o' : Outcome ε α} (h : sugaring.Outcomes E R o o') :
    Follows E R o fun _ => o' := Or.inr ⟨o', 0, h, fun _ _ => rfl⟩

theorem ok {a a' : α} {s s' : Session} (ha : R a a') (hs : sugaring.Sessions s s') :
    Follows E R (.ok a s) fun _ => .ok a' s' := ends (.ok ha hs)

theorem raise {e e' : RuntimeFault} {s s' : Session} {R : α → α → Prop} (he : e.Akin e')
    (hs : sugaring.Sessions s s') :
    Follows RuntimeFault.Akin R (s.raise e) fun _ => s'.raise e' :=
  ends (.fault (he.attach hs.calls) hs)

/-- The first counters do not matter. -/
theorem step {o : Outcome ε α} {run : Nat → Outcome ε α}
    (h : Follows E R o fun n => run (n + 1)) : Follows E R o run := by
  rcases h with h | ⟨o', bound, ho, hrun⟩
  · exact Or.inl h
  · refine Or.inr ⟨o', bound + 1, ho, fun n hn => ?_⟩
    have hn' : run (n - 1 + 1) = o' := hrun (n - 1) (by omega)
    rwa [show n - 1 + 1 = n by omega] at hn'

theorem later {o : Outcome ε α} {run : Nat → Outcome ε α} (h : Follows E R o run) :
    Follows E R o fun n => run (n + 1) := by
  rcases h with h | ⟨o', bound, ho, hrun⟩
  · exact Or.inl h
  · exact Or.inr ⟨o', bound, ho, fun n hn => hrun (n + 1) (by omega)⟩

/-- Following part by part. -/
theorem andThen {o : Outcome ε α} {run : Nat → Outcome ε α} {f : α → Session → Outcome ε β}
    {g : Nat → α → Session → Outcome ε β} (h : Follows E R o run)
    (hf : ∀ {a a' s s'}, R a a' → sugaring.Sessions s s' →
      Follows E Q (f a s) fun n => g n a' s') :
    Follows E Q (o.andThen f) fun n => (run n).andThen (g n) := by
  rcases h with rfl | ⟨o', bound, ho, hrun⟩
  · exact Or.inl rfl
  · cases ho with
    | starved => exact Or.inl rfl
    | fault he hs =>
        refine Or.inr ⟨_, bound, .fault he hs, fun n hn => ?_⟩
        dsimp only
        rw [hrun n hn]
        rfl
    | ok ha hs =>
        rcases hf ha hs with hstarved | ⟨o'', bound', ho'', hrest⟩
        · exact Or.inl hstarved
        · -- From the larger of the two bounds on both parts have ended.
          refine Or.inr ⟨o'', max bound bound', ho'', fun n hn => ?_⟩
          dsimp only
          rw [hrun n (by omega)]
          exact hrest n (by omega)

/-- Following on after a fault too. -/
theorem either {ε' : Type} {E' : ε' → ε' → Prop} {o : Outcome ε Unit}
    {run : Nat → Outcome ε Unit} {f : Option ε → Session → Outcome ε' β}
    {g : Nat → Option ε → Session → Outcome ε' β} (h : Follows E (fun _ _ => True) o run)
    (hok : ∀ {s s'}, sugaring.Sessions s s' → Follows E' Q (f none s) fun n => g n none s')
    (hfault : ∀ {e e' s s'}, E e e' → sugaring.Sessions s s' →
      Follows E' Q (f (some e) s) fun n => g n (some e') s') :
    Follows E' Q (o.either f) fun n => (run n).either (g n) := by
  rcases h with rfl | ⟨o', bound, ho, hrun⟩
  · exact Or.inl rfl
  -- Whatever has come of the first part, the run goes on from there.
  have hrest : ∀ {q : Outcome ε' β} {rest : Nat → Outcome ε' β}, Follows E' Q q rest →
      (∀ n, run n = o' → (run n).either (g n) = rest n) →
      Follows E' Q q fun n => (run n).either (g n) := by
    rintro q rest (hstarved | ⟨q', bound', hq, hends⟩) heq
    · exact Or.inl hstarved
    · refine Or.inr ⟨q', max bound bound', hq, fun n hn => ?_⟩
      exact (heq n (hrun n (by omega))).trans (hends n (by omega))
  cases ho with
  | starved => exact Or.inl rfl
  | ok _ hs => exact hrest (hok hs) fun n hn => by rw [hn]; rfl
  | fault he hs => exact hrest (hfault he hs) fun n hn => by rw [hn]; rfl

/-- Following what depends on how another run ended. -/
theorem settle {ε' : Type} {E' : ε' → ε' → Prop} {o : Outcome ε α} {run : Nat → Outcome ε α}
    {q : Outcome ε' β} {run' : Nat → Outcome ε' β} (h : Follows E R o run)
    (hstarved : o = .starved → q = .starved)
    (hends : ∀ o', sugaring.Outcomes E R o o' →
      ∃ q', sugaring.Outcomes E' Q q q' ∧ ∀ n, run n = o' → run' n = q') :
    Follows E' Q q run' := by
  rcases h with h | ⟨o', bound, ho, hrun⟩
  · exact Or.inl (hstarved h)
  · rcases hends o' ho with ⟨q', hq, hrun'⟩
    exact Or.inr ⟨q', bound, hq, fun n hn => hrun' n (hrun n hn)⟩

/-- What a larger counter gives and a smaller one gives too. -/
theorem of_keeps {o o' : Outcome ε α} {run : Nat → Outcome ε α} (h : Follows E R o' run)
    (hkeeps : o.Keeps o') : Follows E R o run := by
  rcases hkeeps with hstarved | rfl
  · exact Or.inl hstarved
  · exact h

end Follows

end Outcome

open Outcome Likeness

/-- Everything follows what came to an end with counter `n`. -/
structure Trails (n : Nat) : Prop where
  eval : ∀ {e e' here s s'}, Sweet Expr.desugared e e' → sugaring.Sessions s s' →
    Follows RuntimeFault.Akin sugaring.Values (eval n e here s) fun m => eval m e' here s'
  evalAll : ∀ {es es' here s s'}, List.Forall₂ (Sweet Expr.desugared) es es' →
    sugaring.Sessions s s' → Follows RuntimeFault.Akin (List.Forall₂ sugaring.Values)
      (evalAll n es here s) fun m => evalAll m es' here s'
  apply : ∀ {f f' vs vs' paren s s'}, sugaring.Values f f' →
    List.Forall₂ sugaring.Values vs vs' → sugaring.Sessions s s' →
    Follows RuntimeFault.Akin sugaring.Values (apply n f vs paren s)
      fun m => apply m f' vs' paren s'
  callFunction : ∀ {name params b b' home stamp vs vs' paren s s'},
    Sweet Stmt.desugaredAll b b' → List.Forall₂ sugaring.Values vs vs' →
    sugaring.Sessions s s' → Follows RuntimeFault.Akin sugaring.Values
      (callFunction n ⟨name, params, b, home, stamp⟩ vs paren s)
      fun m => callFunction m ⟨name, params, b', home, stamp⟩ vs' paren s'
  callNative : ∀ {script held held' s s'}, script.Discreet →
    List.Forall₂ sugaring.Values held held' → sugaring.Sessions s s' →
    Follows Fault.Akin sugaring.Values (callNative n script held s)
      fun m => callNative m script held' s'
  exec : ∀ {st st' here s s'}, Sweet Stmt.desugared st st' → sugaring.Sessions s s' →
    Follows RuntimeFault.Akin sugaring.Signals (exec n st here s) fun m => exec m st' here s'
  execAll : ∀ {b b' here s s'}, Sweet Stmt.desugaredAll b b' → sugaring.Sessions s s' →
    Follows RuntimeFault.Akin sugaring.Signals (execAll n b here s) fun m => execAll m b' here s'
  execLoop : ∀ {e e' b b' here s s'}, Sweet Expr.desugared e e' → Sweet Stmt.desugaredAll b b' →
    sugaring.Sessions s s' → Follows RuntimeFault.Akin sugaring.Signals (execLoop n e b here s)
      fun m => execLoop m e' b' here s'
  interpret : ∀ {p p' s s'}, Sweet Stmt.desugaredAll p p' → sugaring.Sessions s s' →
    Follows RuntimeFault.Akin (fun _ _ => True) (interpret n p s) fun m => interpret m p' s'
  runSource : ∀ {source s s'}, sugaring.Sessions s s' →
    Follows Fault.Akin (fun _ _ => True) (runSource n source s) fun m => runSource m source s'

theorem trails_zero : Trails 0 := by
  constructor
  all_goals
    intros
    simp only [eval, evalAll, apply, callFunction, callNative, exec, execAll, execLoop, interpret,
      runSource]
    exact .starved

/-- A name has related values on both sides, or none on either. -/
theorem name_cases {s s' : Session} (hs : sugaring.Sessions s s') (here : LevelId) (name : Token) :
    (∃ v v', s.store.get here name = .ok v ∧ s'.store.get here name = .ok v' ∧
      sugaring.Values v v') ∨ (s.store.get here name = .error (.undefined name) ∧
        s'.store.get here name = .error (.undefined name)) :=
  get_cases hs.store here (rfl : sugaring.token name name)

/-- An operator gives the same result on both sides, or none on either. -/
theorem result_trail (result : Option Value) {t t' : Session} {e e' : RuntimeFault}
    {f : Value → Session → Session} (ht : sugaring.Sessions t t') (he : e.Akin e')
    (hf : ∀ {v}, sugaring.Values v v → sugaring.Sessions (f v t) (f v t')) :
    (∀ {v}, result = some v → v.isCallable = false) →
    Follows RuntimeFault.Akin sugaring.Values
      (match result with
        | some v => .ok v (f v t)
        | none => t.raise e)
      fun _ => match result with
        | some v => .ok v (f v t')
        | none => t'.raise e' := by
  intro hdata
  cases result with
  | none => exact .raise he ht
  | some v => exact .ok (.data (hdata rfl)) (hf (.data (hdata rfl)))

theorem deleteAll_trail (here : LevelId) (targets : List Token) {s s' : Session}
    (hs : sugaring.Sessions s s') :
    Follows RuntimeFault.Akin sugaring.Signals (deleteAll here targets s)
      fun _ => deleteAll here targets s' := by
  induction targets generalizing s s' with
  | nil => exact .ok .normal hs
  | cons name targets ih =>
      have hremove := hs.store.remove here name.lexeme
      simp only [deleteAll, Store.delete]
      generalize s.store.remove here name.lexeme = r at hremove ⊢
      generalize s'.store.remove here name.lexeme = r' at hremove ⊢
      cases hremove with
      | none => exact .raise (.refl _) hs
      | some hstore => exact ih { hs with store := hstore }

theorem finishCall_trail {o : Outcome RuntimeFault Signal} {run : Nat → Outcome RuntimeFault Signal}
    (h : Follows RuntimeFault.Akin sugaring.Signals o run) :
    Follows RuntimeFault.Akin sugaring.Values (finishCall o) fun m => finishCall (run m) := by
  refine h.settle (congrArg finishCall) fun o' ho => ⟨_, ?_, fun n => congrArg finishCall⟩
  cases ho with
  | starved => exact .starved
  | fault he hs => exact .fault he hs.leave
  | ok hsignal hs =>
      cases hsignal with
      | normal => exact .ok .null hs.leave
      | giveBack hv _ => exact .ok hv hs.leave
      | leave hk => exact hk ▸ .fault ((RuntimeFault.Akin.refl _).attach hs.calls) hs.leave
      | next hk => exact hk ▸ .fault ((RuntimeFault.Akin.refl _).attach hs.calls) hs.leave

/-- A native function that fails as another one does fails alike. -/
theorem fail_trail (n : Nat) {e e' : Fault} {held held' : List Value} {s s' : Session}
    (he : e.Akin e') (hs : sugaring.Sessions s s') :
    Follows Fault.Akin sugaring.Values (callNative n (.fail e) held s)
      fun m => callNative m (.fail e') held' s' := by
  cases n with
  | zero =>
      simp only [callNative]
      exact .starved
  | succ n =>
      apply Follows.step
      simp only [callNative]
      exact .ends (.fault he hs)

section

variable {n : Nat} (ih : Trails n) {here : LevelId} {s s' : Session}
  (hs : sugaring.Sessions s s')
include ih hs

/-- Expressions of one form. -/
theorem exprCases_trail {e e' : Expr} (h : ExprCases Eq (Sweet Expr.desugared) e e') :
    Follows RuntimeFault.Akin sugaring.Values (eval (n + 1) e here s)
      fun m => eval m e' here s' := by
  apply Follows.step
  cases h with
  | constant v p p' =>
      simp only [eval]
      exact .ok (.data (Value.isCallable_ofLiteral v)) hs
  | grouping hinner =>
      simp only [eval]
      exact ih.eval hinner hs
  | @reference name _ hname =>
      subst hname
      simp only [eval]
      rcases name_cases hs here name with ⟨v, v', hv, hv', hvalues⟩ | ⟨hnone, hnone'⟩
      · simp only [hv, hv']
        exact .ok hvalues hs
      · simp only [hnone, hnone']
        exact .raise (.refl _) hs
  | assign hname hvalue =>
      subst hname
      simp only [eval]
      exact (ih.eval hvalue hs).andThen fun hv hs => .ok hv (hs.bind here _ hv)
  | @augmented name _ operator _ value value' hname hoperator hvalue =>
      subst hname hoperator
      simp only [eval]
      rcases name_cases hs here name with ⟨v, v', hv, hv', hvalues⟩ | ⟨hnone, hnone'⟩
      · simp only [hv, hv']
        refine (ih.eval hvalue hs).andThen fun {w w' t t'} hw ht => ?_
        simp only [Value.binary?_plain, Values.binary?_eq _ hvalues hw, hvalues.kindName_eq,
          hw.kindName_eq]
        exact result_trail _ ht (.refl _) (ht.bind here _) Value.isCallable_of_binary?
      · simp only [hnone, hnone']
        exact .raise (.refl _) hs
  | @step operator _ name _ hoperator hname =>
      subst hname hoperator
      simp only [eval]
      rcases name_cases hs here name with ⟨v, v', hv, hv', hvalues⟩ | ⟨hnone, hnone'⟩
      · simp only [hv, hv', hvalues.step?_eq, hvalues.kindName_eq]
        exact result_trail _ hs (.refl _) (hs.bind here _) Value.isCallable_of_step?
      · simp only [hnone, hnone']
        exact .raise (.refl _) hs
  | unary hoperator hoperand =>
      subst hoperator
      simp only [eval]
      refine (ih.eval hoperand hs).andThen fun {v v' t t'} hv ht => ?_
      simp only [hv.unary?_eq, hv.kindName_eq]
      exact result_trail (f := fun _ t => t) _ ht (.refl _) (fun _ => ht)
        Value.isCallable_of_unary?
  | binary hleft hoperator hright =>
      subst hoperator
      simp only [eval]
      refine (ih.eval hleft hs).andThen fun {v v' t t'} hv ht => ?_
      refine (ih.eval hright ht).andThen fun {w w' u u'} hw hu => ?_
      simp only [Values.binary?_eq _ hv hw, hv.kindName_eq, hw.kindName_eq]
      exact result_trail (f := fun _ t => t) _ hu (.refl _) (fun _ => hu)
        Value.isCallable_of_binary?
  | logical hleft hoperator hright =>
      subst hoperator
      simp only [eval]
      refine (ih.eval hleft hs).andThen fun {v v' t t'} hv ht => ?_
      rw [hv.truthy_eq]
      split
      · exact .ok hv ht
      · exact ih.eval hright ht
  | call hcallee hparen hargs =>
      subst hparen
      simp only [eval]
      exact (ih.eval hcallee hs).andThen fun hf hs =>
        (ih.evalAll hargs hs).andThen fun hvs hs => ih.apply hf hvs hs

/-- The plain assignment follows a compound one. -/
theorem augmented_trail {name operator : Token} {value value' : Expr}
    (hvalue : Sweet Expr.desugared value value') :
    Follows RuntimeFault.Akin sugaring.Values (eval (n + 1) (.augmented name operator value) here s)
      fun m => eval m (.assign name (.binary (.reference name) operator.plain value')) here s' := by
  -- The assignment, the operator and the name take a step each.
  apply Follows.step
  apply Follows.step
  apply Follows.step
  simp only [eval]
  rcases name_cases hs here name with ⟨v, v', hv, hv', hvalues⟩ | ⟨hnone, hnone'⟩
  · simp only [hv, hv', andThen_ok, andThen_assoc]
    refine (ih.eval hvalue hs).later.andThen fun {w w' t t'} hw ht => ?_
    simp only [Value.binary?_plain, Values.binary?_eq _ hvalues hw]
    cases hresult : Value.binary? operator.plain.kind v' w' with
    | none => exact .raise ⟨rfl, rfl, rfl⟩ ht
    | some r =>
        have hr : sugaring.Values r r := .data (Value.isCallable_of_binary? hresult)
        exact .ok hr (ht.bind here _ hr)
  · simp only [hnone, hnone']
    exact .raise (.refl _) hs

/-- A compound assignment follows the plain one. -/
theorem plain_trail {name operator : Token} {value value' : Expr}
    (hvalue : Sweet Expr.desugared value value') :
    Follows RuntimeFault.Akin sugaring.Values
      (eval (n + 1) (.assign name (.binary (.reference name) operator.plain value)) here s)
      fun m => eval m (.augmented name operator value') here s' := by
  -- With less than three steps there is no end to follow.
  rcases n with _ | _ | n
  · simp only [eval]
    exact .starved
  · simp only [eval]
    exact .starved
  apply Follows.step
  simp only [eval]
  rcases name_cases hs here name with ⟨v, v', hv, hv', hvalues⟩ | ⟨hnone, hnone'⟩
  · simp only [hv, hv', andThen_ok, andThen_assoc]
    -- The value is evaluated one level further down than the hypothesis is about,
    -- and what it comes to there it comes to with a larger counter.
    have hsmaller := (steady (Nat.le_succ (n + 1))).eval value here s
    refine ((ih.eval hvalue hs).of_keeps hsmaller).andThen fun {w w' t t'} hw ht => ?_
    simp only [Value.binary?_plain, Values.binary?_eq _ hvalues hw]
    cases hresult : Value.binary? operator.plain.kind v' w' with
    | none => exact .raise ⟨rfl, rfl, rfl⟩ ht
    | some r =>
        have hr : sugaring.Values r r := .data (Value.isCallable_of_binary? hresult)
        exact .ok hr (ht.bind here _ hr)
  · simp only [hnone, hnone']
    exact .raise (.refl _) hs

omit ih in
/-- A step and the assignment that it stands for follow each other. -/
theorem step_trail (n : Nat) (operator name : Token) :
    Follows RuntimeFault.Akin sugaring.Values (eval (n + 1) (.step operator name) here s)
      fun m => eval m (.stepped operator name) here s' := by
  apply Follows.step
  apply Follows.step
  apply Follows.step
  simp only [Expr.stepped, eval]
  rcases name_cases hs here name with ⟨v, v', hv, hv', hvalues⟩ | ⟨hnone, hnone'⟩
  · simp only [hv, hv', andThen_ok, Value.step?_eq_binary?, Value.ofLiteral, Token.operatorAt,
      Values.binary?_eq _ hvalues (.number _)]
    cases hresult : Value.binary? .plus v'
        (.number (if operator.kind = .decrement then -1 else 1)) with
    | none => exact .raise ⟨rfl, rfl, rfl⟩ hs
    | some r =>
        have hr : sugaring.Values r r := .data (Value.isCallable_of_binary? hresult)
        exact .ok hr (hs.bind here _ hr)
  · simp only [hnone, hnone']
    exact .raise (.refl _) hs

omit ih in
theorem stepped_trail (n : Nat) (operator name : Token) :
    Follows RuntimeFault.Akin sugaring.Values (eval (n + 1) (.stepped operator name) here s)
      fun m => eval m (.step operator name) here s' := by
  rcases n with _ | _ | n
  · simp only [Expr.stepped, eval]
    exact .starved
  · simp only [Expr.stepped, eval]
    exact .starved
  apply Follows.step
  simp only [Expr.stepped, eval]
  rcases name_cases hs here name with ⟨v, v', hv, hv', hvalues⟩ | ⟨hnone, hnone'⟩
  · simp only [hv, hv', andThen_ok, Value.step?_eq_binary?, Value.ofLiteral, Token.operatorAt,
      Values.binary?_eq _ hvalues (.number _)]
    cases hresult : Value.binary? .plus v'
        (.number (if operator.kind = .decrement then -1 else 1)) with
    | none => exact .raise ⟨rfl, rfl, rfl⟩ hs
    | some r =>
        have hr : sugaring.Values r r := .data (Value.isCallable_of_binary? hresult)
        exact .ok hr (hs.bind here _ hr)
  · simp only [hnone, hnone']
    exact .raise (.refl _) hs

/-- Related expressions follow each other. Parentheses on the right cost the run on
    the left nothing, so they are taken off first. -/
theorem eval_trail {e e' : Expr} (he : Sweet Expr.desugared e e') :
    Follows RuntimeFault.Akin sugaring.Values (eval (n + 1) e here s)
      fun m => eval m e' here s' := by
  cases he.expr_cases with
  | alike hcases => exact exprCases_trail ih hs hcases
  | groupingLeft hinner =>
      simp only [eval]
      exact ih.eval hinner hs
  | groupingRight hinner =>
      apply Follows.step
      simp only [eval]
      exact eval_trail hinner
  | augmentedLeft hvalue => exact augmented_trail ih hs hvalue
  | augmentedRight hvalue => exact plain_trail ih hs hvalue
  | stepLeft operator name => exact step_trail hs n operator name
  | stepRight operator name => exact stepped_trail hs n operator name
termination_by sizeOf e'

theorem evalAll_trail {es es' : List Expr} (hes : List.Forall₂ (Sweet Expr.desugared) es es') :
    Follows RuntimeFault.Akin (List.Forall₂ sugaring.Values) (evalAll (n + 1) es here s)
      fun m => evalAll m es' here s' := by
  apply Follows.step
  cases hes with
  | nil =>
      simp only [evalAll]
      exact .ok .nil hs
  | cons he hes =>
      simp only [evalAll]
      exact (ih.eval he hs).andThen fun hv hs =>
        (ih.evalAll hes hs).andThen fun hvs hs => .ok (.cons hv hvs) hs

theorem apply_trail {f f' : Value} {vs vs' : List Value} {paren : Token}
    (hf : sugaring.Values f f') (hvs : List.Forall₂ sugaring.Values vs vs') :
    Follows RuntimeFault.Akin sugaring.Values (apply (n + 1) f vs paren s)
      fun m => apply m f' vs' paren s' := by
  apply Follows.step
  cases hf with
  | function hparams hb =>
      have hsame := List.forall₂_eq_eq_eq ▸ hparams
      subst hsame
      simp only [apply, hvs.length_eq]
      split
      · exact ih.callFunction hb hvs hs
      · exact .raise (.refl _) hs
  | @native f hf =>
      simp only [apply, hvs.length_eq]
      split
      · -- What the function does is the same on both sides, because it does not
        -- go by what is inside its arguments.
        rw [hf.outside _ _ (Values.outside_all_eq hvs)]
        refine (ih.callNative (hf.script (vs'.map Value.shown)) hvs hs).settle
          (fun h => by rw [h]) fun o' ho => ⟨_, ?_, fun m hm => by rw [hm]⟩
        generalize callNative n _ vs s = o at ho ⊢
        cases ho with
        | ok hv hs => exact .ok hv hs
        | starved => exact .starved
        | @fault e _ _ _ he hs =>
            -- A fault of a running program goes on as it is. Any other is told
            -- by its message, which is the same on both sides.
            cases he with
            | runtime he => exact .fault (he.attach hs.calls) hs
            | same =>
                cases e with
                | runtime e => exact .fault ((RuntimeFault.Akin.refl e).attach hs.calls) hs
                | _ => exact .fault ((RuntimeFault.Akin.refl _).attach hs.calls) hs
      · exact .raise (.refl _) hs
  | _ =>
      simp only [apply]
      exact .raise (.refl _) hs

theorem callFunction_trail {name : Text} {params : List Token} {b b' : List Stmt} {home : LevelId}
    {stamp : Nat} {vs vs' : List Value} {paren : Token} (hb : Sweet Stmt.desugaredAll b b')
    (hvs : List.Forall₂ sugaring.Values vs vs') :
    Follows RuntimeFault.Akin sugaring.Values
      (callFunction (n + 1) ⟨name, params, b, home, stamp⟩ vs paren s)
      fun m => callFunction m ⟨name, params, b', home, stamp⟩ vs' paren s' := by
  have hparams : List.Forall₂ sugaring.token params params :=
    List.forall₂_same.mpr fun t _ => sugaring.token_refl t
  rcases hs.store.openLevel (some home) with ⟨hlevel, hstore⟩
  apply Follows.step
  simp only [callFunction, hlevel]
  refine finishCall_trail (ih.execAll hb ?_)
  refine Sessions.enter (Sessions.bindAll ?_ _ hparams hvs) name fun _ => rfl
  exact { hs with store := hstore }

theorem callNative_trail {script : Script} {held held' : List Value} (hscript : script.Discreet)
    (hheld : List.Forall₂ sugaring.Values held held') :
    Follows Fault.Akin sugaring.Values (callNative (n + 1) script held s)
      fun m => callNative m script held' s' := by
  apply Follows.step
  cases script with
  | give v =>
      simp only [callNative]
      exact .ok (Values.among hheld v) hs
  | fail e =>
      simp only [callNative]
      exact .ends (.fault (.same e) hs)
  | ask q next =>
      rcases hs.reply q hheld with ⟨hanswer, hshown, hsession⟩
      simp only [callNative, hscript.1 _ _ hanswer]
      exact ih.callNative (hscript.2 _) (List.rel_append hheld hshown) hsession
  | wrap name arity action next =>
      rcases hscript with ⟨houtside, haction, hnext⟩
      have hmade : sugaring.Values (.native ⟨name, arity, action, s'.stamps⟩)
          (.native ⟨name, arity, action, s'.stamps⟩) := .native ⟨houtside, haction⟩
      simp only [callNative, hs.stamp.1]
      exact ih.callNative hnext (List.rel_append hheld (.cons hmade .nil)) hs.stamp.2
  | run work next =>
      cases work with
      | source t =>
          simp only [callNative]
          refine (ih.runSource hs).either (ih.callNative hscript.1 hheld)
            fun {e e' t t'} he ht => ?_
          simp only [hscript.2]
          exact fail_trail n he ht
      | program p =>
          simp only [callNative]
          refine (ih.interpret (.refl p) hs).either (ih.callNative hscript.1 hheld)
            fun {e e' t t'} he ht => ?_
          simp only [Option.map_some, hscript.2]
          exact fail_trail n (.runtime he) ht

theorem exec_trail {st st' : Stmt} (hst : Sweet Stmt.desugared st st') :
    Follows RuntimeFault.Akin sugaring.Signals (exec (n + 1) st here s)
      fun m => exec m st' here s' := by
  apply Follows.step
  cases hst.stmt_cases with
  | function hname hparams hb =>
      simp only [exec]
      exact .ok .normal (hs.declare here hname hparams hb)
  | giveBackNothing hk =>
      simp only [exec]
      exact .ok (.giveBack .null hk) hs
  | giveBack hk hvalue =>
      simp only [exec]
      exact (ih.eval hvalue hs).andThen fun hv hs => .ok (.giveBack hv hk) hs
  | @delete _ _ targets _ htargets =>
      have hsame := List.forall₂_eq_eq_eq ▸ htargets
      subst hsame
      simp only [exec]
      exact deleteAll_trail here targets hs
  | loop hcondition hb =>
      simp only [exec]
      exact ih.execLoop hcondition hb hs
  | branch hcondition hb =>
      simp only [exec]
      refine (ih.eval hcondition hs).andThen fun {v v' t t'} hv ht => ?_
      rw [hv.truthy_eq]
      split
      · exact ih.execAll hb ht
      · exact .ok .normal ht
  | branchElse hcondition hb hc =>
      simp only [exec]
      refine (ih.eval hcondition hs).andThen fun {v v' t t'} hv ht => ?_
      rw [hv.truthy_eq]
      split
      · exact ih.execAll hb ht
      · exact ih.execAll hc ht
  | expression hvalue =>
      simp only [exec]
      exact (ih.eval hvalue hs).andThen fun _ hs => .ok .normal hs
  | echo hvalue =>
      simp only [exec]
      refine (ih.eval hvalue hs).andThen fun {v v' t t'} hv ht => ?_
      rw [hv.text_eq]
      exact .ok .normal (ht.echo _)
  | leave hk =>
      simp only [exec]
      exact .ok (.leave hk) hs
  | next hk =>
      simp only [exec]
      exact .ok (.next hk) hs

theorem execAll_trail {b b' : List Stmt} (hb : Sweet Stmt.desugaredAll b b') :
    Follows RuntimeFault.Akin sugaring.Signals (execAll (n + 1) b here s)
      fun m => execAll m b' here s' := by
  apply Follows.step
  rcases hb.body_cases with ⟨rfl, rfl⟩ | ⟨st, rest, st', rest', rfl, rfl, hst, hrest⟩
  · simp only [execAll]
    exact .ok .normal hs
  · simp only [execAll]
    refine (ih.exec hst hs).andThen fun {signal signal' t t'} hsignal ht => ?_
    cases hsignal with
    | normal => exact ih.execAll hrest ht
    | giveBack hv hk => exact .ok (.giveBack hv hk) ht
    | leave hk => exact .ok (.leave hk) ht
    | next hk => exact .ok (.next hk) ht

theorem execLoop_trail {e e' : Expr} {b b' : List Stmt} (he : Sweet Expr.desugared e e')
    (hb : Sweet Stmt.desugaredAll b b') :
    Follows RuntimeFault.Akin sugaring.Signals (execLoop (n + 1) e b here s)
      fun m => execLoop m e' b' here s' := by
  apply Follows.step
  simp only [execLoop]
  refine (ih.eval he hs).andThen fun {v v' t t'} hv ht => ?_
  rw [hv.truthy_eq]
  split
  · refine (ih.execAll hb ht).andThen fun {signal signal' u u'} hsignal hu => ?_
    cases hsignal with
    | normal => exact ih.execLoop he hb hu
    | giveBack hv hk => exact .ok (.giveBack hv hk) hu
    | leave hk => exact .ok .normal hu
    | next hk => exact ih.execLoop he hb hu
  · exact .ok .normal ht

theorem interpret_trail {p p' : List Stmt} (hp : Sweet Stmt.desugaredAll p p') :
    Follows RuntimeFault.Akin (fun _ _ => True) (interpret (n + 1) p s)
      fun m => interpret m p' s' := by
  have hfresh : sugaring.Sessions { s with calls := [] } { s' with calls := [] } :=
    { hs with calls := .nil }
  apply Follows.step
  simp only [interpret]
  refine (ih.execAll hp hfresh).andThen fun {signal signal' t t'} hsignal ht => ?_
  cases hsignal with
  | normal => exact .ok trivial ht
  | giveBack hv hk => exact .ok trivial ht
  | leave hk => exact hk ▸ .raise (.refl _) ht
  | next hk => exact hk ▸ .raise (.refl _) ht

theorem runSource_trail {source : Text} :
    Follows Fault.Akin (fun _ _ => True) (runSource (n + 1) source s)
      fun m => runSource m source s' := by
  apply Follows.step
  simp only [runSource]
  cases Token.scan source with
  | error e => exact .ends (.fault (.same _) hs.begin)
  | ok tokens =>
      have hkept := hs.begin.keepRemarks (parse tokens).remarks
      dsimp only
      cases (parse tokens).outcome with
      | error e => exact .ends (.fault (.same _) hkept)
      | ok program =>
          have hnoted := hkept.note (.parsed tokens.length program.length)
            (.parsed tokens.length program.length)
          dsimp only
          refine (ih.interpret (.refl program) hnoted).settle (fun h => by rw [h]) fun o' ho =>
            ⟨_, ?_, fun m hm => by rw [hm]⟩
          generalize interpret n program _ = o at ho ⊢
          cases ho with
          | ok _ hs => exact .ok trivial (hs.conclude true)
          | fault he hs => exact .fault (.runtime (he.located source)) (hs.conclude false)
          | starved => exact .starved

omit hs in
theorem trails_succ : Trails (n + 1) where
  eval he hs := eval_trail ih hs he
  evalAll hes hs := evalAll_trail ih hs hes
  apply hf hvs hs := apply_trail ih hs hf hvs
  callFunction hb hvs hs := callFunction_trail ih hs hb hvs
  callNative hscript hheld hs := callNative_trail ih hs hscript hheld
  exec hst hs := exec_trail ih hs hst
  execAll hb hs := execAll_trail ih hs hb
  execLoop he hb hs := execLoop_trail ih hs he hb
  interpret hp hs := interpret_trail ih hs hp
  runSource hs := runSource_trail ih hs

end

/-- Everything follows what came to an end, with whatever counter. -/
theorem trails (n : Nat) : Trails n := by
  induction n with
  | zero => exact trails_zero
  | succ n ih => exact trails_succ ih

/-- The value without sugar in the body of a function. -/
def Value.desugared : Value → Value
  | .function f => .function { f with body := Stmt.desugaredAll f.body }
  | v => v

/-- The outermost bindings without sugar in the bodies of functions. -/
def Session.desugaredGlobals (s : Session) : Bindings :=
  s.globals.map fun entry => (entry.1, entry.2.desugared)

/-- Sessions that cannot be told apart by what was written and by what is bound
    outermost, up to sugar. -/
def Session.Matches (s s' : Session) : Prop :=
  s.output = s'.output ∧ s.desugaredGlobals = s'.desugaredGlobals

/-- Runs that end alike, or do not end. -/
inductive SameCourse (run run' : Nat → Outcome RuntimeFault Unit) : Prop where
  | endless : (∀ n, run n = .starved) → (∀ n, run' n = .starved) → SameCourse run run'
  | done {s s' : Session} (bound : Nat) : s.Matches s' →
      (∀ n, bound ≤ n → run n = .ok () s ∧ run' n = .ok () s') → SameCourse run run'
  | failed {e e' : RuntimeFault} {s s' : Session} (bound : Nat) : e.Akin e' → s.Matches s' →
      (∀ n, bound ≤ n → run n = .fault e s ∧ run' n = .fault e' s') → SameCourse run run'

theorem Likeness.Values.desugared_eq {v v' : Value} (h : sugaring.Values v v') :
    v.desugared = v'.desugared := by
  cases h with
  | function hparams hb =>
      have hsame := List.forall₂_eq_eq_eq ▸ hparams
      have hbody := Sweet.eq_of_idempotent Stmt.desugaredAll_desugaredAll hb
      simp only [Value.desugared, hsame, hbody]
  | _ => rfl

theorem Likeness.Sessions.matches {s s' : Session} (h : sugaring.Sessions s s') : s.Matches s' :=
  ⟨h.output_eq, h.map_globals_eq Values.desugared_eq⟩

/-- A run that has ended, and another that follows it, take the same course. -/
theorem sameCourse_of_follows {run run' : Nat → Outcome RuntimeFault Unit} {n : Nat}
    (hkeeps : ∀ m, n ≤ m → (run n).Keeps (run m)) (hended : run n ≠ .starved)
    (h : Follows RuntimeFault.Akin (fun _ _ => True) (run n) run') : SameCourse run run' := by
  rcases h with hstarved | ⟨o', bound, ho, hrun'⟩
  · exact absurd hstarved hended
  -- A larger counter changes nothing for the first run, and the second has a bound.
  have hrun : ∀ m, max n bound ≤ m → run m = run n ∧ run' m = o' := fun m hm =>
    ⟨(hkeeps m (by omega)).eq hended, hrun' m (by omega)⟩
  generalize run n = o at ho hended hrun
  cases ho with
  | starved => exact absurd rfl hended
  | ok _ hs => exact .done _ hs.matches hrun
  | fault he hs => exact .failed _ he hs.matches hrun

theorem SameCourse.symm {run run' : Nat → Outcome RuntimeFault Unit} (h : SameCourse run run') :
    SameCourse run' run := by
  cases h with
  | endless hrun hrun' => exact .endless hrun' hrun
  | done bound hs hends =>
      exact .done bound ⟨hs.1.symm, hs.2.symm⟩ fun n hn => (hends n hn).symm
  | failed bound he hs hends =>
      exact .failed bound ⟨he.cause.symm, he.name.symm, he.functions.symm⟩
        ⟨hs.1.symm, hs.2.symm⟩ fun n hn => (hends n hn).symm

/-- **Sugar means what replaces it.** From every session whose native functions do
    not look into functions, a program and the same program without sugar take the
    same course. -/
theorem desugaredAll_runs_alike (p : List Stmt) {s : Session} (hdiscreet : s.store.Discreet) :
    SameCourse (fun n => interpret n p s) fun n => interpret n (Stmt.desugaredAll p) s := by
  have hkeeps : ∀ (q : List Stmt) (n m : Nat), n ≤ m →
      (interpret n q s).Keeps (interpret m q s) := fun q n m hnm => (steady hnm).interpret q s
  have hs : sugaring.Sessions s s := .refl hdiscreet
  by_cases hended : ∃ n, interpret n p s ≠ .starved
  · rcases hended with ⟨n, hn⟩
    exact sameCourse_of_follows (hkeeps p n) hn ((trails n).interpret (.out p) hs)
  by_cases hended' : ∃ n, interpret n (Stmt.desugaredAll p) s ≠ .starved
  · -- The other way around, by the same lemma: the relation has no direction.
    rcases hended' with ⟨n, hn⟩
    exact (sameCourse_of_follows (hkeeps _ n) hn
      ((trails n).interpret (Sweet.out p).symm hs)).symm
  · exact .endless (fun n => not_not.mp fun hn => hended ⟨n, hn⟩)
      fun n => not_not.mp fun hn => hended' ⟨n, hn⟩

/-- The name of the parameter in `func f(x){x-=2;return ++x;}echo (f(5));`. -/
def sweetName (column : Int) : Token := ⟨.identifier, "x", none, ⟨1, column⟩⟩

/-- The name of the function. -/
def sweetFunction (column : Int) : Token := ⟨.identifier, "f", none, ⟨1, column⟩⟩

/-- The tokens, with the end of the input. -/
def sweetTokens : List Token :=
  [⟨.funcWord, "func", none, ⟨1, 1⟩⟩, sweetFunction 6, ⟨.leftParen, "(", none, ⟨1, 7⟩⟩,
    sweetName 8, ⟨.rightParen, ")", none, ⟨1, 9⟩⟩, ⟨.leftBrace, "\x7b", none, ⟨1, 10⟩⟩,
    sweetName 11, ⟨.minusAssign, "-=", none, ⟨1, 12⟩⟩, ⟨.number, "2", some (.number 2), ⟨1, 14⟩⟩,
    ⟨.semicolon, ";", none, ⟨1, 15⟩⟩, ⟨.returnWord, "return", none, ⟨1, 16⟩⟩,
    ⟨.increment, "++", none, ⟨1, 23⟩⟩, sweetName 25, ⟨.semicolon, ";", none, ⟨1, 26⟩⟩,
    ⟨.rightBrace, "\x7d", none, ⟨1, 27⟩⟩, ⟨.echoWord, "echo", none, ⟨1, 28⟩⟩,
    ⟨.leftParen, "(", none, ⟨1, 33⟩⟩, sweetFunction 34, ⟨.leftParen, "(", none, ⟨1, 35⟩⟩,
    ⟨.number, "5", some (.number 5), ⟨1, 36⟩⟩, ⟨.rightParen, ")", none, ⟨1, 37⟩⟩,
    ⟨.rightParen, ")", none, ⟨1, 38⟩⟩, ⟨.semicolon, ";", none, ⟨1, 39⟩⟩, .endAt ⟨1, 40⟩]

/-- What is called in it. -/
def sweetCall : Expr :=
  .call (.reference (sweetFunction 34)) ⟨.rightParen, ")", none, ⟨1, 37⟩⟩
    [.constant (.number 5) ⟨1, 36⟩]

/-- What the tokens write. -/
def sweetProgram : List Stmt :=
  [.function (sweetFunction 6) [sweetName 8]
      [.expression (.augmented (sweetName 11) ⟨.minusAssign, "-=", none, ⟨1, 12⟩⟩
          (.constant (.number 2) ⟨1, 14⟩)),
        .giveBack ⟨.returnWord, "return", none, ⟨1, 16⟩⟩
          (some (.step ⟨.increment, "++", none, ⟨1, 23⟩⟩ (sweetName 25)))],
    .echo ⟨.echoWord, "echo", none, ⟨1, 28⟩⟩ (.grouping sweetCall ⟨1, 33⟩)]

/-- The same with `x = x - 2` and `x = x + 1`, and without the parentheses. -/
def plainProgram : List Stmt :=
  [.function (sweetFunction 6) [sweetName 8]
      [.expression (.assign (sweetName 11) (.binary (.reference (sweetName 11))
          ⟨.minus, "-", none, ⟨1, 12⟩⟩ (.constant (.number 2) ⟨1, 14⟩))),
        .giveBack ⟨.returnWord, "return", none, ⟨1, 16⟩⟩
          (some (.assign (sweetName 25) (.binary (.reference (sweetName 25))
            ⟨.plus, "+", none, ⟨1, 23⟩⟩ (.constant (.number 1) ⟨1, 23⟩))))],
    .echo ⟨.echoWord, "echo", none, ⟨1, 28⟩⟩ sweetCall]

/-- Both take the same course, and both write four. -/
theorem sweetProgram_runs_alike :
    (parse sweetTokens).outcome = .ok sweetProgram ∧
    Stmt.desugaredAll sweetProgram = plainProgram ∧ Session.initial.store.Discreet ∧
    SameCourse (fun n => interpret n sweetProgram .initial)
      (fun n => interpret n plainProgram .initial) ∧
    ∃ t t', interpret 20 sweetProgram .initial = .ok () t ∧
      interpret 20 plainProgram .initial = .ok () t' ∧
      t.output = utf8 "4\n" ∧ t'.output = utf8 "4\n" := by
  have hplain : Stmt.desugaredAll sweetProgram = plainProgram := rfl
  have hsame := desugaredAll_runs_alike sweetProgram Session.discreet_initial
  rw [hplain] at hsame
  have hsweet : (interpret 20 sweetProgram .initial).ended?.map Session.output =
      some (utf8 "4\n") := by decide +kernel
  have hwritten : (interpret 20 plainProgram .initial).ended?.map Session.output =
      some (utf8 "4\n") := by decide +kernel
  rcases Option.map_eq_some_iff.mp hsweet with ⟨t, hended, houtput⟩
  rcases Option.map_eq_some_iff.mp hwritten with ⟨t', hended', houtput'⟩
  rcases Outcome.exists_of_ended? hended with ⟨_, ht⟩
  rcases Outcome.exists_of_ended? hended' with ⟨_, ht'⟩
  exact ⟨rfl, hplain, Session.discreet_initial, hsame, t, t', ht, ht', houtput, houtput'⟩

end PocketScript
