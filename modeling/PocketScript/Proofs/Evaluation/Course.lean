import PocketScript.Proofs.Evaluation.Upkeep

/-!
# Tasks that start in order

The argument of `Upkeep` for every kind of task: what starts in order goes its
course, which is that it hands on tasks that start in order and ends in order.
One lemma for each function of the evaluator takes the claim for a smaller
counter and gives the parts, the outcome and the origin of faults in one pass
through the cases.

## Main definitions

* `Upkeep.Holds`: Everything that starts in order ends in order, with a counter.
* `Upkeep.Course`: What there is to say of a task, whatever it computes.

## Theorems

* `Upkeep.eval_goes`, `Upkeep.exec_goes` and their neighbours: Every kind of task.
* `Upkeep.holds`: Everything ends in order, with any counter.
* `Upkeep.Fits.course`: A task that starts in order goes its course.
* `Upkeep.Fits.reaches`: Whatever comes up in it starts in order.
* `Session.Reachable.sound`: The states of a session are sound.
-/

namespace PocketScript

/-- The values that come with a result. -/
def Outcome.values {ε α : Type} (f : α → List Value) : Outcome ε α → List Value
  | ok a _ => f a
  | fault _ _ => []
  | starved => []

/-- The value that a signal hands on. -/
def Signal.carried : Signal → List Value
  | giveBack v _ => [v]
  | _ => []

/-- The values that a task comes to. -/
def Task.results : Task → List Value
  | eval n e here s => (PocketScript.eval n e here s).values ([·])
  | evalAll n es here s => (PocketScript.evalAll n es here s).values id
  | apply n f args paren s => (PocketScript.apply n f args paren s).values ([·])
  | callFunction n f args paren s => (PocketScript.callFunction n f args paren s).values ([·])
  | callNative n script held s => (PocketScript.callNative n script held s).values ([·])
  | exec n st here s => (PocketScript.exec n st here s).values Signal.carried
  | execAll n b here s => (PocketScript.execAll n b here s).values Signal.carried
  | execLoop n e b here s => (PocketScript.execLoop n e b here s).values Signal.carried
  | interpret _ _ _ => []
  | runSource _ _ _ => []

namespace Upkeep

variable {runs : Prop}

theorem session?_finishCall (o : Outcome RuntimeFault Signal) :
    (finishCall o).session? = o.session?.map Session.leave := by
  cases o with
  | ok signal t => cases signal <;> rfl
  | fault e t => rfl
  | starved => rfl

/-- A call that ends gives what its body gave back. -/
theorem Ends.finishCall {function : Text} {pos : Position} {s : Session}
    {o : Outcome RuntimeFault Signal} (h : Ends runs (s.enter function pos) (Carries runs) o) :
    Ends runs s (Value.Lives runs) (finishCall o) := by
  cases o with
  | starved => trivial
  | fault e t => exact After.leave h
  | ok signal t =>
      cases signal with
      | normal => exact ⟨h.1.leave, trivial⟩
      | giveBack v keyword => exact ⟨h.1.leave, h.2⟩
      | leave keyword => exact h.1.leave
      | next keyword => exact h.1.leave

variable (runs) in
/-- With this counter everything that starts in order ends in order. -/
structure Holds (n : Nat) : Prop where
  eval : ∀ {e here s}, Fits runs (.eval n e here s) →
    Ends runs s (Value.Lives runs) (eval n e here s)
  evalAll : ∀ {es here s}, Fits runs (.evalAll n es here s) →
    Ends runs s (AllLive runs) (evalAll n es here s)
  apply : ∀ {f args paren s}, Fits runs (.apply n f args paren s) →
    Ends runs s (Value.Lives runs) (apply n f args paren s)
  callFunction : ∀ {f args paren s}, Fits runs (.callFunction n f args paren s) →
    Ends runs s (Value.Lives runs) (callFunction n f args paren s)
  callNative : ∀ {script held s}, Fits runs (.callNative n script held s) →
    Ends runs s (Value.Lives runs) (callNative n script held s)
  exec : ∀ {st here s}, Fits runs (.exec n st here s) →
    Ends runs s (Carries runs) (exec n st here s)
  execAll : ∀ {b here s}, Fits runs (.execAll n b here s) →
    Ends runs s (Carries runs) (execAll n b here s)
  execLoop : ∀ {e b here s}, Fits runs (.execLoop n e b here s) →
    Ends runs s (Carries runs) (execLoop n e b here s)
  interpret : ∀ {p s}, Sound runs s.store →
    Ends runs { s with calls := [] } (fun _ _ => True) (interpret n p s)
  runSource : ∀ source {s t}, Sound runs s.store → (runSource n source s).session? = some t →
    Sound runs t.store ∧ s.store.Grows t.store

theorem holds_zero : Holds runs 0 := by
  constructor
  case runSource => simp [runSource, Outcome.session?]
  all_goals
    intros
    simp only [eval, evalAll, apply, callFunction, callNative, exec, execAll, execLoop, interpret]
    trivial

section Parts

variable {n : Nat} (ih : Holds runs n) {s : Session} {here : LevelId}
include ih

theorem eval_begins (e : Expr) (hs : Sound runs s.store) (hl : here < s.store.levels.size) :
    Begins runs s (.eval n e here s) (Value.Lives runs) (eval n e here s) :=
  ⟨⟨hl, hs⟩, .refl hs, rfl, rfl, ih.eval ⟨hl, hs⟩⟩

theorem evalAll_begins (es : List Expr) (hs : Sound runs s.store)
    (hl : here < s.store.levels.size) :
    Begins runs s (.evalAll n es here s) (AllLive runs) (evalAll n es here s) :=
  ⟨⟨hl, hs⟩, .refl hs, rfl, rfl, ih.evalAll ⟨hl, hs⟩⟩

theorem apply_begins {f : Value} {args : List Value} (paren : Token) (hs : Sound runs s.store)
    (hf : f.Lives runs s.store) (hargs : AllLive runs s.store args) :
    Begins runs s (.apply n f args paren s) (Value.Lives runs) (apply n f args paren s) :=
  ⟨⟨hf, hargs, hs⟩, .refl hs, rfl, rfl, ih.apply ⟨hf, hargs, hs⟩⟩

theorem exec_begins (st : Stmt) (hs : Sound runs s.store) (hl : here < s.store.levels.size) :
    Begins runs s (.exec n st here s) (Carries runs) (exec n st here s) :=
  ⟨⟨hl, hs⟩, .refl hs, rfl, rfl, ih.exec ⟨hl, hs⟩⟩

theorem execAll_begins (b : List Stmt) (hs : Sound runs s.store) (hl : here < s.store.levels.size) :
    Begins runs s (.execAll n b here s) (Carries runs) (execAll n b here s) :=
  ⟨⟨hl, hs⟩, .refl hs, rfl, rfl, ih.execAll ⟨hl, hs⟩⟩

theorem execLoop_begins (e : Expr) (b : List Stmt) (hs : Sound runs s.store)
    (hl : here < s.store.levels.size) :
    Begins runs s (.execLoop n e b here s) (Carries runs) (execLoop n e b here s) :=
  ⟨⟨hl, hs⟩, .refl hs, rfl, rfl, ih.execLoop ⟨hl, hs⟩⟩

theorem eval_goes {e : Expr} (h : Fits runs (.eval (n + 1) e here s)) :
    Goes runs s s (Task.eval (n + 1) e here s).parts False (Value.Lives runs)
      (eval (n + 1) e here s) := by
  rcases h with ⟨hl, hsound⟩
  have hs : After runs s s := .refl hsound
  cases e with
  | constant v p =>
      simp only [eval, Task.parts]
      exact .ok hs (Value.lives_of_data (Value.isCallable_ofLiteral v))
  | grouping inner p =>
      simp only [eval, Task.parts]
      exact .only (eval_begins ih inner hsound hl)
  | reference name =>
      simp only [eval, Task.parts]
      rcases hs.sound.values.get_cases here name with ⟨v, hv, hlives⟩ | hnone
      · rw [hv]
        exact .ok hs hlives
      · rw [hnone]
        exact .raise hs rfl
  | assign name value =>
      simp only [eval, Task.parts]
      exact .last (eval_begins ih value hsound hl) fun v t ht hv =>
        .ok (ht.here.bind here name.lexeme hv)
          (hv.mono (t.store.grows_set here name.lexeme v))
  | augmented name operator value =>
      simp only [eval, Task.parts]
      rcases hs.sound.values.get_cases here name with ⟨v, hv, _⟩ | hnone
      · rw [hv]
        refine .last (eval_begins ih value hsound hl) fun w t ht hw => ?_
        cases hresult : operator.kind.underlying?.bind fun op => Value.binary? op v w with
        | none => exact .raise ht.here rfl
        | some r =>
            rcases Option.bind_eq_some_iff.mp hresult with ⟨op, _, hop⟩
            have hdata := Value.isCallable_of_binary? hop
            exact .ok (ht.here.bind here name.lexeme (Value.lives_of_data hdata))
              (Value.lives_of_data hdata)
      · rw [hnone]
        exact .raise hs rfl
  | step operator name =>
      simp only [eval, Task.parts]
      rcases hs.sound.values.get_cases here name with ⟨v, hv, _⟩ | hnone
      · rw [hv]
        simp only
        cases hresult : v.step? operator.kind with
        | none => exact .raise hs rfl
        | some r =>
            have hdata := Value.isCallable_of_step? hresult
            exact .ok (hs.bind here name.lexeme (Value.lives_of_data hdata))
              (Value.lives_of_data hdata)
      · rw [hnone]
        exact .raise hs rfl
  | unary operator operand =>
      simp only [eval, Task.parts]
      refine .last (eval_begins ih operand hsound hl) fun v t ht _ => ?_
      cases hresult : v.unary? operator.kind with
      | none => exact .raise ht.here rfl
      | some r => exact .ok ht.here (Value.lives_of_data (Value.isCallable_of_unary? hresult))
  | binary left operator right =>
      simp only [eval, Task.parts]
      refine .andThen (eval_begins ih left hsound hl) fun v t ht _ => ?_
      refine .last (eval_begins ih right ht.sound (ht.lt_size hl)) fun w u hu _ => ?_
      cases hresult : Value.binary? operator.kind v w with
      | none => exact .raise hu.here rfl
      | some r => exact .ok hu.here (Value.lives_of_data (Value.isCallable_of_binary? hresult))
  | logical left operator right =>
      simp only [eval, Task.parts]
      refine .andThen (eval_begins ih left hsound hl) fun v t ht hv => ?_
      by_cases hdecided : v.truthy = (operator.kind == .either)
      · rw [if_pos hdecided, if_pos hdecided]
        exact .ok ht.here hv
      · rw [if_neg hdecided, if_neg hdecided]
        exact .only (eval_begins ih right ht.sound (ht.lt_size hl))
  | call callee paren args =>
      simp only [eval, Task.parts]
      refine .andThen (eval_begins ih callee hsound hl) fun f t ht hf => ?_
      -- The callee is in order in the store that the arguments leave.
      refine .andThen (evalAll_begins ih args ht.sound (ht.lt_size hl))
        fun vs u hu hvs => ?_
      exact .only (apply_begins ih paren hu.sound (hf.mono hu.grows) hvs)

theorem evalAll_goes {es : List Expr} (h : Fits runs (.evalAll (n + 1) es here s)) :
    Goes runs s s (Task.evalAll (n + 1) es here s).parts False (AllLive runs)
      (evalAll (n + 1) es here s) := by
  rcases h with ⟨hl, hsound⟩
  have hs : After runs s s := .refl hsound
  cases es with
  | nil =>
      simp only [evalAll, Task.parts]
      exact .ok hs (by simp [AllLive])
  | cons e es =>
      simp only [evalAll, Task.parts]
      refine .andThen (eval_begins ih e hsound hl) fun v t ht hv => ?_
      refine .last (evalAll_begins ih es ht.sound (ht.lt_size hl))
        fun vs u hu hvs => ?_
      exact .ok hu.here (List.forall_mem_cons.mpr ⟨hv.mono hu.grows, hvs⟩)

/-- A native function is the origin of its own faults. What it reports otherwise
    becomes a fault where it was called. -/
theorem applyNative_goes {f : Builtin} {args : List Value} (paren : Token)
    (harity : f.arity = args.length)
    (h : Fits runs (.callNative n (f.action (args.map Value.shown)) args s)) :
    Goes runs s s [.callNative n (f.action (args.map Value.shown)) args s]
      (Task.apply (n + 1) (.native f) args paren s).Foreign (Value.Lives runs)
      (match callNative n (f.action (args.map Value.shown)) args s with
        | .ok v t => .ok v t
        | .fault (.runtime e) t => t.raise e
        | .fault e t => t.raise (.nativeFailed paren f.name e.message)
        | .starved => .starved) := by
  have hhands : Hands runs s [.callNative n (f.action (args.map Value.shown)) args s] :=
    hands_singleton h (.refl h.2.2)
  have hquiet : ∀ part ∈ [Task.callNative n (f.action (args.map Value.shown)) args s],
      part.fault? = none := by
    simp [Task.fault?]
  have hends := ih.callNative h
  have hleft : (Task.callNative n (f.action (args.map Value.shown)) args s).left? =
      (callNative n (f.action (args.map Value.shown)) args s).session? := rfl
  cases hcall : callNative n (f.action (args.map Value.shown)) args s with
  | ok v t =>
      rw [hcall] at hends hleft
      refine ⟨.single hhands hends ?_, by simp [Outcome.fault?]⟩
      exact fun v hv => ⟨v, hleft.trans hv, rfl⟩
  | starved =>
      exact ⟨.single hhands trivial (by simp [Outcome.session?]), by simp [Outcome.fault?]⟩
  | fault e t =>
      rw [hcall] at hends hleft
      have hleads : ∀ e', Leads runs s s
          [.callNative n (f.action (args.map Value.shown)) args s] (Value.Lives runs)
          (t.raise e' : Outcome RuntimeFault Value) := fun e' =>
        .single hhands hends fun v hv => ⟨v, hleft.trans hv, rfl⟩
      -- A fault without frames gets them here, wherever it comes from.
      have hraise : ∀ e₀ : RuntimeFault,
          e₀.frames = none ∨ (Task.apply (n + 1) (.native f) args paren s).Foreign →
          Goes runs s s [.callNative n (f.action (args.map Value.shown)) args s]
            (Task.apply (n + 1) (.native f) args paren s).Foreign (Value.Lives runs)
            (t.raise e₀) := fun e₀ he₀ =>
        ⟨hleads e₀, fun _ e' he' => Or.inr ⟨hquiet, e₀, t, hends, (Option.some.inj he').symm, he₀⟩⟩
      cases e with
      | runtime e =>
          refine hraise e ?_
          by_cases hframes : e.frames = none
          · exact Or.inl hframes
          · exact Or.inr ⟨harity, e, t, hcall, hframes⟩
      | lexical e => exact hraise _ (Or.inl rfl)
      | grammar e => exact hraise _ (Or.inl rfl)
      | plain message => exact hraise _ (Or.inl rfl)

theorem apply_goes {f : Value} {args : List Value} {paren : Token}
    (h : Fits runs (.apply (n + 1) f args paren s)) :
    Goes runs s s (Task.apply (n + 1) f args paren s).parts
      (Task.apply (n + 1) f args paren s).Foreign (Value.Lives runs)
      (apply (n + 1) f args paren s) := by
  rcases h with ⟨hf, hargs, hsound⟩
  have hs : After runs s s := .refl hsound
  cases f with
  | function f =>
      simp only [apply, Task.parts]
      by_cases hlength : f.params.length = args.length
      · rw [if_pos hlength, if_pos hlength]
        have hfits : Fits runs (.callFunction n f args paren s) := ⟨hf, hargs, hsound⟩
        exact .only ⟨hfits, hs, rfl, rfl, ih.callFunction hfits⟩
      · rw [if_neg hlength, if_neg hlength]
        exact .raise hs rfl
  | native f =>
      simp only [apply, Task.parts]
      by_cases hlength : f.arity = args.length
      · rw [if_pos hlength, if_pos hlength]
        have hscript := hf.imp_right fun hleaf => hleaf (args.map Value.shown)
        exact applyNative_goes ih paren hlength ⟨hscript, hargs, hsound⟩
      · rw [if_neg hlength, if_neg hlength]
        have hraise : Goes runs s s [] False (Value.Lives runs)
            (s.raise (.wrongArity paren f.arity args.length)) := .raise hs rfl
        exact hraise.weaken
  | _ =>
      simp only [apply, Task.parts]
      exact .raise hs rfl

theorem callFunction_goes {f : Closure} {args : List Value} {paren : Token}
    (h : Fits runs (.callFunction (n + 1) f args paren s)) :
    Goes runs (s.enter f.name paren.pos) s (Task.callFunction (n + 1) f args paren s).parts False
      (Value.Lives runs) (callFunction (n + 1) f args paren s) := by
  rcases h with ⟨hf, hargs, hsound⟩
  rcases after_received paren hsound hf hargs with ⟨hreceived, hlevel⟩
  have hfits : Fits runs (.execAll n f.body s.store.levels.size (s.received f args paren)) :=
    ⟨hlevel, hreceived.sound⟩
  have hbody : Begins runs (s.enter f.name paren.pos)
      (.execAll n f.body s.store.levels.size (s.received f args paren)) (Carries runs)
      (execAll n f.body s.store.levels.size (s.received f args paren)) :=
    ⟨hfits, hreceived, rfl, rfl, ih.execAll hfits⟩
  rw [callFunction_eq_finishCall, Task.parts_callFunction]
  generalize Task.execAll n f.body s.store.levels.size (s.received f args paren) = part
    at hbody ⊢
  generalize execAll n f.body s.store.levels.size (s.received f args paren) = o at hbody ⊢
  have hgoes : Goes runs (s.enter f.name paren.pos) (s.enter f.name paren.pos) [part] False
      (Carries runs) o := .only hbody
  refine ⟨.single hgoes.hands hgoes.ends.finishCall fun v hv => ?_, fun hno e he => ?_⟩
  · -- Leaving the call does nothing to the store.
    rw [session?_finishCall, ← hbody.left, Option.map_eq_some_iff] at hv
    rcases hv with ⟨u, hu, rfl⟩
    exact ⟨u, hu, rfl⟩
  · have hfault := hbody.fault
    -- A break or continue that no loop received becomes a fault inside the call.
    have hstray : ∀ (keyword : Token) (t : Session), After runs (s.enter f.name paren.pos) t →
        e = (RuntimeFault.strayControl keyword).attach t.calls →
        Starts runs (s.enter f.name paren.pos) False e :=
      fun keyword t ht he => ⟨.strayControl keyword, t, ht, he, Or.inl rfl⟩
    cases o with
    | starved => cases he
    | fault e' t => exact hgoes.origin hno e he
    | ok signal t =>
        have ht := hgoes.ends.1
        cases signal with
        | normal => cases he
        | giveBack v keyword => cases he
        | leave keyword =>
            exact Or.inr ⟨List.forall_mem_singleton.mpr hfault, hstray keyword t ht
              (Option.some.inj he).symm⟩
        | next keyword =>
            exact Or.inr ⟨List.forall_mem_singleton.mpr hfault, hstray keyword t ht
              (Option.some.inj he).symm⟩

/-- A native function that has something carried out goes on however that ended. With
    such functions on offer nothing is said about the calls under way. -/
theorem carryOut_leads {ε : Type} {first : Task} {o : Outcome ε Unit} {held : List Value}
    (next : Option ε → Script) (hruns : runs) (hfits : Fits runs first)
    (hafter : After runs s first.session) (hleft : first.left? = o.session?)
    (hends : ∀ t, o.session? = some t → Sound runs t.store ∧ s.store.Grows t.store)
    (hheld : AllLive runs s.store held) :
    Leads runs s s (first :: o.leadingEither fun e t => [.callNative n (next e) held t])
      (Value.Lives runs) (o.either fun e t => callNative n (next e) held t) := by
  have hback : ∀ t, o.session? = some t → After runs s t := fun t ht =>
    ⟨(hends t ht).1, (hends t ht).2, Or.inl hruns⟩
  have hthrough : ∀ e t, o.session? = some t →
      Leads runs s s [first, .callNative n (next e) held t] (Value.Lives runs)
        (callNative n (next e) held t) := by
    intro e t ht
    have hrest : Fits runs (.callNative n (next e) held t) :=
      ⟨Or.inl hruns, fun v hv => (hheld v hv).mono (hback t ht).grows, (hback t ht).sound⟩
    have hlast : Leads runs t t [.callNative n (next e) held t] (Value.Lives runs)
        (callNative n (next e) held t) :=
      .only hrest (hback t ht).here rfl (ih.callNative hrest)
    refine ⟨⟨hfits, hafter, Or.inr ⟨t, hleft.trans ht, hlast.hands⟩⟩,
      hlast.ends.trans (hback t ht), fun v hv => ?_⟩
    rw [Task.lastOf?, hleft, ht]
    exact hlast.settles v hv
  cases o with
  | starved =>
      exact ⟨hands_singleton hfits hafter, trivial, by simp [Outcome.either, Outcome.session?]⟩
  | ok a t => exact hthrough none t rfl
  | fault e t => exact hthrough (some e) t rfl

theorem callNative_leads {script : Script} {held : List Value}
    (h : Fits runs (.callNative (n + 1) script held s)) :
    Leads runs s s (Task.callNative (n + 1) script held s).parts (Value.Lives runs)
      (callNative (n + 1) script held s) := by
  rcases h with ⟨hscript, hheld, hsound⟩
  have hs : After runs s s := .refl hsound
  cases script with
  | give v =>
      simp only [callNative, Task.parts]
      exact .nothing ⟨hs, Value.among_of Value.lives_of_data hheld v⟩
  | fail e =>
      simp only [callNative, Task.parts]
      exact .nothing hs
  | ask q next =>
      simp only [callNative, Task.parts]
      rcases After.reply hsound q hheld with ⟨hafter, hshown⟩
      have hfits : Fits runs (.callNative n (next (s.reply q held).answer)
          (held ++ (s.reply q held).shown) (s.reply q held).session) :=
        ⟨hscript.imp_right fun hw => hw.2 _,
          List.forall_mem_append.mpr ⟨fun v hv => (hheld v hv).mono hafter.grows, hshown⟩,
          hafter.sound⟩
      exact .only hfits hafter rfl (ih.callNative hfits)
  | wrap name arity action next =>
      simp only [callNative, Task.parts]
      have hmade : (Value.native ⟨name, arity, action, s.stamps⟩).Lives runs s.store :=
        hscript.imp_right fun hw => hw.1
      have hfits : Fits runs (.callNative n next
          (held ++ [.native ⟨name, arity, action, s.stamps⟩]) s.stamp.2) :=
        ⟨hscript.imp_right fun hw => hw.2,
          List.forall_mem_append.mpr ⟨hheld, List.forall_mem_singleton.mpr hmade⟩, hsound⟩
      exact .only hfits (hs.same rfl rfl) rfl (ih.callNative hfits)
  | run work next =>
      have hruns : runs := hscript.resolve_right fun hw => hw.1
      cases work with
      | source t =>
          simp only [callNative, Task.parts]
          exact carryOut_leads ih next hruns ⟨hruns, hsound⟩ hs rfl
            (fun u hu => ih.runSource t hsound hu) hheld
      | program p =>
          simp only [callNative, Task.parts]
          refine carryOut_leads ih (fun e => next (e.map .runtime)) hruns
            ⟨hruns, hsound⟩ hs rfl (fun u hu => ?_) hheld
          have hends := (ih.interpret (p := p) hsound).left hu
          exact ⟨hends.sound, hends.grows⟩

theorem exec_goes {st : Stmt} (h : Fits runs (.exec (n + 1) st here s)) :
    Goes runs s s (Task.exec (n + 1) st here s).parts False (Carries runs)
      (exec (n + 1) st here s) := by
  rcases h with ⟨hl, hsound⟩
  have hs : After runs s s := .refl hsound
  cases st with
  | function name params b =>
      simp only [exec, Task.parts]
      exact .ok (hs.declare hl name params b) trivial
  | giveBack keyword value =>
      cases value with
      | none =>
          simp only [exec, Task.parts]
          exact .ok hs trivial
      | some value =>
          simp only [exec, Task.parts]
          exact .last (eval_begins ih value hsound hl) fun v t ht hv => .ok ht.here hv
  | delete keyword targets =>
      simp only [exec, Task.parts]
      exact deleteAll_goes here targets hs
  | loop keyword condition b =>
      simp only [exec, Task.parts]
      exact .only (execLoop_begins ih condition b hsound hl)
  | branch keyword condition consequent alternate =>
      simp only [exec, Task.parts]
      refine .andThen (eval_begins ih condition hsound hl) fun v t ht _ => ?_
      by_cases hv : v.truthy
      · rw [if_pos hv, if_pos hv]
        exact .only (execAll_begins ih consequent ht.sound (ht.lt_size hl))
      · rw [if_neg hv, if_neg hv]
        cases alternate with
        | none => exact .ok ht.here trivial
        | some b => exact .only (execAll_begins ih b ht.sound (ht.lt_size hl))
  | expression value =>
      simp only [exec, Task.parts]
      exact .last (eval_begins ih value hsound hl) fun v t ht _ => .ok ht.here trivial
  | echo keyword value =>
      simp only [exec, Task.parts]
      exact .last (eval_begins ih value hsound hl) fun v t ht _ => .ok (ht.here.echo v.text) trivial
  | leave keyword =>
      simp only [exec, Task.parts]
      exact .ok hs trivial
  | next keyword =>
      simp only [exec, Task.parts]
      exact .ok hs trivial

theorem execAll_goes {b : List Stmt} (h : Fits runs (.execAll (n + 1) b here s)) :
    Goes runs s s (Task.execAll (n + 1) b here s).parts False (Carries runs)
      (execAll (n + 1) b here s) := by
  rcases h with ⟨hl, hsound⟩
  have hs : After runs s s := .refl hsound
  cases b with
  | nil =>
      simp only [execAll, Task.parts]
      exact .ok hs trivial
  | cons st rest =>
      simp only [execAll, Task.parts]
      refine .andThen (exec_begins ih st hsound hl) fun signal t ht hsignal => ?_
      cases signal with
      | normal => exact .only (execAll_begins ih rest ht.sound (ht.lt_size hl))
      | _ => exact .ok ht.here hsignal

theorem execLoop_goes {e : Expr} {b : List Stmt} (h : Fits runs (.execLoop (n + 1) e b here s)) :
    Goes runs s s (Task.execLoop (n + 1) e b here s).parts False (Carries runs)
      (execLoop (n + 1) e b here s) := by
  rcases h with ⟨hl, hsound⟩
  simp only [execLoop, Task.parts]
  refine .andThen (eval_begins ih e hsound hl) fun v t ht _ => ?_
  by_cases hv : v.truthy
  · rw [if_pos hv, if_pos hv]
    refine .andThen (execAll_begins ih b ht.sound (ht.lt_size hl)) fun signal u hu hsignal => ?_
    cases signal with
    | normal => exact .only (execLoop_begins ih e b hu.sound (hu.lt_size (ht.lt_size hl)))
    | next keyword => exact .only (execLoop_begins ih e b hu.sound (hu.lt_size (ht.lt_size hl)))
    | leave keyword => exact .ok hu.here trivial
    | giveBack v keyword => exact .ok hu.here hsignal
  · rw [if_neg hv, if_neg hv]
    exact .ok ht.here trivial

theorem interpret_goes {p : List Stmt} (h : Sound runs s.store) :
    Goes runs { s with calls := [] } { s with calls := [] } (Task.interpret (n + 1) p s).parts False
      (fun _ _ => True) (interpret (n + 1) p s) := by
  have hs : After runs { s with calls := [] } { s with calls := [] } := .refl h
  simp only [interpret, Task.parts]
  refine .last (execAll_begins ih p hs.sound h.rooted.globals_lt) fun signal t ht _ => ?_
  cases signal with
  | leave keyword => exact .raise ht.here rfl
  | next keyword => exact .raise ht.here rfl
  | normal => exact .ok ht.here trivial
  | giveBack v keyword => exact .ok ht.here trivial

omit ih in
/-- Before its first statement and after its last a source does nothing to the
    store or the calls. -/
theorem runSource_cases (n : Nat) (source : Text) (s : Session) :
    ((Task.runSource (n + 1) source s).parts = [] ∧
      ∀ t, (runSource (n + 1) source s).session? = some t → t.store = s.store) ∨
    ∃ p u, (Task.runSource (n + 1) source s).parts = [.interpret n p u] ∧
      u.store = s.store ∧ u.calls = s.calls ∧
      ∀ t, (runSource (n + 1) source s).session? = some t →
        ∃ v, (interpret n p u).session? = some v ∧ t.store = v.store := by
  simp only [runSource, Task.parts]
  cases Token.scan source with
  | error e =>
      refine Or.inl ⟨rfl, fun t ht => ?_⟩
      rw [← Option.some.inj ht]
      rfl
  | ok tokens =>
      have hremarks : (s.begin.keepRemarks (parse tokens).remarks).store = s.store :=
        (Session.store_keepRemarks _ _).1
      simp only
      cases (parse tokens).outcome with
      | error e =>
          refine Or.inl ⟨rfl, fun t ht => ?_⟩
          rw [← Option.some.inj ht, hremarks]
      | ok program =>
          refine Or.inr ⟨program, _, rfl, (Session.store_note _ _).trans hremarks,
            (Session.calls_note _ _).trans (Session.calls_keepRemarks _ _), ?_⟩
          simp only
          generalize interpret n program _ = o
          intro t ht
          cases o with
          | starved => cases ht
          | ok _ v => exact ⟨v, rfl, Option.some.inj ht ▸ (Session.store_conclude true v).1⟩
          | fault e v => exact ⟨v, rfl, Option.some.inj ht ▸ (Session.store_conclude false v).1⟩

omit ih in
/-- The last part of a source leaves the store that the source leaves. -/
theorem lastOf?_runSource {source : Text} {t : Session}
    (ht : (runSource (n + 1) source s).session? = some t) :
    ∃ u, Task.lastOf? s (Task.runSource (n + 1) source s).parts = some u ∧
      u.store.Grows t.store := by
  rcases runSource_cases n source s with ⟨hparts, hstore⟩ | ⟨p, v, hparts, _, _, hstore⟩
  · rw [hparts, hstore t ht]
    exact ⟨s, rfl, .refl _⟩
  · rcases hstore t ht with ⟨u, hu, htu⟩
    rw [hparts, Task.lastOf?, Task.left?, hu, htu]
    exact ⟨u, rfl, .refl _⟩

theorem runSource_ends (source : Text) {t : Session} (h : Sound runs s.store)
    (ht : (runSource (n + 1) source s).session? = some t) :
    Sound runs t.store ∧ s.store.Grows t.store := by
  rcases runSource_cases n source s with ⟨_, hstore⟩ | ⟨p, u, _, hu, _, hstore⟩
  · rw [hstore t ht]
    exact ⟨h, .refl _⟩
  · rcases hstore t ht with ⟨v, hv, htv⟩
    have hends := (ih.interpret (p := p) (hu ▸ h)).left hv
    rw [htv, ← hu]
    exact ⟨hends.sound, hends.grows⟩

end Parts

/-- Everything that starts in order ends in order. -/
theorem holds (n : Nat) : Holds runs n := by
  induction n with
  | zero => exact holds_zero
  | succ n ih =>
      exact
        { eval := fun h => (eval_goes ih h).ends
          evalAll := fun h => (evalAll_goes ih h).ends
          apply := fun h => (apply_goes ih h).ends
          callFunction := fun h => (callFunction_goes ih h).ends
          callNative := fun h => (callNative_leads ih h).ends
          exec := fun h => (exec_goes ih h).ends
          execAll := fun h => (execAll_goes ih h).ends
          execLoop := fun h => (execLoop_goes ih h).ends
          interpret := fun h => (interpret_goes ih h).ends
          runSource := fun source _ _ h => runSource_ends ih source h }

section Tasks

variable (runs) in
/-- What there is to say of a task, whatever it computes. -/
structure Course (task : Task) : Prop where
  hands : Hands runs task.inside task.parts
  left : ∀ t, task.left? = some t → After runs task.session t
  results : ∀ t, task.left? = some t → AllLive runs t.store task.results
  settles : ∀ t, task.left? = some t → ∃ u, Task.lastOf? task.inside task.parts = some u ∧
    u.store.Grows t.store
  origin : ¬ runs → ∀ e, task.fault? = some e →
    (∃ part ∈ task.parts, part.fault? = some e) ∨
      ((∀ part ∈ task.parts, part.fault? = none) ∧ Starts runs task.inside task.Foreign e)

/-- With nothing left of its counter a task hands on nothing and comes to
    nothing. -/
theorem course_of_starved {task : Task} (h : task.counter = 0) : Course runs task := by
  have hnothing : task.parts = [] ∧ task.left? = none ∧ task.fault? = none := by
    cases task <;> cases h <;>
      simp [Task.parts, Task.left?, Task.fault?, Outcome.session?, Outcome.fault?, eval, evalAll,
        apply, callFunction, callNative, exec, execAll, execLoop, interpret, runSource]
  rcases hnothing with ⟨hparts, hleft, hfault⟩
  exact ⟨hparts ▸ trivial, by simp [hleft], by simp [hleft], by simp [hleft],
    by simp [hfault]⟩

/-- What came of a task is in order, so far as values go. -/
theorem Ends.values {ε α : Type} {s t : Session} {R : Store → α → Prop} {o : Outcome ε α}
    {f : α → List Value} (h : Ends runs s R o)
    (hf : ∀ store a, R store a → AllLive runs store (f a))
    (ht : o.session? = some t) : AllLive runs t.store (o.values f) := by
  cases o with
  | ok a u => exact Option.some.inj ht ▸ hf _ a h.2
  | fault e u => exact fun v hv => absurd hv (List.not_mem_nil)
  | starved => cases ht

theorem Goes.course {α : Type} {task : Task} {R : Store → α → Prop}
    {o : Outcome RuntimeFault α} {f : α → List Value}
    (h : Goes runs task.inside task.session task.parts task.Foreign R o)
    (hf : ∀ store a, R store a → AllLive runs store (f a))
    (hleft : task.left? = o.session?) (hfault : task.fault? = o.fault?)
    (hresults : task.results = o.values f) : Course runs task := by
  refine ⟨h.hands, ?_, ?_, ?_, fun hno e he => h.origin hno e (hfault ▸ he)⟩
  · exact fun t ht => h.ends.left (hleft ▸ ht)
  · exact fun t ht => hresults ▸ h.ends.values hf (hleft ▸ ht)
  · exact fun t ht => h.settles t (hleft ▸ ht)

theorem allLive_singleton (store : Store) (v : Value) (h : v.Lives runs store) :
    AllLive runs store [v] := List.forall_mem_singleton.mpr h

theorem allLive_carried (store : Store) (signal : Signal) (h : Carries runs store signal) :
    AllLive runs store signal.carried := by
  cases signal with
  | giveBack v keyword => exact allLive_singleton store v h
  | _ => exact fun v hv => absurd hv (List.not_mem_nil)

/-- A task that starts in order goes its course. -/
theorem Fits.course {task : Task} (h : Fits runs task) : Course runs task := by
  rcases hcounter : task.counter with _ | n
  · exact course_of_starved hcounter
  cases task with
  | eval m e here s =>
      obtain rfl : m = n + 1 := hcounter
      exact (eval_goes (holds n) h).course allLive_singleton rfl rfl rfl
  | evalAll m es here s =>
      obtain rfl : m = n + 1 := hcounter
      exact (evalAll_goes (holds n) h).course (fun _ _ hvs => hvs) rfl rfl rfl
  | apply m f args paren s =>
      obtain rfl : m = n + 1 := hcounter
      exact (apply_goes (holds n) h).course allLive_singleton rfl rfl rfl
  | callFunction m f args paren s =>
      obtain rfl : m = n + 1 := hcounter
      exact (callFunction_goes (holds n) h).course allLive_singleton rfl rfl rfl
  | exec m st here s =>
      obtain rfl : m = n + 1 := hcounter
      exact (exec_goes (holds n) h).course allLive_carried rfl rfl rfl
  | execAll m b here s =>
      obtain rfl : m = n + 1 := hcounter
      exact (execAll_goes (holds n) h).course allLive_carried rfl rfl rfl
  | execLoop m e b here s =>
      obtain rfl : m = n + 1 := hcounter
      exact (execLoop_goes (holds n) h).course allLive_carried rfl rfl rfl
  | callNative m script held s =>
      obtain rfl : m = n + 1 := hcounter
      have hleads := callNative_leads (holds n) h
      exact ⟨hleads.hands, fun t ht => hleads.ends.left ht,
        fun t ht => hleads.ends.values allLive_singleton ht, hleads.settles, by simp [Task.fault?]⟩
  | interpret m p s =>
      obtain rfl : m = n + 1 := hcounter
      have hgoes := interpret_goes (holds n) (p := p) h.2
      refine ⟨hgoes.hands, fun t ht => ?_,
        by simp [Task.results, AllLive], hgoes.settles, fun hno => absurd h.1 hno⟩
      exact ⟨(hgoes.ends.left ht).sound, (hgoes.ends.left ht).grows, Or.inl h.1⟩
  | runSource m source s =>
      obtain rfl : m = n + 1 := hcounter
      refine ⟨?_, fun t ht => ?_, by simp [Task.results, AllLive], fun t ht => lastOf?_runSource ht,
        by simp [Task.fault?]⟩
      · rcases runSource_cases n source s with ⟨hparts, _⟩ | ⟨p, u, hparts, hstore, hcalls, _⟩
        · exact hparts ▸ trivial
        · have hu : After runs s u := (After.refl h.2).same hstore hcalls
          have hfits : Fits runs (.interpret n p u) := ⟨h.1, hu.sound⟩
          exact hparts ▸ hands_singleton hfits hu
      · rcases runSource_ends (holds n) source h.2 ht with ⟨hsound, hgrows⟩
        exact ⟨hsound, hgrows, Or.inl h.1⟩

theorem Fits.sound {task : Task} (h : Fits runs task) : Sound runs task.session.store := by
  cases task with
  | apply n f args paren s => exact h.2.2
  | callFunction n f args paren s => exact h.2.2
  | callNative n script held s => exact h.2.2
  | _ => exact h.2

/-- Each part that is handed on starts in order and after the start. -/
theorem Hands.of_mem {s : Session} {parts : List Task} {part : Task}
    (h : Hands runs s parts) (hpart : part ∈ parts) :
    Fits runs part ∧ After runs s part.session := by
  induction parts generalizing s with
  | nil => cases hpart
  | cons first rest ih =>
      rcases h with ⟨hfits, hafter, hrest⟩
      rcases List.mem_cons.mp hpart with rfl | hmem
      · exact ⟨hfits, hafter⟩
      · rcases hrest with ⟨_, rfl⟩ | ⟨t, hleft, hrest⟩
        · cases hmem
        · rcases ih hrest hmem with ⟨hfits', hafter'⟩
          have hleave := hafter.trans (hfits.course.left t hleft)
          exact ⟨hfits', hleave.trans hafter'⟩

/-- What a task that starts in order hands on starts in order. -/
theorem Fits.part {task part : Task} (h : Fits runs task) (hpart : part ∈ task.parts) :
    Fits runs part ∧ After runs task.inside part.session := h.course.hands.of_mem hpart

/-- Whatever comes up in a task that starts in order starts in order. -/
theorem Fits.reaches {task inner : Task} (h : Fits runs task) (hreaches : task.Reaches inner) :
    Fits runs inner := by
  induction hreaches with
  | refl => exact h
  | tail _ hpart ih => exact (Fits.part ih hpart).1

/-- What a program hands on starts in order, with the calls from before it
    forgotten. -/
theorem interpret_hands {n : Nat} {p : List Stmt} {s : Session} {part : Task}
    (h : Sound runs s.store) (hpart : part ∈ (Task.interpret n p s).parts) :
    Fits runs part ∧ After runs { s with calls := [] } part.session := by
  cases n with
  | zero => simp [Task.parts] at hpart
  | succ n => exact (interpret_goes (holds n) h).hands.of_mem hpart

theorem sound_of_interpret {n : Nat} {p : List Stmt} {s : Session} {task : Task}
    (h : Sound runs s.store) (hreaches : (Task.interpret n p s).Reaches task) :
    Sound runs task.session.store := by
  rcases Relation.ReflTransGen.cases_head hreaches with rfl | ⟨part, hpart, hrest⟩
  · exact h
  · exact ((interpret_hands h hpart).1.reaches hrest).sound

theorem sound_of_runSource {n : Nat} {source : Text} {s : Session} {task : Task}
    (h : Sound runs s.store) (hreaches : (Task.runSource n source s).Reaches task) :
    Sound runs task.session.store := by
  rcases Relation.ReflTransGen.cases_head hreaches with rfl | ⟨part, hpart, hrest⟩
  · exact h
  · cases n with
    | zero => simp [Task.parts] at hpart
    | succ n =>
        rcases runSource_cases n source s with ⟨hparts, _⟩ | ⟨p, u, hparts, hstore, _⟩
        · rw [hparts] at hpart
          cases hpart
        · rw [hparts, List.mem_singleton] at hpart
          rw [hpart] at hrest
          exact sound_of_interpret (hstore ▸ h) hrest

end Tasks

end Upkeep

/-- The states of a session are sound, whether it is offered native functions that
    have something carried out or not. -/
theorem Session.Reachable.sound {P : Native → Prop} {runs : Prop}
    (hP : ∀ action, P action → runs ∨ action.Leaf) {s : Session} (h : s.Reachable P) :
    Upkeep.Sound runs s.store := by
  induction h with
  | fresh clock muted logging =>
      exact ⟨Store.rooted_initial.set _ _ _,
        Session.holds_fresh clock muted logging (Or.inr Native.leaf_clock)⟩
  | registered name arity _ haction ih =>
      exact ih.set (v := .native _) Store.globals name (hP _ haction)
  | redirected echoed muted memory _ ih => exact ih
  | @ran n source s t _ ht ih => exact ((Upkeep.holds n).runSource source ih ht).1
  | @interpreted n p s t _ ht ih => exact (((Upkeep.holds n).interpret ih).left ht).sound
  | running _ hreaches ih => exact Upkeep.sound_of_runSource ih hreaches
  | interpreting _ hreaches ih => exact Upkeep.sound_of_interpret ih hreaches

end PocketScript
