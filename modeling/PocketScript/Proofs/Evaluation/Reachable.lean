import PocketScript.Proofs.Evaluation.Keeping

/-!
# The states that a session can be in

A session starts fresh, is offered native functions, and runs sources and
programs, and every moment of a run is a state of it.

What runs keep holds at every such moment, not only at their ends. A task is
worked on in a session that has the property, at a level and on statements that
are fit for it, and what a task hands on is fit too. The parts of a task come
after what came of those before, so this takes both: that the parts before left
the property intact, and what they gave.

## Main definitions

* `Task.session`: The session in which a task starts.
* `Keeping.Fits`: A task that is fit for the property.
* `Session.Reachable`: The states of a session that is offered native functions
  of some sort.
* `Value.Inert`: A value that brings no native function that is not inert.
* `Keeping.ofInert`: Runs that meet inert values only and keep a property.

## Theorems

* `Keeping.Fits.part`: Parts of fit tasks are fit.
* `Keeping.Fits.reaches`: What holds at the start of a run holds throughout.
* `Session.Reachable.holds_inert`: A session that is offered nothing but inert
  functions binds nothing but those.
-/

namespace PocketScript

theorem Outcome.mem_leading {ε α : Type} {o : Outcome ε α} {f : α → Session → List Task}
    {part : Task} : part ∈ o.leading f ↔ ∃ a t, o = .ok a t ∧ part ∈ f a t := by
  cases o with
  | ok a t => simp [leading]
  | fault e t => simp [leading]
  | starved => simp [leading]

theorem Outcome.mem_leadingEither {ε : Type} {o : Outcome ε Unit}
    {f : Option ε → Session → List Task} {part : Task} :
    part ∈ o.leadingEither f ↔
      (∃ t, o = .ok () t ∧ part ∈ f none t) ∨ ∃ e t, o = .fault e t ∧ part ∈ f (some e) t := by
  cases o with
  | ok a t => simp [leadingEither]
  | fault e t => simp [leadingEither]
  | starved => simp [leadingEither]

/-- The session in which a task starts. -/
def Task.session : Task → Session
  | eval _ _ _ s => s
  | evalAll _ _ _ s => s
  | apply _ _ _ _ s => s
  | callFunction _ _ _ _ s => s
  | callNative _ _ _ s => s
  | exec _ _ _ s => s
  | execAll _ _ _ s => s
  | execLoop _ _ _ _ s => s
  | interpret _ _ s => s
  | runSource _ _ s => s

namespace Keeping

variable (K : Keeping)

/-- A task that is fit for the property: what it looks at and where it is worked
    on are as the property wants them. -/
def Fits : Task → Prop
  | .eval _ _ here s => K.level here ∧ K.Kept s
  | .evalAll _ _ here s => K.level here ∧ K.Kept s
  | .apply _ f args _ s => K.value f ∧ (∀ v ∈ args, K.value v) ∧ K.Kept s
  | .callFunction _ f args _ s =>
    K.value (.function f) ∧ (∀ v ∈ args, K.value v) ∧ K.Kept s
  | .callNative _ script _ s => script.Inert ∧ K.Kept s
  | .exec _ st here s =>
    K.level here ∧ (∃ inLoop, K.stmt (innermost s.calls) inLoop st) ∧ K.Kept s
  | .execAll _ b here s =>
    K.level here ∧ (∃ inLoop, K.body (innermost s.calls) inLoop b) ∧ K.Kept s
  | .execLoop _ _ b here s => K.level here ∧ K.body (innermost s.calls) true b ∧ K.Kept s
  | .interpret _ p s => K.level Store.globals ∧ K.body RuntimeFault.scriptName false p ∧ K.Kept s
  | .runSource _ source s => K.level Store.globals ∧ K.Kept s ∧
    ∀ ts p, Token.scan source = .ok ts → (parse ts).outcome = .ok p →
      K.body RuntimeFault.scriptName false p ∧ K.Kept { s with remarks := (parse ts).remarks }

variable {K}

theorem Fits.kept {task : Task} (h : K.Fits task) : K.Kept task.session := by
  cases task with
  | eval n e here s => exact h.2
  | evalAll n es here s => exact h.2
  | callNative n script held s => exact h.2
  | runSource n source s => exact h.2.1
  | _ => exact h.2.2

/-- What a result that belongs together with itself says of it. -/
theorem of_ok {α : Type} {calls : List Frame} {R : α → α → Prop} {o : Outcome RuntimeFault α}
    {a : α} {t : Session} (h : K.pairing.Outcomes calls R o o) (ho : o = .ok a t) :
    R a a ∧ K.Kept t ∧ t.calls = calls := by
  subst ho
  cases h with
  | ok ha ht => exact ⟨ha, ht.session.2, ht.left⟩

section

variable (hdeletes : K.deletes) {n : Nat} {here : LevelId} {s t : Session}
include hdeletes

theorem eval_ok (hl : K.level here) (hs : K.Kept s) {e : Expr} {v : Value}
    (h : eval n e here s = .ok v t) : K.value v ∧ K.Kept t ∧ t.calls = s.calls := by
  have htogether : K.pairing.Outcomes s.calls K.pairing.value (eval n e here s) (eval n e here s) :=
    (K.pairing.together n).eval (Or.inl hdeletes) ⟨rfl, hl⟩ ⟨⟨rfl, hs⟩, rfl, rfl⟩
  rcases of_ok htogether h with ⟨hv, ht, hcalls⟩
  exact ⟨hv.2, ht, hcalls⟩

theorem evalAll_ok (hl : K.level here) (hs : K.Kept s) {es : List Expr} {vs : List Value}
    (h : evalAll n es here s = .ok vs t) :
    (∀ v ∈ vs, K.value v) ∧ K.Kept t ∧ t.calls = s.calls := by
  have htogether : K.pairing.Outcomes s.calls (List.Forall₂ K.pairing.value)
      (evalAll n es here s) (evalAll n es here s) :=
    (K.pairing.together n).evalAll (Or.inl hdeletes) ⟨rfl, hl⟩ ⟨⟨rfl, hs⟩, rfl, rfl⟩
  rcases of_ok htogether h with ⟨hvs, ht, hcalls⟩
  exact ⟨fun v hv => (List.forall₂_same.mp hvs v hv).2, ht, hcalls⟩

theorem exec_ok (hl : K.level here) (hs : K.Kept s) {inLoop : Bool} {st : Stmt} {signal : Signal}
    (hst : K.stmt (innermost s.calls) inLoop st) (h : exec n st here s = .ok signal t) :
    K.Kept t ∧ t.calls = s.calls := by
  have htogether := (K.pairing.together n).exec (Or.inl hdeletes) ⟨rfl, hl⟩ hst
    (⟨⟨rfl, hs⟩, rfl, rfl⟩ : K.pairing.Sessions s.calls s s)
  exact (of_ok htogether h).2

theorem execAll_ok (hl : K.level here) (hs : K.Kept s) {inLoop : Bool} {b : List Stmt}
    {signal : Signal} (hb : K.body (innermost s.calls) inLoop b)
    (h : execAll n b here s = .ok signal t) : K.Kept t ∧ t.calls = s.calls := by
  have htogether := (K.pairing.together n).execAll (Or.inl hdeletes) ⟨rfl, hl⟩ hb
    (⟨⟨rfl, hs⟩, rfl, rfl⟩ : K.pairing.Sessions s.calls s s)
  exact (of_ok htogether h).2

end

section

variable (hdeletes : K.deletes) {n : Nat} {here : LevelId} {s : Session} {inner : Task}
include hdeletes

theorem fits_part_eval {e : Expr} (h : K.Fits (.eval (n + 1) e here s))
    (hpart : inner ∈ (Task.eval (n + 1) e here s).parts) : K.Fits inner := by
  rcases h with ⟨hl, hs⟩
  have hsame : ∀ e', K.Fits (.eval n e' here s) := fun _ => ⟨hl, hs⟩
  cases e with
  | constant v p => simp [Task.parts] at hpart
  | reference name => simp [Task.parts] at hpart
  | step operator name => simp [Task.parts] at hpart
  | grouping e p =>
      simp only [Task.parts, List.mem_singleton] at hpart
      exact hpart ▸ hsame e
  | assign name value =>
      simp only [Task.parts, List.mem_singleton] at hpart
      exact hpart ▸ hsame value
  | unary operator operand =>
      simp only [Task.parts, List.mem_singleton] at hpart
      exact hpart ▸ hsame operand
  | augmented name operator value =>
      simp only [Task.parts] at hpart
      split at hpart
      · rw [List.mem_singleton] at hpart
        exact hpart ▸ hsame value
      · simp at hpart
  | binary left operator right =>
      simp only [Task.parts, List.mem_cons, Outcome.mem_leading, List.not_mem_nil, or_false] at hpart
      rcases hpart with rfl | ⟨v, t, hleft, rfl⟩
      · exact hsame left
      · exact ⟨hl, (eval_ok hdeletes hl hs hleft).2.1⟩
  | logical left operator right =>
      simp only [Task.parts, List.mem_cons, Outcome.mem_leading] at hpart
      rcases hpart with rfl | ⟨v, t, hleft, hright⟩
      · exact hsame left
      · split at hright
        · simp at hright
        · rw [List.mem_singleton] at hright
          exact hright ▸ ⟨hl, (eval_ok hdeletes hl hs hleft).2.1⟩
  | call callee paren args =>
      simp only [Task.parts, List.mem_cons, Outcome.mem_leading, List.not_mem_nil, or_false] at hpart
      rcases hpart with rfl | ⟨f, t, hcallee, rfl | ⟨vs, u, hargs, rfl⟩⟩
      · exact hsame callee
      · exact ⟨hl, (eval_ok hdeletes hl hs hcallee).2.1⟩
      · -- The call starts after the callee and all arguments.
        rcases eval_ok hdeletes hl hs hcallee with ⟨hf, ht, _⟩
        rcases evalAll_ok hdeletes hl ht hargs with ⟨hvs, hu, _⟩
        exact ⟨hf, hvs, hu⟩

theorem fits_part_exec {st : Stmt} (h : K.Fits (.exec (n + 1) st here s))
    (hpart : inner ∈ (Task.exec (n + 1) st here s).parts) : K.Fits inner := by
  rcases h with ⟨hl, ⟨inLoop, hst⟩, hs⟩
  have heval : ∀ e, K.Fits (.eval n e here s) := fun _ => ⟨hl, hs⟩
  cases st with
  | function name params b => simp [Task.parts] at hpart
  | delete keyword targets => simp [Task.parts] at hpart
  | leave keyword => simp [Task.parts] at hpart
  | next keyword => simp [Task.parts] at hpart
  | giveBack keyword value =>
      cases value with
      | none => simp [Task.parts] at hpart
      | some value =>
          simp only [Task.parts, List.mem_singleton] at hpart
          exact hpart ▸ heval value
  | expression value =>
      simp only [Task.parts, List.mem_singleton] at hpart
      exact hpart ▸ heval value
  | echo keyword value =>
      simp only [Task.parts, List.mem_singleton] at hpart
      exact hpart ▸ heval value
  | loop keyword condition b =>
      simp only [Task.parts, List.mem_singleton] at hpart
      exact hpart ▸ ⟨hl, K.loop hst, hs⟩
  | branch keyword condition consequent alternate =>
      simp only [Task.parts, List.mem_cons, Outcome.mem_leading] at hpart
      rcases hpart with rfl | ⟨v, t, hcondition, htaken⟩
      · exact heval condition
      · -- The condition leaves the calls under way as they were, so the blocks
        -- still stand in the same function.
        rcases eval_ok hdeletes hl hs hcondition with ⟨_, ht, hcalls⟩
        rcases K.branch hst with ⟨hthen, helse⟩
        rw [← hcalls] at hthen helse
        split at htaken
        · rw [List.mem_singleton] at htaken
          exact htaken ▸ ⟨hl, ⟨inLoop, hthen⟩, ht⟩
        · cases alternate with
          | none => simp at htaken
          | some b =>
              rw [List.mem_singleton] at htaken
              exact htaken ▸ ⟨hl, ⟨inLoop, helse b rfl⟩, ht⟩

theorem fits_part_execLoop {e : Expr} {b : List Stmt} (h : K.Fits (.execLoop (n + 1) e b here s))
    (hpart : inner ∈ (Task.execLoop (n + 1) e b here s).parts) : K.Fits inner := by
  rcases h with ⟨hl, hb, hs⟩
  simp only [Task.parts, List.mem_cons, Outcome.mem_leading] at hpart
  rcases hpart with rfl | ⟨v, t, hcondition, hround⟩
  · exact ⟨hl, hs⟩
  · rcases eval_ok hdeletes hl hs hcondition with ⟨_, ht, hcalls⟩
    rw [← hcalls] at hb
    split at hround
    · rw [List.mem_cons, Outcome.mem_leading] at hround
      rcases hround with rfl | ⟨signal, u, hbody, hagain⟩
      · exact ⟨hl, ⟨true, hb⟩, ht⟩
      · rcases execAll_ok hdeletes hl ht hb hbody with ⟨hu, hcalls⟩
        rw [← hcalls] at hb
        -- A round that ended with a break or a return is the last.
        cases signal with
        | leave k => simp at hagain
        | giveBack v k => simp at hagain
        | normal =>
            simp only [List.mem_singleton] at hagain
            exact hagain ▸ ⟨hl, hb, hu⟩
        | next k =>
            simp only [List.mem_singleton] at hagain
            exact hagain ▸ ⟨hl, hb, hu⟩
    · simp at hround

omit hdeletes in
/-- The body of a function starts in a session with the property. -/
theorem kept_received {f : Closure} {args : List Value} (paren : Token)
    (hf : K.value (.function f)) (hargs : ∀ v ∈ args, K.value v) (hs : K.Kept s) :
    K.level s.store.levels.size ∧ K.Kept (s.received f args paren) ∧
      innermost (s.received f args paren).calls = f.name := by
  have hvalues : List.Forall₂ K.pairing.value args args :=
    List.forall₂_same.mpr fun v hv => ⟨rfl, hargs v hv⟩
  have hsessions : K.pairing.Sessions s.calls s s := ⟨⟨rfl, hs⟩, rfl, rfl⟩
  have hreceived := Pairing.received_sessions paren rfl rfl
    (⟨rfl, hf⟩ : K.pairing.value (.function f) (.function f)) hvalues hsessions
  refine ⟨(K.openLevel f.home hs.session).1, hreceived.session.2, ?_⟩
  rw [hreceived.left]
  rfl

/-- What a fit task hands on is fit. -/
theorem Fits.part {task : Task} (h : K.Fits task) (hpart : inner ∈ task.parts) : K.Fits inner := by
  -- With nothing left of its counter a task hands on nothing.
  cases task with
  | eval n e here s =>
      cases n with
      | zero => simp [Task.parts] at hpart
      | succ n => exact fits_part_eval hdeletes h hpart
  | evalAll n es here s =>
      cases n with
      | zero => simp [Task.parts] at hpart
      | succ n =>
          cases es with
          | nil => simp [Task.parts] at hpart
          | cons e es =>
              simp only [Task.parts, List.mem_cons, Outcome.mem_leading, List.not_mem_nil,
                or_false] at hpart
              rcases hpart with rfl | ⟨v, t, hfirst, rfl⟩
              · exact h
              · exact ⟨h.1, (eval_ok hdeletes h.1 h.2 hfirst).2.1⟩
  | apply n f args paren s =>
      cases n with
      | zero => simp [Task.parts] at hpart
      | succ n =>
          cases f with
          | function f =>
              simp only [Task.parts] at hpart
              split at hpart
              · rw [List.mem_singleton] at hpart
                exact hpart ▸ h
              · simp at hpart
          | native f =>
              simp only [Task.parts] at hpart
              split at hpart
              · rw [List.mem_singleton] at hpart
                exact hpart ▸ ⟨K.harmless h.1 _, h.2.2⟩
              · simp at hpart
          | _ => simp [Task.parts] at hpart
  | callFunction n f args paren s =>
      cases n with
      | zero => simp [Task.parts] at hpart
      | succ n =>
          simp only [Task.parts, List.mem_singleton] at hpart
          rcases h with ⟨hf, hargs, hs⟩
          rcases kept_received paren hf hargs hs with ⟨hlevel, hkept, hcalls⟩
          have hbody := K.called hf
          rw [← hcalls] at hbody
          exact hpart ▸ ⟨hlevel, ⟨false, hbody⟩, hkept⟩
  | callNative n script held s =>
      cases n with
      | zero => simp [Task.parts] at hpart
      | succ n =>
          rcases h with ⟨hscript, hs⟩
          cases script with
          | give v => simp [Task.parts] at hpart
          | fail e => simp [Task.parts] at hpart
          | run work next => exact hscript.1.elim
          | ask q next =>
              simp only [Task.parts, List.mem_singleton] at hpart
              have haside := s.reply_aside hscript.1 held
              exact hpart ▸ ⟨hscript.2 _, hs.same haside.store haside.remarks⟩
          | wrap name arity action next =>
              simp only [Task.parts, List.mem_singleton] at hpart
              exact hpart ▸ ⟨hscript.2, hs.same rfl rfl⟩
  | exec n st here s =>
      cases n with
      | zero => simp [Task.parts] at hpart
      | succ n => exact fits_part_exec hdeletes h hpart
  | execAll n b here s =>
      cases n with
      | zero => simp [Task.parts] at hpart
      | succ n =>
          cases b with
          | nil => simp [Task.parts] at hpart
          | cons st rest =>
              rcases h with ⟨hl, ⟨inLoop, hb⟩, hs⟩
              rcases K.cons hb with ⟨hst, hrest⟩
              simp only [Task.parts, List.mem_cons, Outcome.mem_leading] at hpart
              rcases hpart with rfl | ⟨signal, t, hfirst, hnext⟩
              · exact ⟨hl, ⟨inLoop, hst⟩, hs⟩
              · rcases exec_ok hdeletes hl hs hst hfirst with ⟨ht, hcalls⟩
                cases signal with
                | normal =>
                    -- The statement ended normally, so it is none that never does.
                    have hbody := hrest.resolve_right fun hdiverts => hdiverts n here s t hfirst
                    rw [← hcalls] at hbody
                    simp only [List.mem_singleton] at hnext
                    exact hnext ▸ ⟨hl, ⟨inLoop, hbody⟩, ht⟩
                | _ => simp at hnext
  | execLoop n e b here s =>
      cases n with
      | zero => simp [Task.parts] at hpart
      | succ n => exact fits_part_execLoop hdeletes h hpart
  | interpret n p s =>
      cases n with
      | zero => simp [Task.parts] at hpart
      | succ n =>
          simp only [Task.parts, List.mem_singleton] at hpart
          exact hpart ▸ ⟨h.1, ⟨false, h.2.1⟩, h.2.2.same rfl rfl⟩
  | runSource n source s =>
      cases n with
      | zero => simp [Task.parts] at hpart
      | succ n =>
          rcases h with ⟨hl, _, hprogram⟩
          simp only [Task.parts] at hpart
          cases hscan : Token.scan source with
          | error e => simp [hscan] at hpart
          | ok ts =>
              cases hparse : (parse ts).outcome with
              | error e => simp [hscan, hparse] at hpart
              | ok p =>
                  rcases hprogram ts p hscan hparse with ⟨hp, hs⟩
                  simp only [hscan, hparse, List.mem_singleton] at hpart
                  exact hpart ▸ ⟨hl, hp, hs.ready p⟩

/-- What is fit at the start of a run is fit throughout. -/
theorem Fits.reaches {task : Task} (h : K.Fits task) (hreaches : task.Reaches inner) :
    K.Fits inner := by
  induction hreaches with
  | refl => exact h
  | tail _ hstep ih => exact ih.part hdeletes hstep

end

end Keeping

namespace Value

/-- Anything but a native function that has something carried out or touches levels. -/
def Inert (v : Value) : Prop := ∀ f, v = native f → f.action.Inert

theorem inert_of_data {v : Value} (hv : v.isCallable = false) : v.Inert := by
  rintro f rfl
  cases hv

theorem inert_function (f : Closure) : (function f).Inert := nofun

theorem inert_native {f : Builtin} (h : f.action.Inert) : (native f).Inert := by
  rintro g ⟨⟩
  exact h

end Value

theorem Session.inert_shown {s : Session} (h : s.store.Holds Value.Inert) (q : Query)
    (held : List Value) : ∀ v ∈ (s.reply q held).shown, v.Inert := by
  cases q with
  | lookup level name =>
      intro v hv
      exact h.lookup (Option.mem_toList.mp hv)
  | make name params body home =>
      intro v hv
      exact List.mem_singleton.mp hv ▸ Value.inert_function _
  | remove level name =>
      simp only [Session.reply]
      split <;> exact fun v hv => absurd hv List.not_mem_nil
  | _ => exact fun v hv => absurd hv List.not_mem_nil

/-- An inert function that holds inert values gives one and changes no bindings. -/
theorem callNative_aside {n : Nat} {script : Script} {held : List Value} {s : Session}
    (hscript : script.Inert) (hheld : ∀ v ∈ held, v.Inert)
    (hs : s.store.Holds Value.Inert) :
    (callNative n script held s).Aside Value.Inert (fun _ => True) s := by
  induction n generalizing script held s with
  | zero =>
      simp only [callNative]
      trivial
  | succ n ih =>
      cases script with
      | give v =>
          simp only [callNative]
          exact ⟨Value.among_of Value.inert_of_data hheld v, .refl s⟩
      | fail e =>
          simp only [callNative]
          exact ⟨fun _ _ _ => trivial, .refl s⟩
      | run work next => exact hscript.1.elim
      | ask q next =>
          have haside := s.reply_aside hscript.1 held
          simp only [callNative]
          refine .after haside (ih (hscript.2 _) ?_ (haside.store ▸ hs))
          exact List.forall_mem_append.mpr ⟨hheld, Session.inert_shown hs q held⟩
      | wrap name arity action next =>
          have hmade : ∀ v ∈ [Value.native ⟨name, arity, action, s.stamps⟩], v.Inert :=
            List.forall_mem_singleton.mpr (Value.inert_native hscript.1)
          have haside : s.Aside s.stamp.2 := ⟨rfl, rfl, rfl⟩
          simp only [callNative]
          exact .after haside (ih hscript.2 (List.forall_mem_append.mpr ⟨hheld, hmade⟩) hs)

/-- Runs that meet inert values only and keep a property. Nothing is asked of
    statements and faults. -/
def Keeping.ofInert (level : LevelId → Prop) (session : Session → Prop) (deletes : Prop)
    (bind : ∀ {s l} (name : Text) (v : Value), session s → level l → session (s.bind l name v))
    (remove : ∀ {s : Session} {l name store}, deletes → session s →
      s.store.remove l name = some store → session { s with store := store })
    (openLevel : ∀ {s : Session} (home : LevelId), session s → level s.store.levels.size ∧
      session { s with store := (s.store.openLevel (some home)).2 })
    (same : ∀ {s t : Session}, session s → t.store = s.store → t.remarks = s.remarks →
      session t) : Keeping where
  level := level
  value := Value.Inert
  session := session
  deletes := deletes
  data := Value.inert_of_data
  harmless hf := hf _ rfl
  native n hf hvs hs := callNative_aside (hf _ rfl _) hvs hs
  function _ _ := Value.inert_function _
  bind := bind
  remove := remove
  openLevel := openLevel
  same := same

/-- Runs that meet inert values only. Nothing else is asked of them. -/
def Keeping.inert : Keeping :=
  .ofInert (fun _ => True) (fun _ => True) True (fun _ _ _ _ => trivial) (fun _ _ _ => trivial)
    (fun _ _ => ⟨trivial, trivial⟩) (fun _ _ _ => trivial)

namespace Session

/-- The states of a session that is offered native functions of the sort `P`:
    between runs, and at every moment of a run. -/
inductive Reachable (P : Native → Prop) : Session → Prop where
  | fresh (clock : Clock) (muted logging : Bool) :
      Reachable P (Session.fresh clock muted logging)
  /-- The host offers a function. -/
  | registered {s : Session} {action : Native} (name : Text) (arity : Int) :
      Reachable P s → P action → Reachable P (s.register name arity action)
  /-- The host sends the output elsewhere, or keeps something else. -/
  | redirected {s : Session} (echoed : Array Text) (muted : Bool) (memory : Text) :
      Reachable P s → Reachable P { s with echoed := echoed, muted := muted, memory := memory }
  | ran {n : Nat} {source : Text} {s t : Session} : Reachable P s →
      (runSource n source s).session? = some t → Reachable P t
  | interpreted {n : Nat} {p : List Stmt} {s t : Session} : Reachable P s →
      (interpret n p s).session? = some t → Reachable P t
  | running {n : Nat} {source : Text} {s : Session} {task : Task} : Reachable P s →
      (Task.runSource n source s).Reaches task → Reachable P task.session
  | interpreting {n : Nat} {p : List Stmt} {s : Session} {task : Task} : Reachable P s →
      (Task.interpret n p s).Reaches task → Reachable P task.session

/-- A source leaves inert values, whatever comes of it. -/
theorem holds_inert_of_runSource {n : Nat} {source : Text} {s t : Session}
    (h : s.store.Holds Value.Inert) (ht : (runSource n source s).session? = some t) :
    t.store.Holds Value.Inert := by
  cases n with
  | zero =>
      simp only [runSource] at ht
      cases ht
  | succ n =>
      cases hscan : Token.scan source with
      | error e =>
          simp only [runSource, hscan] at ht
          exact Option.some.inj ht ▸ h
      | ok ts =>
          cases hparse : (parse ts).outcome with
          | error e =>
              have hstore : (s.begin.keepRemarks (parse ts).remarks).store = s.store :=
                (store_keepRemarks _ _).1
              simp only [runSource, hscan, hparse] at ht
              exact Option.some.inj ht ▸ hstore ▸ h
          | ok p =>
              have hkept : Keeping.inert.Kept { s with remarks := (parse ts).remarks } :=
                ⟨trivial, h⟩
              have hends := Keeping.runSource hscan hparse trivial trivial trivial hkept (n + 1)
              exact (hends.kept ht).values

/-- A session that is offered inert functions only binds inert values only. -/
theorem Reachable.holds_inert {s : Session} (h : s.Reachable Native.Inert) :
    s.store.Holds Value.Inert := by
  induction h with
  | fresh clock muted logging =>
      exact holds_fresh clock muted logging (Value.inert_native Native.inert_clock)
  | registered name arity _ haction ih =>
      exact ih.set Store.globals name (Value.inert_native haction)
  | redirected echoed muted memory _ ih => exact ih
  | ran _ ht ih => exact holds_inert_of_runSource ih ht
  | @interpreted n p s t _ ht ih =>
      have hends : Keeping.inert.Ends (interpret n p s) :=
        Keeping.interpret (Or.inl trivial) trivial trivial ⟨trivial, ih⟩
      exact (hends.kept ht).values
  | @running n source s task _ hreaches ih =>
      have hfits : Keeping.inert.Fits (.runSource n source s) :=
        ⟨trivial, ⟨trivial, ih⟩, fun _ _ _ _ => ⟨trivial, trivial, ih⟩⟩
      exact (hfits.reaches trivial hreaches).kept.values
  | @interpreting n p s task _ hreaches ih =>
      have hfits : Keeping.inert.Fits (.interpret n p s) := ⟨trivial, trivial, trivial, ih⟩
      exact (hfits.reaches trivial hreaches).kept.values

end Session

end PocketScript
