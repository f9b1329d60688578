import Mathlib.Data.List.Forall2
import PocketScript.Proofs.Evaluation.Correspondence
import PocketScript.Proofs.Evaluation.Task

/-!
# One program in two sessions

A program run in two sessions does the same in both as long as nothing it
looks at tells the sessions apart.

`Correspondence` compares two programs and numbers levels and stamps alike on
both sides. Here the program is one and the numbering is free: a `Pairing` says
which levels, values and sessions belong together, and has to show that they
still do after each of the few things that a run does to a session. What a
program can look at in a value is its `face`, and values that belong together
have the same.

The calls under way are the same on both sides, so a fault is the same fault,
and a pairing can ask more of it. It can also ask something of statements, by
the function they are in and by whether a loop is around them; a break or
continue outside of every loop is what a call or a program ends up with. And it
need not allow names to be removed, in which case it speaks of runs without
delete statements only.

A property that runs keep is a pairing of every session with itself. That is
the other use of this, `Keeping`.

What a native function does is not taken apart. A pairing has to show that the
ones that it admits as values come out together, which leaves out those that run
sources and change the calls under way.

## Main definitions

* `Value.face`: What a program can see of a value.
* `innermost`: The function that is being carried out.
* `Pairing`: Sessions that a program cannot tell apart.
* `Pairing.Outcomes`: Outcomes that belong together.
* `Pairing.Together`: Everything comes out together with a given counter.

## Theorems

* `callNative_clock_reports`: The clock reads alike.
* `Pairing.together`: Everything comes out together.
* `Pairing.interpret`: Programs do too.
-/

namespace PocketScript

namespace Value

/-- What a program can see of a value: all but where and when a function was
    declared. -/
def face : Value → Value
  | function f => function { f with home := 0, stamp := 0 }
  | v => v

theorem kindName_face (v : Value) : v.face.kindName = v.kindName := by cases v <;> rfl

theorem text_face (v : Value) : v.face.text = v.text := by cases v <;> rfl

theorem truthy_face (v : Value) : v.face.truthy = v.truthy := by cases v <;> rfl

theorem step?_face (op : Kind) (v : Value) : v.face.step? op = v.step? op := by cases v <;> rfl

theorem unary?_face (op : Kind) (v : Value) : v.face.unary? op = v.unary? op := by
  cases v with
  | function f => cases op <;> rfl
  | _ => rfl

theorem binary?_face (op : Kind) (v w : Value) : binary? op v.face w.face = binary? op v w := by
  cases v <;> cases w <;> rfl

end Value

/-- The function that is being carried out, given the calls under way. -/
def innermost (calls : List Frame) : Text :=
  (calls.head?.map Frame.function).getD RuntimeFault.scriptName

/-- The first frame of a fault is where it happened. -/
theorem head?_framesAt (pos : Position) (calls : List Frame) :
    (RuntimeFault.framesAt pos calls).head? = some ⟨innermost calls, pos⟩ := by
  cases calls <;> rfl

/-- There is a frame more than there are calls. -/
theorem length_framesAt (pos : Position) (calls : List Frame) :
    (RuntimeFault.framesAt pos calls).length = calls.length + 1 := by
  simp [RuntimeFault.framesAt]

/-- What a call of a native function comes to in sessions that belong together,
    with the calls that were under way. -/
inductive Reports (value : Value → Value → Prop) (session : Session → Session → Prop)
    (fault : RuntimeFault → Prop) (calls : List Frame) :
    Outcome Fault Value → Outcome Fault Value → Prop where
  | ok {v v' : Value} {s s' : Session} : value v v' → session s s' → s.calls = calls →
      s'.calls = calls → Reports value session fault calls (.ok v s) (.ok v' s')
  | fault {e : Fault} {s s' : Session} : (∀ r, e = .runtime r → fault (r.attach calls)) →
      session s s' → s.calls = calls → s'.calls = calls →
      Reports value session fault calls (.fault e s) (.fault e s')
  | starved : Reports value session fault calls .starved .starved

/-- The clock gives the same number on both sides. -/
theorem callNative_clock_reports {value : Value → Value → Prop} {session : Session → Session → Prop}
    (fault : RuntimeFault → Prop) (hdata : ∀ {v : Value}, v.isCallable = false → value v v)
    (hread : ∀ {s s'}, session s s' →
      s.readClock.1 = s'.readClock.1 ∧ session s.readClock.2 s'.readClock.2)
    (n : Nat) (faces faces' : List Face) (held held' : List Value) {s s' : Session}
    (hs : session s s') (hcalls : s'.calls = s.calls) :
    Reports value session fault s.calls (callNative n (Native.clock faces) held s)
      (callNative n (Native.clock faces') held' s') := by
  rcases n with _ | _ | n
  · simp only [callNative]
    exact .starved
  · simp only [Native.clock, callNative]
    exact .starved
  · rcases hread hs with ⟨htime, hnext⟩
    simp only [Native.clock, callNative, Session.reply, htime]
    exact .ok (hdata rfl) hnext rfl hcalls

/-- Sessions that belong together, so that a program does the same in both. -/
structure Pairing where
  /-- Levels that code is carried out in. -/
  level : LevelId → LevelId → Prop
  value : Value → Value → Prop
  session : Session → Session → Prop
  /-- Faults that may come up. -/
  fault : RuntimeFault → Prop
  /-- Statements that may stand in a function, in a loop or not. -/
  stmt : (function : Text) → (inLoop : Bool) → Stmt → Prop
  body : (function : Text) → (inLoop : Bool) → List Stmt → Prop
  /-- May names be removed? -/
  deletes : Prop
  face : ∀ {v v'}, value v v' → v.face = v'.face
  data : ∀ {v : Value}, v.isCallable = false → value v v
  native : ∀ {f : Builtin} {vs vs' s s'} (n : Nat), value (.native f) (.native f) →
    List.Forall₂ value vs vs' → session s s' → s'.calls = s.calls →
    Reports value session fault s.calls (callNative n (f.action (vs.map Value.shown)) vs s)
      (callNative n (f.action (vs'.map Value.shown)) vs' s')
  ordinary : ∀ {e : RuntimeFault} (calls : List Frame), e.cause ≠ .invalidControl →
    fault (e.attach calls)
  leave : ∀ {function k calls}, stmt function false (.leave k) → innermost calls = function →
    fault ((RuntimeFault.strayControl k).attach calls)
  next : ∀ {function k calls}, stmt function false (.next k) → innermost calls = function →
    fault ((RuntimeFault.strayControl k).attach calls)
  loop : ∀ {function inLoop k e b}, stmt function inLoop (.loop k e b) → body function true b
  branch : ∀ {function inLoop k e b c}, stmt function inLoop (.branch k e b c) →
    body function inLoop b ∧ ∀ b' ∈ c, body function inLoop b'
  cons : ∀ {function inLoop st rest}, body function inLoop (st :: rest) →
    stmt function inLoop st ∧ (body function inLoop rest ∨ st.Diverts)
  called : ∀ {f f' : Closure}, value (.function f) (.function f') → body f.name false f.body
  lookup : ∀ {s s' l l'} (name : Text), session s s' → level l l' →
    Option.Rel value (s.store.lookup l name) (s'.store.lookup l' name)
  bind : ∀ {s s' l l' v v'} (name : Text), session s s' → level l l' → value v v' →
    session (s.bind l name v) (s'.bind l' name v')
  remove : ∀ {s s' l l'} (name : Text), deletes → session s s' → level l l' →
    Option.Rel (fun store store' => session { s with store := store } { s' with store := store' })
      (s.store.remove l name) (s'.store.remove l' name)
  declare : ∀ {s s' l l' function inLoop name params b}, session s s' → level l l' →
    stmt function inLoop (.function name params b) →
    session (declare l name params b s) (PocketScript.declare l' name params b s')
  openLevel : ∀ {s s'} {f f' : Closure}, session s s' → value (.function f) (.function f') →
    level s.store.levels.size s'.store.levels.size ∧
      session { s with store := (s.store.openLevel (some f.home)).2 }
        { s' with store := (s'.store.openLevel (some f'.home)).2 }
  echo : ∀ {s s'} (line : Text), session s s' → session (s.echo line) (s'.echo line)
  readClock : ∀ {s s'}, session s s' →
    s.readClock.1 = s'.readClock.1 ∧ session s.readClock.2 s'.readClock.2
  calls : ∀ {s s'} (cs : List Frame), session s s' →
    session { s with calls := cs } { s' with calls := cs }

namespace Pairing

variable (P : Pairing)

/-- Sessions that belong together, with given calls under way. -/
structure Sessions (calls : List Frame) (s s' : Session) : Prop where
  session : P.session s s'
  left : s.calls = calls
  right : s'.calls = calls

/-- Ways for a statement to end that belong together. A break or continue that
    no loop receives makes a fault that may come up. -/
inductive Signals (calls : List Frame) (inLoop : Bool) : Signal → Signal → Prop where
  | normal : Signals calls inLoop .normal .normal
  | giveBack {v v' : Value} (k : Token) : P.value v v' →
      Signals calls inLoop (.giveBack v k) (.giveBack v' k)
  | leave {k : Token} : (inLoop = false → P.fault ((RuntimeFault.strayControl k).attach calls)) →
      Signals calls inLoop (.leave k) (.leave k)
  | next {k : Token} : (inLoop = false → P.fault ((RuntimeFault.strayControl k).attach calls)) →
      Signals calls inLoop (.next k) (.next k)

/-- Outcomes that belong together. -/
inductive Outcomes {α : Type} (calls : List Frame) (R : α → α → Prop) :
    Outcome RuntimeFault α → Outcome RuntimeFault α → Prop where
  | ok {a a' : α} {s s' : Session} : R a a' → P.Sessions calls s s' →
      Outcomes calls R (.ok a s) (.ok a' s')
  | fault {e : RuntimeFault} {s s' : Session} : P.fault e → P.Sessions calls s s' →
      Outcomes calls R (.fault e s) (.fault e s')
  | starved : Outcomes calls R .starved .starved

/-- If names may not be removed, the task carries out no delete statement. -/
def Quiet (task : Task) : Prop := P.deletes ∨ task.WithoutDelete

variable {P}

theorem Quiet.part {task part : Task} (h : P.Quiet task) (hpart : part ∈ task.parts) :
    P.Quiet part :=
  h.imp_right fun hwithout => hwithout.part hpart

section

variable {calls : List Frame} {s s' : Session} {α β : Type} {R : α → α → Prop} {Q : β → β → Prop}

theorem Sessions.bind (h : P.Sessions calls s s') {l l' : LevelId} {v v' : Value} (name : Text)
    (hl : P.level l l') (hv : P.value v v') :
    P.Sessions calls (s.bind l name v) (s'.bind l' name v') :=
  ⟨P.bind name h.session hl hv, h.left, h.right⟩

/-- Outcomes that belong together go on together. What comes after knows which
    result there was. -/
theorem Outcomes.andThen {o o' : Outcome RuntimeFault α}
    {f f' : α → Session → Outcome RuntimeFault β} (h : P.Outcomes calls R o o')
    (hf : ∀ {a a' s s'}, o = .ok a s → R a a' → P.Sessions calls s s' →
      P.Outcomes calls Q (f a s) (f' a' s')) :
    P.Outcomes calls Q (o.andThen f) (o'.andThen f') := by
  cases h with
  | ok ha hs => exact hf rfl ha hs
  | fault he hs => exact .fault he hs
  | starved => exact .starved

theorem Outcomes.raise (h : P.Sessions calls s s') {e : RuntimeFault}
    (he : e.cause ≠ .invalidControl) : P.Outcomes calls R (s.raise e) (s'.raise e) := by
  simp only [Session.raise, h.left, h.right]
  exact .fault (P.ordinary calls he) h

theorem Outcomes.data (h : P.Sessions calls s s') {v : Value} (hv : v.isCallable = false) :
    P.Outcomes calls P.value (.ok v s) (.ok v s') :=
  .ok (P.data hv) h

/-- A name has values that belong together on both sides, or none on either. -/
theorem get_cases (h : P.Sessions calls s s') {l l' : LevelId} (hl : P.level l l') (t : Token) :
    (∃ v v', s.store.get l t = .ok v ∧ s'.store.get l' t = .ok v' ∧ P.value v v') ∨
      (s.store.get l t = .error (.undefined t) ∧ s'.store.get l' t = .error (.undefined t)) := by
  have hlookup := P.lookup t.lexeme h.session hl
  rw [Store.get, Store.get]
  generalize s.store.lookup l t.lexeme = v at hlookup ⊢
  generalize s'.store.lookup l' t.lexeme = v' at hlookup ⊢
  cases hlookup with
  | none => exact Or.inr ⟨rfl, rfl⟩
  | some hv => exact Or.inl ⟨_, _, rfl, rfl, hv⟩

theorem bindAll_sessions {l l' : LevelId} (hl : P.level l l') (params : List Token)
    {vs vs' : List Value} (hvs : List.Forall₂ P.value vs vs') (h : P.Sessions calls s s') :
    P.Sessions calls (bindAll l params vs s) (bindAll l' params vs' s') := by
  induction params generalizing vs vs' s s' with
  | nil => exact h
  | cons p params ih =>
      cases hvs with
      | nil => exact h
      | cons hv hvs => exact ih hvs (h.bind p.lexeme hl hv)

/-- The body of a function starts in sessions that belong together. -/
theorem received_sessions {f f' : Closure} {vs vs' : List Value} (paren : Token)
    (hname : f.name = f'.name) (hparams : f.params = f'.params)
    (hf : P.value (.function f) (.function f')) (hvs : List.Forall₂ P.value vs vs')
    (h : P.Sessions calls s s') :
    P.Sessions (⟨f.name, paren.pos⟩ :: calls) (s.received f vs paren)
      (s'.received f' vs' paren) := by
  rcases P.openLevel h.session hf with ⟨hlevel, hopened⟩
  have hsessions : P.Sessions calls { s with store := (s.store.openLevel (some f.home)).2 }
      { s' with store := (s'.store.openLevel (some f'.home)).2 } := ⟨hopened, h.left, h.right⟩
  have hbound := bindAll_sessions hlevel f.params hvs hsessions
  have hcalls := P.calls (⟨f.name, paren.pos⟩ :: calls) hbound.session
  rw [Session.received, Session.received, ← hname, ← hparams]
  simp only [Session.enter, hbound.left, hbound.right]
  exact ⟨hcalls, rfl, rfl⟩

/-- A call is left with the calls that were under way before it. -/
theorem finishCall_outcomes {frame : Frame} {o o' : Outcome RuntimeFault Signal}
    (h : P.Outcomes (frame :: calls) (P.Signals (frame :: calls) false) o o') :
    P.Outcomes calls P.value (finishCall o) (finishCall o') := by
  have hleave : ∀ {t t' : Session}, P.Sessions (frame :: calls) t t' →
      P.Sessions calls t.leave t'.leave := by
    intro t t' ht
    have hcalls := P.calls calls ht.session
    simp only [Session.leave, ht.left, ht.right, List.tail_cons]
    exact ⟨hcalls, rfl, rfl⟩
  cases h with
  | starved => exact .starved
  | fault he ht => exact .fault he (hleave ht)
  | @ok signal signal' t t' hsignal ht =>
      cases hsignal with
      | normal => exact .ok (P.data rfl) (hleave ht)
      | giveBack k hv => exact .ok hv (hleave ht)
      | leave hstray =>
          simp only [finishCall, ht.left, ht.right]
          exact .fault (hstray rfl) (hleave ht)
      | next hstray =>
          simp only [finishCall, ht.left, ht.right]
          exact .fault (hstray rfl) (hleave ht)

theorem deleteAll_outcomes (hdeletes : P.deletes) {l l' : LevelId} (hl : P.level l l')
    (inLoop : Bool) (ts : List Token) (h : P.Sessions calls s s') :
    P.Outcomes calls (P.Signals calls inLoop) (deleteAll l ts s) (deleteAll l' ts s') := by
  induction ts generalizing s s' with
  | nil => exact .ok .normal h
  | cons t ts ih =>
      have hremove := P.remove t.lexeme hdeletes h.session hl
      rw [deleteAll, deleteAll, Store.delete, Store.delete]
      generalize s.store.remove l t.lexeme = r at hremove ⊢
      generalize s'.store.remove l' t.lexeme = r' at hremove ⊢
      cases hremove with
      | none => exact .raise h (by simp [RuntimeFault.undefined])
      | some hstore => exact ih ⟨hstore, h.left, h.right⟩

end

variable (P) in
/-- With counter `n`, everything comes out together. -/
structure Together (n : Nat) : Prop where
  eval : ∀ {calls e here here' s s'}, P.Quiet (.eval n e here s) → P.level here here' →
    P.Sessions calls s s' → P.Outcomes calls P.value (eval n e here s) (eval n e here' s')
  evalAll : ∀ {calls es here here' s s'}, P.Quiet (.evalAll n es here s) → P.level here here' →
    P.Sessions calls s s' →
    P.Outcomes calls (List.Forall₂ P.value) (evalAll n es here s) (evalAll n es here' s')
  apply : ∀ {calls f f' vs vs' paren s s'}, P.Quiet (.apply n f vs paren s) → P.value f f' →
    List.Forall₂ P.value vs vs' → P.Sessions calls s s' →
    P.Outcomes calls P.value (apply n f vs paren s) (apply n f' vs' paren s')
  callFunction : ∀ {calls f f' vs vs' paren s s'}, P.Quiet (.callFunction n f vs paren s) →
    P.value (.function f) (.function f') → List.Forall₂ P.value vs vs' → P.Sessions calls s s' →
    P.Outcomes calls P.value (callFunction n f vs paren s) (callFunction n f' vs' paren s')
  exec : ∀ {calls inLoop st here here' s s'}, P.Quiet (.exec n st here s) → P.level here here' →
    P.stmt (innermost calls) inLoop st → P.Sessions calls s s' →
    P.Outcomes calls (P.Signals calls inLoop) (exec n st here s) (exec n st here' s')
  execAll : ∀ {calls inLoop b here here' s s'}, P.Quiet (.execAll n b here s) →
    P.level here here' → P.body (innermost calls) inLoop b → P.Sessions calls s s' →
    P.Outcomes calls (P.Signals calls inLoop) (execAll n b here s) (execAll n b here' s')
  execLoop : ∀ {calls e b here here' s s'} (inLoop : Bool), P.Quiet (.execLoop n e b here s) →
    P.level here here' → P.body (innermost calls) true b → P.Sessions calls s s' →
    P.Outcomes calls (P.Signals calls inLoop) (execLoop n e b here s) (execLoop n e b here' s')

theorem together_zero : P.Together 0 := by
  constructor
  all_goals
    intros
    simp only [eval, evalAll, apply, callFunction, exec, execAll, execLoop]
    exact .starved

/-- A call of a native function that a pairing admits. -/
theorem applyNative_outcomes {n : Nat} {calls : List Frame} {f : Builtin} {vs vs' : List Value}
    {s s' : Session} (paren : Token) (hf : P.value (.native f) (.native f))
    (hvs : List.Forall₂ P.value vs vs') (hs : P.Sessions calls s s') :
    P.Outcomes calls P.value (apply (n + 1) (.native f) vs paren s)
      (apply (n + 1) (.native f) vs' paren s') := by
  simp only [apply, hvs.length_eq]
  split
  · have hcall := P.native n hf hvs hs.session (hs.right.trans hs.left.symm)
    rw [hs.left] at hcall
    generalize callNative n _ vs s = o at hcall ⊢
    generalize callNative n _ vs' s' = o' at hcall ⊢
    cases hcall with
    | starved => exact .starved
    | ok hv ht hleft hright => exact .ok hv ⟨ht, hleft, hright⟩
    | @fault e t t' he ht hleft hright =>
        -- Only the fault of a running program goes on as it is.
        cases e with
        | runtime e =>
            simp only [Session.raise, hleft, hright]
            exact .fault (he e rfl) ⟨ht, hleft, hright⟩
        | _ => exact .raise ⟨ht, hleft, hright⟩ (by simp [RuntimeFault.nativeFailed])
  · exact .raise hs (by simp [RuntimeFault.wrongArity])

section

variable {n : Nat} (ih : P.Together n) {calls : List Frame} {s s' : Session}
  {here here' : LevelId}
include ih

theorem eval_together {e : Expr} (hquiet : P.Quiet (.eval (n + 1) e here s))
    (hl : P.level here here') (hs : P.Sessions calls s s') :
    P.Outcomes calls P.value (eval (n + 1) e here s) (eval (n + 1) e here' s') := by
  cases e with
  | constant v p =>
      simp only [eval]
      exact .data hs (Value.isCallable_ofLiteral v)
  | grouping inner p =>
      simp only [eval]
      exact ih.eval (hquiet.part (by simp [Task.parts])) hl hs
  | reference name =>
      simp only [eval]
      rcases get_cases hs hl name with ⟨v, v', hv, hv', hvalue⟩ | ⟨hnone, hnone'⟩
      · simp only [hv, hv']
        exact .ok hvalue hs
      · simp only [hnone, hnone']
        exact .raise hs (by simp [RuntimeFault.undefined])
  | assign name value =>
      simp only [eval]
      refine (ih.eval (hquiet.part (by simp [Task.parts])) hl hs).andThen ?_
      intro v v' t t' _ hv ht
      exact .ok hv (ht.bind name.lexeme hl hv)
  | augmented name operator value =>
      simp only [eval]
      rcases get_cases hs hl name with ⟨v, v', hv, hv', hvalue⟩ | ⟨hnone, hnone'⟩
      · simp only [hv, hv']
        refine (ih.eval (hquiet.part (by simp [Task.parts, hv])) hl hs).andThen ?_
        intro w w' t t' _ hw ht
        -- The operator sees nothing but faces.
        have hbinary : (operator.kind.underlying?.bind fun op => Value.binary? op v w) =
            operator.kind.underlying?.bind fun op => Value.binary? op v' w' := by
          congr 1
          funext op
          rw [← Value.binary?_face, P.face hvalue, P.face hw, Value.binary?_face]
        rw [← Value.kindName_face v', ← P.face hvalue, Value.kindName_face,
          ← Value.kindName_face w', ← P.face hw, Value.kindName_face, ← hbinary]
        cases hresult : operator.kind.underlying?.bind fun op => Value.binary? op v w with
        | none => exact .raise ht (by simp [RuntimeFault.badOperands])
        | some r =>
            rcases Option.bind_eq_some_iff.mp hresult with ⟨op, _, hop⟩
            have hr := P.data (Value.isCallable_of_binary? hop)
            exact .ok hr (ht.bind name.lexeme hl hr)
      · simp only [hnone, hnone']
        exact .raise hs (by simp [RuntimeFault.undefined])
  | step operator name =>
      simp only [eval]
      rcases get_cases hs hl name with ⟨v, v', hv, hv', hvalue⟩ | ⟨hnone, hnone'⟩
      · simp only [hv, hv']
        rw [← Value.step?_face operator.kind v', ← Value.kindName_face v', ← P.face hvalue,
          Value.step?_face, Value.kindName_face]
        cases hresult : v.step? operator.kind with
        | none => exact .raise hs (by simp [RuntimeFault.badOperand])
        | some r =>
            have hr := P.data (Value.isCallable_of_step? hresult)
            exact .ok hr (hs.bind name.lexeme hl hr)
      · simp only [hnone, hnone']
        exact .raise hs (by simp [RuntimeFault.undefined])
  | unary operator operand =>
      simp only [eval]
      refine (ih.eval (hquiet.part (by simp [Task.parts])) hl hs).andThen ?_
      intro v v' t t' _ hv ht
      rw [← Value.unary?_face operator.kind v', ← Value.kindName_face v', ← P.face hv,
        Value.unary?_face, Value.kindName_face]
      cases hresult : v.unary? operator.kind with
      | none => exact .raise ht (by simp [RuntimeFault.badOperand])
      | some r => exact .data ht (Value.isCallable_of_unary? hresult)
  | binary left operator right =>
      simp only [eval]
      refine (ih.eval (hquiet.part (by simp [Task.parts])) hl hs).andThen ?_
      intro v v' t t' hleft hv ht
      have hpart : P.Quiet (.eval n right here t) :=
        hquiet.part (by simp [Task.parts, Outcome.leading, hleft])
      refine (ih.eval hpart hl ht).andThen ?_
      intro w w' u u' _ hw hu
      rw [← Value.binary?_face operator.kind v' w', ← Value.kindName_face v',
        ← Value.kindName_face w', ← P.face hv, ← P.face hw, Value.binary?_face,
        Value.kindName_face, Value.kindName_face]
      cases hresult : Value.binary? operator.kind v w with
      | none => exact .raise hu (by simp [RuntimeFault.badOperands])
      | some r => exact .data hu (Value.isCallable_of_binary? hresult)
  | logical left operator right =>
      simp only [eval]
      refine (ih.eval (hquiet.part (by simp [Task.parts])) hl hs).andThen ?_
      intro v v' t t' hleft hv ht
      rw [← Value.truthy_face v', ← P.face hv, Value.truthy_face]
      split
      · exact .ok hv ht
      · rename_i htruthy
        exact ih.eval (hquiet.part (by simp [Task.parts, Outcome.leading, hleft, htruthy])) hl ht
  | call callee paren args =>
      simp only [eval]
      refine (ih.eval (hquiet.part (by simp [Task.parts])) hl hs).andThen ?_
      intro f f' t t' hcallee hf ht
      have hargs : P.Quiet (.evalAll n args here t) :=
        hquiet.part (by simp [Task.parts, Outcome.leading, hcallee])
      refine (ih.evalAll hargs hl ht).andThen ?_
      intro vs vs' u u' hresults hvs hu
      exact ih.apply (hquiet.part (by simp [Task.parts, Outcome.leading, hcallee, hresults]))
        hf hvs hu

theorem evalAll_together {es : List Expr} (hquiet : P.Quiet (.evalAll (n + 1) es here s))
    (hl : P.level here here') (hs : P.Sessions calls s s') :
    P.Outcomes calls (List.Forall₂ P.value) (evalAll (n + 1) es here s)
      (evalAll (n + 1) es here' s') := by
  cases es with
  | nil =>
      simp only [evalAll]
      exact .ok .nil hs
  | cons e es =>
      simp only [evalAll]
      refine (ih.eval (hquiet.part (by simp [Task.parts])) hl hs).andThen ?_
      intro v v' t t' hfirst hv ht
      have hrest : P.Quiet (.evalAll n es here t) :=
        hquiet.part (by simp [Task.parts, Outcome.leading, hfirst])
      refine (ih.evalAll hrest hl ht).andThen ?_
      intro vs vs' u u' _ hvs hu
      exact .ok (.cons hv hvs) hu

theorem apply_together {f f' : Value} {vs vs' : List Value} {paren : Token}
    (hquiet : P.Quiet (.apply (n + 1) f vs paren s)) (hf : P.value f f')
    (hvs : List.Forall₂ P.value vs vs') (hs : P.Sessions calls s s') :
    P.Outcomes calls P.value (apply (n + 1) f vs paren s) (apply (n + 1) f' vs' paren s') := by
  -- Values with the same face are of one kind.
  have hface := P.face hf
  cases f <;> cases f' <;> simp only [Value.face, reduceCtorEq, Value.function.injEq,
    Value.native.injEq, Closure.mk.injEq] at hface
  case function.function f f' =>
    simp only [apply, ← hface.2.1, ← hvs.length_eq]
    by_cases harity : f.params.length = vs.length
    · rw [if_pos harity, if_pos harity]
      exact ih.callFunction (hquiet.part (by simp [Task.parts, harity])) hf hvs hs
    · rw [if_neg harity, if_neg harity]
      exact .raise hs (by simp [RuntimeFault.wrongArity])
  case native.native f f' =>
    subst hface
    exact applyNative_outcomes paren hf hvs hs
  all_goals
    simp only [apply]
    exact .raise hs (by simp [RuntimeFault.uncallable])

theorem callFunction_together {f f' : Closure} {vs vs' : List Value} {paren : Token}
    (hquiet : P.Quiet (.callFunction (n + 1) f vs paren s))
    (hf : P.value (.function f) (.function f')) (hvs : List.Forall₂ P.value vs vs')
    (hs : P.Sessions calls s s') :
    P.Outcomes calls P.value (callFunction (n + 1) f vs paren s)
      (callFunction (n + 1) f' vs' paren s') := by
  have hface := P.face hf
  simp only [Value.face, Value.function.injEq, Closure.mk.injEq] at hface
  rcases hface with ⟨hname, hparams, hbody, _⟩
  rw [callFunction_eq_finishCall, callFunction_eq_finishCall, ← hbody]
  have hreceived := received_sessions paren hname hparams hf hvs hs
  have hcalled : P.body (innermost (⟨f.name, paren.pos⟩ :: calls)) false f.body := P.called hf
  exact finishCall_outcomes (ih.execAll (hquiet.part (by simp))
    (P.openLevel hs.session hf).1 hcalled hreceived)

theorem exec_together {inLoop : Bool} {st : Stmt} (hquiet : P.Quiet (.exec (n + 1) st here s))
    (hl : P.level here here') (hst : P.stmt (innermost calls) inLoop st)
    (hs : P.Sessions calls s s') :
    P.Outcomes calls (P.Signals calls inLoop) (exec (n + 1) st here s)
      (exec (n + 1) st here' s') := by
  cases st with
  | function name params b =>
      simp only [exec]
      exact .ok .normal ⟨P.declare hs.session hl hst, hs.left, hs.right⟩
  | giveBack keyword value =>
      cases value with
      | none =>
          simp only [exec]
          exact .ok (.giveBack keyword (P.data rfl)) hs
      | some value =>
          simp only [exec]
          refine (ih.eval (hquiet.part (by simp [Task.parts])) hl hs).andThen ?_
          intro v v' t t' _ hv ht
          exact .ok (.giveBack keyword hv) ht
  | delete keyword targets =>
      simp only [exec]
      -- Without permission to remove names this statement is not reached.
      have hdeletes : P.deletes :=
        hquiet.resolve_right fun hwithout => hwithout _ .refl trivial
      exact deleteAll_outcomes hdeletes hl inLoop targets hs
  | loop keyword condition b =>
      simp only [exec]
      exact ih.execLoop inLoop (hquiet.part (by simp [Task.parts])) hl (P.loop hst) hs
  | branch keyword condition consequent alternate =>
      simp only [exec]
      refine (ih.eval (hquiet.part (by simp [Task.parts])) hl hs).andThen ?_
      intro v v' t t' hcondition hv ht
      rw [← Value.truthy_face v', ← P.face hv, Value.truthy_face]
      rcases P.branch hst with ⟨hthen, helse⟩
      by_cases htruthy : v.truthy = true
      · rw [if_pos htruthy, if_pos htruthy]
        exact ih.execAll (hquiet.part (by simp [Task.parts, Outcome.leading, hcondition, htruthy]))
          hl hthen ht
      · rw [if_neg htruthy, if_neg htruthy]
        cases alternate with
        | none => exact .ok .normal ht
        | some b =>
            exact ih.execAll
              (hquiet.part (by simp [Task.parts, Outcome.leading, hcondition, htruthy])) hl
              (helse b rfl) ht
  | expression value =>
      simp only [exec]
      refine (ih.eval (hquiet.part (by simp [Task.parts])) hl hs).andThen ?_
      intro v v' t t' _ _ ht
      exact .ok .normal ht
  | echo keyword value =>
      simp only [exec]
      refine (ih.eval (hquiet.part (by simp [Task.parts])) hl hs).andThen ?_
      intro v v' t t' _ hv ht
      rw [← Value.text_face v', ← P.face hv, Value.text_face]
      have hcalls : ∀ u : Session, (u.echo v.text).calls = u.calls := by
        intro u
        rw [Session.echo]
        split <;> rfl
      exact .ok .normal ⟨P.echo v.text ht.session, (hcalls t).trans ht.left,
        (hcalls t').trans ht.right⟩
  | leave keyword =>
      simp only [exec]
      refine .ok (.leave ?_) hs
      rintro rfl
      exact P.leave hst rfl
  | next keyword =>
      simp only [exec]
      refine .ok (.next ?_) hs
      rintro rfl
      exact P.next hst rfl

theorem execAll_together {inLoop : Bool} {b : List Stmt}
    (hquiet : P.Quiet (.execAll (n + 1) b here s)) (hl : P.level here here')
    (hb : P.body (innermost calls) inLoop b) (hs : P.Sessions calls s s') :
    P.Outcomes calls (P.Signals calls inLoop) (execAll (n + 1) b here s)
      (execAll (n + 1) b here' s') := by
  cases b with
  | nil =>
      simp only [execAll]
      exact .ok .normal hs
  | cons st rest =>
      simp only [execAll]
      rcases P.cons hb with ⟨hst, hrest⟩
      refine (ih.exec (hquiet.part (by simp [Task.parts])) hl hst hs).andThen ?_
      intro signal signal' t t' hfirst hsignal ht
      cases hsignal with
      | normal =>
          -- The statement ended normally, so it is none that never does.
          have hbody := hrest.resolve_right fun hdiverts => hdiverts n here s t hfirst
          exact ih.execAll (hquiet.part (by simp [Task.parts, Outcome.leading, hfirst])) hl hbody ht
      | giveBack k hv => exact .ok (.giveBack k hv) ht
      | leave hstray => exact .ok (.leave hstray) ht
      | next hstray => exact .ok (.next hstray) ht

theorem execLoop_together {e : Expr} {b : List Stmt} (inLoop : Bool)
    (hquiet : P.Quiet (.execLoop (n + 1) e b here s)) (hl : P.level here here')
    (hb : P.body (innermost calls) true b) (hs : P.Sessions calls s s') :
    P.Outcomes calls (P.Signals calls inLoop) (execLoop (n + 1) e b here s)
      (execLoop (n + 1) e b here' s') := by
  simp only [execLoop]
  refine (ih.eval (hquiet.part (by simp [Task.parts])) hl hs).andThen ?_
  intro v v' t t' hcondition hv ht
  rw [← Value.truthy_face v', ← P.face hv, Value.truthy_face]
  by_cases htruthy : v.truthy = true
  · rw [if_pos htruthy, if_pos htruthy]
    have hround : P.Quiet (.execAll n b here t) :=
      hquiet.part (by simp [Task.parts, Outcome.leading, hcondition, htruthy])
    refine (ih.execAll hround hl hb ht).andThen ?_
    intro signal signal' u u' hbody hsignal hu
    cases hsignal with
    | normal =>
        exact ih.execLoop inLoop
          (hquiet.part (by simp [Task.parts, Outcome.leading, hcondition, htruthy, hbody])) hl hb hu
    | next _ =>
        exact ih.execLoop inLoop
          (hquiet.part (by simp [Task.parts, Outcome.leading, hcondition, htruthy, hbody])) hl hb hu
    | leave _ => exact .ok .normal hu
    | giveBack k hv => exact .ok (.giveBack k hv) hu
  · rw [if_neg htruthy, if_neg htruthy]
    exact .ok .normal ht

theorem together_succ : P.Together (n + 1) where
  eval := eval_together ih
  evalAll := evalAll_together ih
  apply := apply_together ih
  callFunction := callFunction_together ih
  exec := exec_together ih
  execAll := execAll_together ih
  execLoop := execLoop_together ih

end

variable (P) in
/-- A program comes out together in sessions that belong together. -/
theorem together (n : Nat) : P.Together n := by
  induction n with
  | zero => exact together_zero
  | succ n ih => exact together_succ ih

/-- The same for a program at the outermost level. -/
theorem interpret {n : Nat} {p : List Stmt} {s s' : Session} (hquiet : P.Quiet (.interpret n p s))
    (hl : P.level Store.globals Store.globals) (hp : P.body RuntimeFault.scriptName false p)
    (hs : P.session s s') :
    P.Outcomes [] (fun _ _ => True) (interpret n p s) (PocketScript.interpret n p s') := by
  cases n with
  | zero =>
      simp only [PocketScript.interpret]
      exact .starved
  | succ n =>
      simp only [PocketScript.interpret]
      have hstart : P.Sessions [] { s with calls := [] } { s' with calls := [] } :=
        ⟨P.calls [] hs, rfl, rfl⟩
      have hbody : P.body (innermost []) false p := hp
      refine ((P.together n).execAll (hquiet.part (by simp)) hl hbody hstart).andThen ?_
      intro signal signal' t t' _ hsignal ht
      cases hsignal with
      | normal => exact .ok trivial ht
      | giveBack k hv => exact .ok trivial ht
      | leave hstray =>
          simp only [Session.raise, ht.left, ht.right]
          exact .fault (hstray rfl) ht
      | next hstray =>
          simp only [Session.raise, ht.left, ht.right]
          exact .fault (hstray rfl) ht

end Pairing

end PocketScript
