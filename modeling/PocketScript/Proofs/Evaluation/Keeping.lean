import PocketScript.Proofs.Evaluation.Pairing
import PocketScript.Proofs.Value.Store

/-!
# What runs keep

A property of sessions that every run keeps, when every value it meets is of
some sort.

The sort of a value has to be a matter of the value alone, and values of the
sort have to be all that a program can make: data is of the sort, and so are
the functions it declares. Then every value bound in the store stays of the
sort. The property itself has to survive binding and removing names and opening
levels, and to depend on nothing but the store and the remarks. Native functions
of the sort leave both alone (`Outcome.Aside`).

Nothing new is run for this: such a property pairs every session with itself,
so it comes from `Pairing.together`.

## Main definitions

* `Outcome.session?`: The session that an outcome leaves.
* `Outcome.Aside`: A call of a native function that changes no bindings.
* `Session.fresh`: A session in which nothing has run, as a host sets it up.
* `Keeping`: A property that runs keep.
* `Keeping.Kept`: The session has the property and binds values of the sort.
* `Keeping.Ends`, `Keeping.EndsRun`: An outcome leaves such a session, and its
  fault may come up.

## Theorems

* `callNative_clock_aside`: The clock changes no bindings.
* `Session.holds_fresh`: All that a fresh session binds is the clock.
* `Keeping.Ends.kept`, `Keeping.EndsRun.kept`: The session left has the property.
* `Keeping.callFunction`: Calls keep the property.
* `Keeping.interpret`, `Keeping.runSource`: So do programs and sources.
-/

namespace PocketScript

/-- The session that an outcome leaves, if there is one. -/
def Outcome.session? {ε α : Type} : Outcome ε α → Option Session
  | ok _ t => some t
  | fault _ t => some t
  | starved => none

/-- Nothing was done to the store, to the remarks and to the calls under way. -/
structure Session.Aside (s t : Session) : Prop where
  store : t.store = s.store
  remarks : t.remarks = s.remarks
  calls : t.calls = s.calls

theorem Session.Aside.refl (s : Session) : s.Aside s := ⟨rfl, rfl, rfl⟩

theorem Session.Aside.trans {s t u : Session} (h : s.Aside t) (h' : t.Aside u) : s.Aside u :=
  ⟨h'.store.trans h.store, h'.remarks.trans h.remarks, h'.calls.trans h.calls⟩

/-- Asking for anything but a change of levels and bindings changes none. -/
theorem Session.reply_aside {q : Query} (hq : ¬ q.Changes) (held : List Value) (s : Session) :
    s.Aside (s.reply q held).session := by
  cases q with
  | bind level name v => exact absurd trivial hq
  | remove level name => exact absurd trivial hq
  | nest level => exact absurd trivial hq
  | _ => exact ⟨rfl, rfl, rfl⟩

/-- What a native function comes to that changes no bindings: a value of some sort,
    or a fault that may come up. -/
def Outcome.Aside (value : Value → Prop) (fault : RuntimeFault → Prop) (s : Session) :
    Outcome Fault Value → Prop
  | ok v t => value v ∧ s.Aside t
  | .fault e t => (∀ r, e = .runtime r → ∀ calls, fault (r.attach calls)) ∧ s.Aside t
  | starved => True

theorem Outcome.Aside.after {value : Value → Prop} {fault : RuntimeFault → Prop} {s t : Session}
    {o : Outcome Fault Value} (ht : s.Aside t) (h : o.Aside value fault t) :
    o.Aside value fault s := by
  cases o with
  | ok v u => exact ⟨h.1, ht.trans h.2⟩
  | fault e u => exact ⟨h.1, ht.trans h.2⟩
  | starved => trivial

/-- The clock gives a number and moves on. -/
theorem callNative_clock_aside {value : Value → Prop} (fault : RuntimeFault → Prop)
    (hdata : ∀ {v : Value}, v.isCallable = false → value v) (n : Nat) (faces : List Face)
    (held : List Value) (s : Session) :
    (callNative n (Native.clock faces) held s).Aside value fault s := by
  rcases n with _ | _ | n
  · simp only [callNative, Outcome.Aside]
  · simp only [Native.clock, callNative, Outcome.Aside]
  · simp only [Native.clock, callNative]
    exact ⟨hdata rfl, rfl, rfl, rfl⟩

namespace Session

/-- A session in which nothing has run, with a clock, with its output thrown
    away or not, and with runs logged or not. -/
def fresh (clock : Clock) (muted logging : Bool) : Session :=
  { initial with clock := clock, muted := muted, logging := logging }

theorem holds_fresh {P : Value → Prop} (clock : Clock) (muted logging : Bool)
    (hP : P (.native ⟨"clock", 0, .clock, 0⟩)) : (fresh clock muted logging).store.Holds P := by
  have hempty : Store.initial.Holds P := by
    intro id name v hv
    rw [Store.bindings_initial] at hv
    cases hv
  exact hempty.set Store.globals "clock" hP

theorem store_note (r : LogRecord) (s : Session) : (s.note r).store = s.store := by
  rw [note]
  split <;> rfl

theorem remarks_note (r : LogRecord) (s : Session) : (s.note r).remarks = s.remarks := by
  rw [note]
  split <;> rfl

theorem store_keepRemarks (rs : List GrammarFault) (s : Session) :
    (s.keepRemarks rs).store = s.store ∧ (s.keepRemarks rs).remarks = rs := by
  have hnotes : ∀ (more : List GrammarFault) (t : Session),
      (more.foldl (fun t r => t.note (.remark r.pos.line r.message)) t).store = t.store ∧
        (more.foldl (fun t r => t.note (.remark r.pos.line r.message)) t).remarks = t.remarks := by
    intro more
    induction more with
    | nil => exact fun t => ⟨rfl, rfl⟩
    | cons r more ih =>
        intro t
        rcases ih (t.note (.remark r.pos.line r.message)) with ⟨hstore, hremarks⟩
        exact ⟨hstore.trans (store_note _ t), hremarks.trans (remarks_note _ t)⟩
  exact hnotes rs _

theorem store_conclude (b : Bool) (s : Session) :
    (s.conclude b).store = s.store ∧ (s.conclude b).remarks = s.remarks := by
  rw [conclude]
  split
  · exact ⟨store_note _ _, remarks_note _ _⟩
  · exact ⟨rfl, rfl⟩

end Session

/-- A property that runs keep. -/
structure Keeping where
  /-- Levels that code is carried out in. -/
  level : LevelId → Prop
  /-- The sort of values that a run meets. -/
  value : Value → Prop
  /-- The property. -/
  session : Session → Prop := fun _ => True
  /-- Faults that may come up. -/
  fault : RuntimeFault → Prop := fun _ => True
  /-- Statements that may stand in a function, in a loop or not. -/
  stmt : (function : Text) → (inLoop : Bool) → Stmt → Prop := fun _ _ _ => True
  body : (function : Text) → (inLoop : Bool) → List Stmt → Prop := fun _ _ _ => True
  /-- May names be removed? -/
  deletes : Prop := True
  data : ∀ {v : Value}, v.isCallable = false → value v
  harmless : ∀ {f : Builtin}, value (.native f) → f.action.Inert
  native : ∀ {f : Builtin} {vs : List Value} {s : Session} (n : Nat), value (.native f) →
    (∀ v ∈ vs, value v) → s.store.Holds value →
    (callNative n (f.action (vs.map Value.shown)) vs s).Aside value fault s
  ordinary : ∀ {e : RuntimeFault} (calls : List Frame), e.cause ≠ .invalidControl →
    fault (e.attach calls) := by intros; trivial
  leave : ∀ {function k calls}, stmt function false (.leave k) → innermost calls = function →
    fault ((RuntimeFault.strayControl k).attach calls) := by intros; trivial
  next : ∀ {function k calls}, stmt function false (.next k) → innermost calls = function →
    fault ((RuntimeFault.strayControl k).attach calls) := by intros; trivial
  located : ∀ {e : RuntimeFault} (source : Text), fault e →
    fault (e.located source) := by intros; trivial
  loop : ∀ {function inLoop k e b}, stmt function inLoop (.loop k e b) →
    body function true b := by intros; trivial
  branch : ∀ {function inLoop k e b c}, stmt function inLoop (.branch k e b c) →
    body function inLoop b ∧ ∀ b' ∈ c, body function inLoop b' := by simp
  cons : ∀ {function inLoop st rest}, body function inLoop (st :: rest) →
    stmt function inLoop st ∧ (body function inLoop rest ∨ st.Diverts) := by simp
  function : ∀ {here function inLoop name params b stamp}, level here →
    stmt function inLoop (.function name params b) →
    value (.function ⟨name.lexeme, params, b, here, stamp⟩)
  called : ∀ {f : Closure}, value (.function f) → body f.name false f.body := by intros; trivial
  bind : ∀ {s l} (name : Text) (v : Value), session s → level l →
    session (s.bind l name v) := by intros; trivial
  remove : ∀ {s : Session} {l name store}, deletes → session s →
    s.store.remove l name = some store → session { s with store := store } := by intros; trivial
  openLevel : ∀ {s} (home : LevelId), session s → level s.store.levels.size ∧
    session { s with store := (s.store.openLevel (some home)).2 }
  same : ∀ {s t : Session}, session s → t.store = s.store → t.remarks = s.remarks →
    session t := by intros; trivial

namespace Keeping

variable (K : Keeping)

/-- The session has the property, and every value it binds is of the sort. -/
structure Kept (s : Session) : Prop where
  session : K.session s
  values : s.store.Holds K.value

/-- The outcome leaves a session with the property, and its fault is one that
    may come up. -/
def Ends {α : Type} : Outcome RuntimeFault α → Prop
  | .ok _ t => K.Kept t
  | .fault e t => K.fault e ∧ K.Kept t
  | .starved => True

/-- The same for the outcome of a source. There is no fault of any other stage. -/
def EndsRun : Outcome Fault Unit → Prop
  | .ok _ t => K.Kept t
  | .fault (.runtime e) t => K.fault e ∧ K.Kept t
  | .fault _ _ => False
  | .starved => True

variable {K}

theorem Ends.kept {α : Type} {o : Outcome RuntimeFault α} {t : Session} (h : K.Ends o)
    (ht : o.session? = some t) : K.Kept t := by
  cases o with
  | ok a u => exact Option.some.inj ht ▸ h
  | fault e u => exact Option.some.inj ht ▸ h.2
  | starved => cases ht

theorem EndsRun.kept {o : Outcome Fault Unit} {t : Session} (h : K.EndsRun o)
    (ht : o.session? = some t) : K.Kept t := by
  cases o with
  | ok a u => exact Option.some.inj ht ▸ h
  | starved => cases ht
  | fault e u =>
      cases e with
      | runtime e => exact Option.some.inj ht ▸ h.2
      | _ => exact h.elim

theorem Kept.same {s t : Session} (h : K.Kept s) (hstore : t.store = s.store)
    (hremarks : t.remarks = s.remarks) : K.Kept t :=
  ⟨K.same h.session hstore hremarks, hstore ▸ h.values⟩

variable (K)

/-- Every session paired with itself. -/
def pairing : Pairing where
  level l l' := l = l' ∧ K.level l
  value v v' := v = v' ∧ K.value v
  session s s' := s = s' ∧ K.Kept s
  fault := K.fault
  stmt := K.stmt
  body := K.body
  deletes := K.deletes
  face h := by rw [h.1]
  data hv := ⟨rfl, K.data hv⟩
  native := by
    rintro f vs vs' s _ n hf hvs ⟨rfl, hs⟩ -
    have heq : List.Forall₂ Eq vs vs' := hvs.imp fun v v' h => h.1
    rw [List.forall₂_eq_eq_eq] at heq
    subst heq
    have hcall := K.native n hf.2 (fun v hv => (List.forall₂_same.mp hvs v hv).2) hs.values
    have hkept : ∀ {t : Session}, s.Aside t → K.Kept t :=
      fun ht => hs.same ht.store ht.remarks
    generalize callNative n _ vs s = o at hcall ⊢
    cases o with
    | starved => exact .starved
    | ok v t => exact .ok ⟨rfl, hcall.1⟩ ⟨rfl, hkept hcall.2⟩ hcall.2.calls hcall.2.calls
    | fault e t =>
        exact .fault (fun r hr => hcall.1 r hr _) ⟨rfl, hkept hcall.2⟩ hcall.2.calls hcall.2.calls
  ordinary := K.ordinary
  leave := K.leave
  next := K.next
  loop := K.loop
  branch := K.branch
  cons := K.cons
  called h := K.called h.2
  lookup := by
    rintro s _ l _ name ⟨rfl, hs⟩ ⟨rfl, _⟩
    cases hv : s.store.lookup l name with
    | none => exact .none
    | some v => exact .some ⟨rfl, hs.values.lookup hv⟩
  bind := by
    rintro s _ l _ v _ name ⟨rfl, hs⟩ ⟨rfl, hl⟩ ⟨rfl, hv⟩
    exact ⟨rfl, K.bind name v hs.session hl, hs.values.set l name hv⟩
  remove := by
    rintro s _ l _ name hdeletes ⟨rfl, hs⟩ ⟨rfl, _⟩
    cases hremove : s.store.remove l name with
    | none => exact .none
    | some store =>
        exact .some ⟨rfl, K.remove hdeletes hs.session hremove, hs.values.remove hremove⟩
  declare := by
    rintro s _ l _ function inLoop name params b ⟨rfl, hs⟩ ⟨rfl, hl⟩ hst
    -- A declaration gives out a stamp and binds a function.
    have hstamp : K.Kept s.stamp.2 := hs.same rfl rfl
    have hvalue : K.value (.function ⟨name.lexeme, params, b, l, s.stamp.1⟩) := K.function hl hst
    exact ⟨rfl, K.bind name.lexeme _ hstamp.session hl, hstamp.values.set l name.lexeme hvalue⟩
  openLevel := by
    rintro s _ f f' ⟨rfl, hs⟩ ⟨hf, _⟩
    rw [Value.function.injEq] at hf
    subst hf
    rcases K.openLevel f.home hs.session with ⟨hlevel, hsession⟩
    exact ⟨⟨rfl, hlevel⟩, rfl, hsession, hs.values.openLevel _⟩
  echo := by
    rintro s _ line ⟨rfl, hs⟩
    refine ⟨rfl, hs.same ?_ ?_⟩ <;> rw [Session.echo] <;> split <;> rfl
  readClock := by
    rintro s _ ⟨rfl, hs⟩
    exact ⟨rfl, rfl, hs.same rfl rfl⟩
  calls := by
    rintro s _ cs ⟨rfl, hs⟩
    exact ⟨rfl, hs.same rfl rfl⟩

variable {K}

theorem ends_of_outcomes {α : Type} {calls : List Frame} {R : α → α → Prop}
    {o : Outcome RuntimeFault α} (h : K.pairing.Outcomes calls R o o) : K.Ends o := by
  cases h with
  | ok _ hs => exact hs.session.2
  | fault he hs => exact ⟨he, hs.session.2⟩
  | starved => trivial

/-- Calls keep the property. -/
theorem callFunction {n : Nat} {f : Closure} {vs : List Value} {paren : Token} {s : Session}
    (hquiet : K.deletes ∨ (Task.callFunction n f vs paren s).WithoutDelete)
    (hf : K.value (.function f)) (hvs : ∀ v ∈ vs, K.value v) (hs : K.Kept s) :
    K.Ends (callFunction n f vs paren s) := by
  have hargs : List.Forall₂ K.pairing.value vs vs :=
    List.forall₂_same.mpr fun v hv => ⟨rfl, hvs v hv⟩
  have hsessions : K.pairing.Sessions s.calls s s := ⟨⟨rfl, hs⟩, rfl, rfl⟩
  exact ends_of_outcomes ((K.pairing.together n).callFunction hquiet ⟨rfl, hf⟩ hargs hsessions)

/-- Programs keep the property. -/
theorem interpret {n : Nat} {p : List Stmt} {s : Session}
    (hquiet : K.deletes ∨ (Task.interpret n p s).WithoutDelete) (hl : K.level Store.globals)
    (hp : K.body RuntimeFault.scriptName false p) (hs : K.Kept s) :
    K.Ends (interpret n p s) :=
  ends_of_outcomes (Pairing.interpret hquiet ⟨rfl, hl⟩ hp ⟨rfl, hs⟩)

/-- Up to its first statement a source does nothing to the store. -/
theorem Kept.ready {s : Session} {ts : List Token} (p : List Stmt)
    (h : K.Kept { s with remarks := (parse ts).remarks }) :
    K.Kept ((s.begin.keepRemarks (parse ts).remarks).note (.parsed ts.length p.length)) := by
  rcases Session.store_keepRemarks (parse ts).remarks s.begin with ⟨hstore, hremarks⟩
  exact h.same ((Session.store_note _ _).trans hstore) ((Session.remarks_note _ _).trans hremarks)

/-- Sources that parse keep the property, if names may be removed. -/
theorem runSource {source : Text} {ts : List Token} {p : List Stmt}
    (hscan : Token.scan source = .ok ts) (hparse : (parse ts).outcome = .ok p)
    (hdeletes : K.deletes) (hl : K.level Store.globals)
    (hp : K.body RuntimeFault.scriptName false p) {s : Session}
    (hs : K.Kept { s with remarks := (parse ts).remarks }) (n : Nat) :
    K.EndsRun (runSource n source s) := by
  cases n with
  | zero =>
      simp only [PocketScript.runSource]
      trivial
  | succ n =>
      simp only [PocketScript.runSource, hscan, hparse]
      have hrun : K.Ends (PocketScript.interpret n p _) :=
        interpret (Or.inl hdeletes) hl hp (hs.ready p)
      generalize PocketScript.interpret n p _ = o at hrun ⊢
      cases o with
      | starved => trivial
      | ok a t =>
          have hconclude := Session.store_conclude true t
          exact hrun.same hconclude.1 hconclude.2
      | fault e t =>
          have hconclude := Session.store_conclude false t
          exact ⟨K.located source hrun.1, hrun.2.same hconclude.1 hconclude.2⟩

end Keeping

end PocketScript
