import PocketScript.Proofs.Evaluation.Reachable
import PocketScript.Proofs.Value.Rooted

/-!
# What every task keeps in order

A session is sound if its levels are rooted and every function that it binds was
declared in one of them. Sound is not a matter of values alone, as the sorts of
`Keeping` are: a function that is in order in one store may be out of order in a
smaller one. So this needs an argument of its own, and the argument carries more
than that the session is sound afterwards. What comes after has all levels of
what came before, at the same places, and the same calls under way, unless a
native function is on offer that has something carried out in the middle of a call.

`Goes` says everything about one task at once, because the cases are the same for
all of it: which tasks it hands on and in what state, what it comes to, and where
a fault comes from. A fault is handed on from a part as it is, or else it starts
to travel here and records the calls that are under way inside the task.

Whether native functions have anything carried out is a parameter. Sessions stay
sound in any case. If none does, the calls under way are kept too.

## Main definitions

* `Task.inside`: The session that the parts of a task start from.
* `Task.fault?`, `Task.left?`: What a task comes to.
* `Value.Lives`: A value that is in order in a store.
* `Upkeep.Sound`, `Upkeep.After`: Sessions in order, and what can come after one.
* `Upkeep.Fits`: A task that starts in order.
* `Upkeep.Goes`: How a task goes.

## Theorems

* `Upkeep.After.trans`, `Upkeep.After.bind` and their neighbours: What comes after
  a session, change by change.
* `Upkeep.Goes.ok`, `Upkeep.Goes.raise`: A task that ends at once.
* `Upkeep.Goes.andThen`: A task that does one part and goes on.
* `Task.counter_lt_of_mem_parts`: Parts have smaller counters.
-/

namespace PocketScript

namespace Session

theorem calls_note (r : LogRecord) (s : Session) : (s.note r).calls = s.calls := by
  rw [note]
  split <;> rfl

theorem calls_keepRemarks (rs : List GrammarFault) (s : Session) :
    (s.keepRemarks rs).calls = s.calls := by
  have hnotes : ∀ (more : List GrammarFault) (t : Session),
      (more.foldl (fun t r => t.note (.remark r.pos.line r.message)) t).calls = t.calls := by
    intro more
    induction more with
    | nil => exact fun t => rfl
    | cons r more ih => exact fun t => (ih (t.note _)).trans (calls_note _ t)
  exact hnotes rs _

end Session

/-- The fault that a computation came to, if it did. -/
def Outcome.fault? {ε α : Type} : Outcome ε α → Option ε
  | ok _ _ => none
  | fault e _ => some e
  | starved => none

namespace Task

/-- What is left of the counter when a task starts. -/
def counter : Task → Nat
  | eval n _ _ _ => n
  | evalAll n _ _ _ => n
  | apply n _ _ _ _ => n
  | callFunction n _ _ _ _ => n
  | callNative n _ _ _ => n
  | exec n _ _ _ => n
  | execAll n _ _ _ => n
  | execLoop n _ _ _ _ => n
  | interpret n _ _ => n
  | runSource n _ _ => n

theorem counter_lt_of_mem_parts {task part : Task} (h : part ∈ task.parts) :
    part.counter < task.counter := by
  unfold Task.parts at h
  split at h <;> (try split at h) <;>
    grind [Outcome.mem_leading, Outcome.mem_leadingEither, Task.counter]

/-- The session that the parts of a task start from. A call is under way inside
    itself, and inside a program no call is under way that was made before. -/
def inside : Task → Session
  | callFunction _ f _ paren s => s.enter f.name paren.pos
  | interpret _ _ s => { s with calls := [] }
  | task => task.session

/-- The fault that a task comes to. What a native function or a source reports
    is not a fault of the running program. -/
def fault? : Task → Option RuntimeFault
  | eval n e here s => (PocketScript.eval n e here s).fault?
  | evalAll n es here s => (PocketScript.evalAll n es here s).fault?
  | apply n f args paren s => (PocketScript.apply n f args paren s).fault?
  | callFunction n f args paren s => (PocketScript.callFunction n f args paren s).fault?
  | callNative _ _ _ _ => none
  | exec n st here s => (PocketScript.exec n st here s).fault?
  | execAll n b here s => (PocketScript.execAll n b here s).fault?
  | execLoop n e b here s => (PocketScript.execLoop n e b here s).fault?
  | interpret n p s => (PocketScript.interpret n p s).fault?
  | runSource _ _ _ => none

/-- The session that a task leaves, with a result or with a fault. -/
def left? : Task → Option Session
  | eval n e here s => (PocketScript.eval n e here s).session?
  | evalAll n es here s => (PocketScript.evalAll n es here s).session?
  | apply n f args paren s => (PocketScript.apply n f args paren s).session?
  | callFunction n f args paren s => (PocketScript.callFunction n f args paren s).session?
  | callNative n action args s => (PocketScript.callNative n action args s).session?
  | exec n st here s => (PocketScript.exec n st here s).session?
  | execAll n b here s => (PocketScript.execAll n b here s).session?
  | execLoop n e b here s => (PocketScript.execLoop n e b here s).session?
  | interpret n p s => (PocketScript.interpret n p s).session?
  | runSource n source s => (PocketScript.runSource n source s).session?

/-- The session after parts that are worked on one after the other. -/
def lastOf? (s : Session) : List Task → Option Session
  | [] => some s
  | part :: rest => part.left?.bind fun t => lastOf? t rest

/-- The task is a call of a native function that fails with a fault that has frames
    already. -/
def Foreign : Task → Prop
  | apply (n + 1) (.native f) args _ s => f.arity = args.length ∧
    ∃ e t, PocketScript.callNative n (f.action (args.map Value.shown)) args s =
      .fault (.runtime e) t ∧ e.frames ≠ none
  | _ => False

end Task

/-- The value is in order in a store: a function was declared in one of its levels,
    and a native function has nothing carried out, if that is not allowed. -/
def Value.Lives (runs : Prop) (s : Store) : Value → Prop
  | function f => f.home < s.levels.size
  | native f => runs ∨ f.action.Leaf
  | _ => True

theorem Value.lives_of_data {runs : Prop} {s : Store} {v : Value}
    (h : v.isCallable = false) : v.Lives runs s := by
  cases v <;> trivial

theorem Value.Lives.mono {runs : Prop} {s t : Store} {v : Value} (h : v.Lives runs s)
    (hgrows : s.Grows t) : v.Lives runs t := by
  cases v with
  | function f => exact hgrows.lt_size h
  | _ => exact h

namespace Upkeep

variable (runs : Prop)

/-- Levels are rooted, and all values that they bind are in order. -/
structure Sound (s : Store) : Prop where
  rooted : s.Rooted
  values : s.Holds (Value.Lives runs s)

/-- The second session is sound and can come after the first: all levels are
    where they were, and so are the calls under way, unless native functions have
    something carried out. -/
structure After (s t : Session) : Prop where
  sound : Sound runs t.store
  grows : s.store.Grows t.store
  calls : runs ∨ t.calls = s.calls

/-- How a computation ends: after `s`, and with a result of some sort. -/
def Ends {ε α : Type} (s : Session) (R : Store → α → Prop) : Outcome ε α → Prop
  | .ok a t => After runs s t ∧ R t.store a
  | .fault _ t => After runs s t
  | .starved => True

/-- Values that are all in order. -/
def AllLive (s : Store) (vs : List Value) : Prop := ∀ v ∈ vs, v.Lives runs s

/-- A value that is handed on is in order. -/
def Carries (s : Store) : Signal → Prop
  | .giveBack v _ => v.Lives runs s
  | _ => True

/-- A task that starts in order. A source is run inside a run only if native functions
    do so. -/
def Fits : Task → Prop
  | .eval _ _ here s => here < s.store.levels.size ∧ Sound runs s.store
  | .evalAll _ _ here s => here < s.store.levels.size ∧ Sound runs s.store
  | .apply _ f args _ s => f.Lives runs s.store ∧ AllLive runs s.store args ∧ Sound runs s.store
  | .callFunction _ f args _ s =>
    f.home < s.store.levels.size ∧ AllLive runs s.store args ∧ Sound runs s.store
  | .callNative _ script held s => (runs ∨ script.Leaf) ∧
    AllLive runs s.store held ∧ Sound runs s.store
  | .exec _ _ here s => here < s.store.levels.size ∧ Sound runs s.store
  | .execAll _ _ here s => here < s.store.levels.size ∧ Sound runs s.store
  | .execLoop _ _ _ here s => here < s.store.levels.size ∧ Sound runs s.store
  | .interpret _ _ s => runs ∧ Sound runs s.store
  | .runSource _ _ s => runs ∧ Sound runs s.store

/-- What is handed on, one part after the other: the first starts after `s`, and
    each further one after what the one before has left. -/
def Hands (s : Session) : List Task → Prop
  | [] => True
  | part :: rest => Fits runs part ∧ After runs s part.session ∧
      ((part.left? = none ∧ rest = []) ∨ ∃ t, part.left? = some t ∧ Hands t rest)

/-- How a task goes that hands on `parts`: what it hands on is in order, it ends
    in order, and what it leaves comes after what the last part has left. -/
structure Leads {ε α : Type} (inside outside : Session) (parts : List Task)
    (R : Store → α → Prop) (o : Outcome ε α) : Prop where
  hands : Hands runs inside parts
  ends : Ends runs outside R o
  settles : ∀ t, o.session? = some t → ∃ u, Task.lastOf? inside parts = some u ∧
    u.store.Grows t.store

/-- A fault that starts to travel records the calls under way, unless it has come
    from a native function with frames. -/
def Starts (s : Session) (foreign : Prop) (e : RuntimeFault) : Prop :=
  ∃ (e₀ : RuntimeFault) (t : Session), After runs s t ∧ e = e₀.attach t.calls ∧
    (e₀.frames = none ∨ foreign)

/-- The same for a task of the running program, with the origin of its faults: a
    fault comes from a part or starts here. -/
structure Goes {α : Type} (inside outside : Session) (parts : List Task) (foreign : Prop)
    (R : Store → α → Prop) (o : Outcome RuntimeFault α) : Prop
    extends Leads runs inside outside parts R o where
  origin : ¬ runs → ∀ e, o.fault? = some e → (∃ part ∈ parts, part.fault? = some e) ∨
    ((∀ part ∈ parts, part.fault? = none) ∧ Starts runs inside foreign e)

/-- The first part of a task, and what comes of it. -/
structure Begins {α : Type} (s : Session) (first : Task) (R : Store → α → Prop)
    (o : Outcome RuntimeFault α) : Prop where
  fits : Fits runs first
  after : After runs s first.session
  left : first.left? = o.session?
  fault : first.fault? = o.fault?
  ends : Ends runs first.session R o

variable {runs}

section Laws

variable {s t u : Session}

theorem After.refl (h : Sound runs s.store) : After runs s s := ⟨h, .refl _, Or.inr rfl⟩

theorem After.trans (hst : After runs s t) (htu : After runs t u) : After runs s u := by
  refine ⟨htu.sound, hst.grows.trans htu.grows, ?_⟩
  rcases hst.calls with h | h
  · exact Or.inl h
  · exact htu.calls.imp_right fun h' => h'.trans h

theorem After.here (h : After runs s t) : After runs t t := .refl h.sound

theorem After.lt_size (h : After runs s t) {id : LevelId} (hid : id < s.store.levels.size) :
    id < t.store.levels.size := h.grows.lt_size hid

/-- The log, the clock and the output do not matter. -/
theorem After.same (h : After runs s t) (hstore : u.store = t.store) (hcalls : u.calls = t.calls) :
    After runs s u := by
  refine ⟨hstore ▸ h.sound, hstore ▸ h.grows, ?_⟩
  rw [hcalls]
  exact h.calls

/-- What is bound stays in order in a store that has grown. -/
theorem Sound.grown {store grown : Store} (h : Sound runs store) (hgrows : store.Grows grown) :
    store.Holds (Value.Lives runs grown) :=
  fun id name v hv => (h.values id name v hv).mono hgrows

theorem Sound.set {store : Store} (h : Sound runs store) (l : LevelId) (name : Text) {v : Value}
    (hv : v.Lives runs store) : Sound runs (store.set l name v) := by
  have hgrows := store.grows_set l name v
  exact ⟨h.rooted.set l name v, (h.grown hgrows).set l name (hv.mono hgrows)⟩

theorem After.bind (h : After runs s t) (l : LevelId) (name : Text) {v : Value}
    (hv : v.Lives runs t.store) : After runs s (t.bind l name v) :=
  ⟨h.sound.set l name hv, h.grows.trans (t.store.grows_set l name v), h.calls⟩

theorem After.remove (h : After runs s t) {here : LevelId} {name : Text} {store : Store}
    (hremove : t.store.remove here name = some store) : After runs s { t with store := store } := by
  have hgrows := Store.grows_remove hremove
  exact ⟨⟨h.sound.rooted.remove hremove, (h.sound.grown hgrows).remove hremove⟩,
    h.grows.trans hgrows, h.calls⟩

theorem After.openLevel (h : After runs s t) {home : LevelId} (hhome : home < t.store.levels.size) :
    After runs s { t with store := (t.store.openLevel (some home)).2 } := by
  have hgrows := t.store.grows_openLevel (some home)
  exact ⟨⟨h.sound.rooted.openLevel hhome, (h.sound.grown hgrows).openLevel _⟩,
    h.grows.trans hgrows, h.calls⟩

theorem After.echo (h : After runs s t) (line : Text) : After runs s (t.echo line) := by
  refine h.same ?_ ?_ <;> rw [Session.echo] <;> split <;> rfl

/-- A declaration binds a function that was declared at an existing level. -/
theorem After.declare (h : After runs s t) {here : LevelId} (hl : here < t.store.levels.size)
    (name : Token) (params : List Token) (b : List Stmt) :
    After runs s (declare here name params b t) := by
  have hstamp : After runs s t.stamp.2 := h.same rfl rfl
  have hlives : Value.Lives runs t.store (.function ⟨name.lexeme, params, b, here, t.stamp.1⟩) := hl
  exact hstamp.bind here name.lexeme hlives

/-- A call that is left leaves the calls that were under way before it. -/
theorem After.leave {function : Text} {pos : Position} (h : After runs (s.enter function pos) t) :
    After runs s t.leave := by
  refine ⟨h.sound, h.grows, h.calls.imp_right fun hcalls => ?_⟩
  rw [Session.leave, hcalls]
  rfl

theorem After.bindAll (level : LevelId) (params : List Token) {args : List Value}
    (h : After runs s t) (hargs : AllLive runs t.store args) :
    After runs s (bindAll level params args t) := by
  induction params generalizing args t with
  | nil => exact h
  | cons p params ih =>
      cases args with
      | nil => exact h
      | cons v args =>
          rw [AllLive, List.forall_mem_cons] at hargs
          have hgrows := t.store.grows_set level p.lexeme v
          exact ih (h.bind level p.lexeme hargs.1) fun w hw => (hargs.2 w hw).mono hgrows

/-- What a host asks for is done at a level that there is. -/
theorem standing_lt (h : s.store.Rooted) (level : LevelId) :
    s.standing level < s.store.levels.size := by
  rw [Session.standing]
  split
  · assumption
  · exact h.globals_lt

/-- Whatever a native function asks for, the session that answers stays in order, and
    the values that it shows are. -/
theorem After.reply (h : Sound runs s.store) (q : Query) {held : List Value}
    (hheld : AllLive runs s.store held) :
    After runs s (s.reply q held).session ∧
      AllLive runs (s.reply q held).session.store (s.reply q held).shown := by
  have hs : After runs s s := .refl h
  have hnone : ∀ store, AllLive runs store [] := fun _ _ hv => absurd hv List.not_mem_nil
  cases q with
  | time => exact ⟨hs.same rfl rfl, hnone _⟩
  | kept => exact ⟨hs, hnone _⟩
  | remember t => exact ⟨hs.same rfl rfl, hnone _⟩
  | remarks => exact ⟨hs, hnone _⟩
  | mute muted => exact ⟨hs.same rfl rfl, hnone _⟩
  | names level => exact ⟨hs, hnone _⟩
  | outer level => exact ⟨hs, hnone _⟩
  | nest level => exact ⟨hs.openLevel (standing_lt h.rooted level), hnone _⟩
  | lookup level name =>
      exact ⟨hs, fun v hv => h.values.lookup (Option.mem_toList.mp hv)⟩
  | bind level name v =>
      exact ⟨hs.bind level name (Value.among_of Value.lives_of_data hheld v), hnone _⟩
  | remove level name =>
      simp only [Session.reply]
      cases hremove : s.store.remove level name with
      | none => exact ⟨hs, hnone _⟩
      | some store => exact ⟨hs.remove hremove, hnone _⟩
  | make name params body home =>
      exact ⟨hs.same rfl rfl, List.forall_mem_singleton.mpr (standing_lt h.rooted home)⟩

/-- The body of a function starts with the call under way, at a level of its
    own. -/
theorem after_received {f : Closure} {args : List Value} (paren : Token) (hs : Sound runs s.store)
    (hf : f.home < s.store.levels.size) (hargs : AllLive runs s.store args) :
    After runs (s.enter f.name paren.pos) (s.received f args paren) ∧
      s.store.levels.size < (s.received f args paren).store.levels.size := by
  have hopen := (After.refl hs).openLevel hf
  have hsize : s.store.levels.size < (s.store.openLevel (some f.home)).2.levels.size := by
    rw [Store.size_openLevel]
    exact Nat.lt_succ_self _
  have hbound := After.bindAll s.store.levels.size f.params (After.refl hopen.sound)
    fun v hv => (hargs v hv).mono hopen.grows
  refine ⟨⟨hbound.sound, hopen.grows.trans hbound.grows, ?_⟩,
    hbound.grows.lt_size hsize⟩
  exact hbound.calls.imp_right fun hcalls => congrArg (List.cons _) hcalls

theorem Ends.trans {ε α : Type} {R : Store → α → Prop} {o : Outcome ε α} (hst : After runs s t)
    (h : Ends runs t R o) : Ends runs s R o := by
  cases o with
  | ok a u => exact ⟨hst.trans h.1, h.2⟩
  | fault e u => exact hst.trans h
  | starved => trivial

theorem Ends.left {ε α : Type} {R : Store → α → Prop} {o : Outcome ε α} (h : Ends runs s R o)
    (ht : o.session? = some t) : After runs s t := by
  cases o with
  | ok a u => exact Option.some.inj ht ▸ h.1
  | fault e u => exact Option.some.inj ht ▸ h
  | starved => cases ht

end Laws

section Ways

variable {α β : Type} {s t : Session} {first : Task} {R : Store → α → Prop}
  {Q : Store → β → Prop} {o : Outcome RuntimeFault α}

theorem Leads.nothing {ε : Type} {o : Outcome ε α} (h : Ends runs s R o) :
    Leads runs s s [] R o := by
  exact ⟨trivial, h, fun t ht => ⟨s, rfl, (h.left ht).grows⟩⟩

/-- A task that comes to its result by itself. -/
theorem Goes.ok {a : α} (h : After runs s t) (ha : R t.store a) :
    Goes runs s s [] False R (.ok a t) :=
  ⟨.nothing ⟨h, ha⟩, by simp [Outcome.fault?]⟩

/-- A task in which a fault starts to travel. -/
theorem Goes.raise {e : RuntimeFault} (h : After runs s t) (he : e.frames = none) :
    Goes runs s s [] False R (t.raise e) := by
  refine ⟨.nothing h, fun _ e' he' => Or.inr ⟨by simp, ?_⟩⟩
  exact ⟨e, t, h, (Option.some.inj he').symm, Or.inl he⟩

theorem hands_singleton (hfits : Fits runs first) (hafter : After runs s first.session) :
    Hands runs s [first] := by
  refine ⟨hfits, hafter, ?_⟩
  cases hleft : first.left? with
  | none => exact Or.inl ⟨rfl, rfl⟩
  | some t => exact Or.inr ⟨t, rfl, trivial⟩

/-- A task that hands on one part and does nothing more to the store. -/
theorem Leads.single {ε : Type} {o : Outcome ε α} (hhands : Hands runs s [first])
    (hends : Ends runs t R o)
    (hstore : ∀ v, o.session? = some v → ∃ u, first.left? = some u ∧ v.store = u.store) :
    Leads runs s t [first] R o := by
  refine ⟨hhands, hends, fun v hv => ?_⟩
  rcases hstore v hv with ⟨u, hleft, hsame⟩
  refine ⟨u, ?_, hsame ▸ .refl _⟩
  rw [Task.lastOf?, hleft]
  rfl

theorem Leads.only {ε : Type} {o : Outcome ε α} (hfits : Fits runs first)
    (hafter : After runs s first.session) (hleft : first.left? = o.session?)
    (hends : Ends runs first.session R o) : Leads runs s s [first] R o :=
  .single (hands_singleton hfits hafter) (hends.trans hafter) fun v hv => ⟨v, hleft.trans hv, rfl⟩

/-- A task that hands everything on. -/
theorem Goes.only (h : Begins runs s first R o) : Goes runs s s [first] False R o :=
  ⟨.only h.fits h.after h.left h.ends,
    fun _ e he => Or.inl ⟨first, by simp, h.fault.trans he⟩⟩

/-- A task that does one part and goes on with what came of it. -/
theorem Goes.andThen {f : α → Session → Outcome RuntimeFault β} {g : α → Session → List Task}
    (h : Begins runs s first R o)
    (hrest : ∀ a t, After runs s t → R t.store a → Goes runs t t (g a t) False Q (f a t)) :
    Goes runs s s (first :: o.leading g) False Q (o.andThen f) := by
  have hends := h.ends.trans h.after
  cases o with
  | starved =>
      exact .only ⟨h.fits, h.after, h.left, h.fault, trivial⟩
  | fault e t =>
      -- What the part has come to is what the task comes to.
      exact .only ⟨h.fits, h.after, h.left, h.fault, h.ends⟩
  | ok a t =>
      have hgoes := hrest a t hends.1 hends.2
      refine ⟨⟨⟨h.fits, h.after, Or.inr ⟨t, h.left, hgoes.hands⟩⟩,
        hgoes.ends.trans hends.1, fun t' ht' => ?_⟩, fun hno e he => ?_⟩
      · rw [Task.lastOf?, h.left]
        exact hgoes.settles t' ht'
      -- The first part came to a result, so a fault is one of the rest.
      · rcases hgoes.origin hno e he with ⟨part, hpart, hsame⟩ | ⟨hnone, e₀, u, hu, hattach⟩
        · exact Or.inl ⟨part, List.mem_cons_of_mem _ hpart, hsame⟩
        · exact Or.inr ⟨List.forall_mem_cons.mpr ⟨h.fault, hnone⟩, e₀, u, hends.1.trans hu, hattach⟩

/-- A task that does one part and then comes to its end by itself. -/
theorem Goes.last {f : α → Session → Outcome RuntimeFault β} (h : Begins runs s first R o)
    (hrest : ∀ a t, After runs s t → R t.store a → Goes runs t t [] False Q (f a t)) :
    Goes runs s s [first] False Q (o.andThen f) := by
  have hnothing : o.leading (fun _ _ => []) = [] := by cases o <;> rfl
  have hgoes := Goes.andThen (g := fun _ _ => []) h hrest
  rwa [hnothing] at hgoes

theorem Goes.weaken {parts : List Task} {foreign : Prop} (h : Goes runs s s parts False R o) :
    Goes runs s s parts foreign R o := by
  refine ⟨h.toLeads, fun hno e he => (h.origin hno e he).imp_right ?_⟩
  rintro ⟨hnone, e₀, u, hu, hattach, hframes⟩
  exact ⟨hnone, e₀, u, hu, hattach, hframes.imp_right False.elim⟩

theorem deleteAll_goes (here : LevelId) (targets : List Token) (h : After runs s t) :
    Goes runs s s [] False (Carries runs) (deleteAll here targets t) := by
  induction targets generalizing t with
  | nil => exact .ok h trivial
  | cons name targets ih =>
      rw [deleteAll, Store.delete]
      cases hremove : t.store.remove here name.lexeme with
      | none => exact .raise h rfl
      | some store => exact ih (h.remove hremove)

end Ways

end Upkeep

end PocketScript
