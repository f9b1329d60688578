import Mathlib
import PocketScript.Proofs.Evaluation.Course

/-!
# The levels of a session

A session as a whole is a cyclic thing. A level binds functions, and a function
refers to the level that it was declared in, which may be the level that binds
it. What is not cyclic is the relation of a level to the one that it lies in, and
it stays that way for a simple reason: a level is opened inside a level that
exists already, and afterwards its place never changes.

That its place never changes is a statement about two moments, one after the
other, and not about one. So the moments of a run are listed here in the order
in which they come: the start of a task, the moments of its parts, and its end.
Every moment has the session at that point, the level that code is carried out
in, and the values that are on their way: what a call is given, and what a task
comes to. The history of a session puts the runs and the doings of the host one
after the other.

## Main definitions

* `Moment`: A point of a run.
* `Task.moments`: The moments of a task, in order.
* `Session.History`: All moments of a session, in order.
* `Moment.Grounded`: Levels and functions are in order at a moment.
* `Moment.Keeps`: No level has gone or moved from one moment to another.

## Theorems

* `Upkeep.Fits.unfolds`: The moments of a task are in order, one by one and
  among each other.
* `Upkeep.timeline_of_history`: So are the moments of a session.
* `levels_stay_grounded`: The levels stay in order throughout.
-/

namespace PocketScript

/-- A point of a run. -/
structure Moment where
  session : Session
  /-- The level that code is carried out in, if it is code that is carried out. -/
  level : Option LevelId := none
  /-- The values that a call is given or a task comes to. -/
  held : List Value := []

namespace Task

/-- The level that a task is carried out in. -/
def level? : Task → Option LevelId
  | eval _ _ here _ => some here
  | evalAll _ _ here _ => some here
  | exec _ _ here _ => some here
  | execAll _ _ here _ => some here
  | execLoop _ _ _ here _ => some here
  | _ => none

/-- The values that a task is given: what is called, and its arguments. -/
def given : Task → List Value
  | apply _ f args _ _ => f :: args
  | callFunction _ f args _ _ => .function f :: args
  | callNative _ _ args _ => args
  | _ => []

/-- The start of a task. -/
def first (task : Task) : Moment := ⟨task.session, task.level?, task.given⟩

/-- The end of a task, if it comes to one. -/
def last (task : Task) : List Moment :=
  task.left?.toList.map fun t => ⟨t, task.level?, task.results⟩

/-- The moments of a task in order: its start, the moments of its parts, and its
    end. -/
def moments (task : Task) : List Moment :=
  task.first :: (task.parts.attach.flatMap fun part => moments part.1) ++ task.last
termination_by task.counter
decreasing_by exact counter_lt_of_mem_parts part.2

theorem moments_eq (task : Task) :
    task.moments = task.first :: (task.parts.flatMap moments ++ task.last) := by
  rw [moments, List.cons_append]
  congr 2
  conv_rhs => rw [← List.attach_map_subtype_val task.parts, List.flatMap_map]

end Task

namespace Moment

/-- Levels and functions are in order: the outermost level lies in none, every
    way outwards is finite, passes no level twice and ends at the outermost level,
    and every function was declared in a level that exists. So a name that the
    outermost level binds is seen from every level, unless it is hidden on the
    way. -/
structure Grounded (m : Moment) : Prop where
  outermost : Store.globals < m.session.store.levels.size ∧
    m.session.store.outer? Store.globals = none
  outward : ∀ id < m.session.store.levels.size,
    m.session.store.Walk id (m.session.store.chain id) ∧ (m.session.store.chain id).Nodup ∧
      (m.session.store.chain id).getLast? = some Store.globals
  bound : ∀ id name f, Text.Dict.find? name (m.session.store.bindings id) = some (.function f) →
    f.home < m.session.store.levels.size
  held : ∀ f, .function f ∈ m.held → f.home < m.session.store.levels.size
  level : ∀ id ∈ m.level, id < m.session.store.levels.size
  visible : ∀ id < m.session.store.levels.size, ∀ name v,
    Text.Dict.find? name m.session.globals = some v →
    (∀ l ∈ m.session.store.chain id, l ≠ Store.globals →
      Text.Dict.find? name (m.session.store.bindings l) = none) →
    m.session.store.lookup id name = some v

/-- No level has gone or moved from the first moment to the second. -/
def Keeps (m m' : Moment) : Prop :=
  ∀ id < m.session.store.levels.size, id < m'.session.store.levels.size ∧
    m'.session.store.outer? id = m.session.store.outer? id

end Moment

/-- All moments of a session so far, in order: a fresh session, and what the host
    did with it. The host offers functions, sends the output elsewhere, and runs
    sources and programs. -/
inductive Session.History : List Moment → Prop where
  | fresh (clock : Clock) (muted logging : Bool) :
      History [⟨Session.fresh clock muted logging, none, []⟩]
  | registered {states : List Moment} {m : Moment} (name : Text) (arity : Int) (action : Native) :
      History states → states.getLast? = some m →
      History (states ++ [⟨m.session.register name arity action, none, []⟩])
  | redirected {states : List Moment} {m : Moment} (echoed : Array Text) (muted : Bool)
      (memory : Text) : History states → states.getLast? = some m →
      History (states ++
        [⟨{ m.session with echoed := echoed, muted := muted, memory := memory }, none, []⟩])
  | ran {states : List Moment} {m : Moment} (n : Nat) (source : Text) :
      History states → states.getLast? = some m →
      History (states ++ (Task.runSource n source m.session).moments)
  | interpreted {states : List Moment} {m : Moment} (n : Nat) (p : List Stmt) :
      History states → states.getLast? = some m →
      History (states ++ (Task.interpret n p m.session).moments)

namespace Upkeep

/-- The state, the level and the values of a moment are in order. -/
structure Stands (m : Moment) : Prop where
  sound : Sound True m.session.store
  level : ∀ id ∈ m.level, id < m.session.store.levels.size
  held : AllLive True m.session.store m.held

/-- Moments one after the other, from one session on: each is in order, and levels
    stay where they are. -/
structure Timeline (s : Store) (states : List Moment) : Prop where
  stands : ∀ m ∈ states, Stands m
  starts : ∀ m ∈ states, s.Grows m.session.store
  grows : states.Pairwise fun m m' => m.session.store.Grows m'.session.store

theorem timeline_nil (s : Store) : Timeline s [] := ⟨by simp, by simp, .nil⟩

theorem Timeline.earlier {s t : Store} {states : List Moment} (h : Timeline t states)
    (hst : s.Grows t) : Timeline s states :=
  ⟨h.stands, fun m hm => hst.trans (h.starts m hm), h.grows⟩

theorem Timeline.append {s : Store} {states later : List Moment} (h : Timeline s states)
    (hlater : Timeline s later)
    (hbetween : ∀ m ∈ states, ∀ m' ∈ later, m.session.store.Grows m'.session.store) :
    Timeline s (states ++ later) :=
  ⟨List.forall_mem_append.mpr ⟨h.stands, hlater.stands⟩,
    List.forall_mem_append.mpr ⟨h.starts, hlater.starts⟩,
    List.pairwise_append.mpr ⟨h.grows, hlater.grows, hbetween⟩⟩

theorem timeline_singleton {s : Store} {m : Moment} (h : Stands m)
    (hgrows : s.Grows m.session.store) : Timeline s [m] :=
  ⟨by simpa using h, by simpa using hgrows, List.pairwise_singleton _ m⟩

variable {task : Task}

theorem store_inside (task : Task) : task.inside.store = task.session.store := by
  cases task <;> rfl

theorem Fits.first (h : Fits True task) : Stands task.first := by
  refine ⟨h.sound, ?_, ?_⟩
  · intro id hid
    cases task <;> cases hid <;> exact h.1
  · cases task with
    | apply n f args paren s => exact List.forall_mem_cons.mpr ⟨h.1, h.2.1⟩
    | callFunction n f args paren s => exact List.forall_mem_cons.mpr ⟨h.1, h.2.1⟩
    | callNative n action args s => exact h.2.1
    | _ => exact fun v hv => absurd hv (List.not_mem_nil)

theorem mem_last {m : Moment} (h : m ∈ task.last) : ∃ t, task.left? = some t ∧ m.session = t := by
  rcases List.mem_map.mp h with ⟨t, ht, rfl⟩
  exact ⟨t, Option.mem_toList.mp ht, rfl⟩

/-- The end of a task is in order, and levels are where they were. -/
theorem Fits.last (h : Fits True task) : Timeline task.session.store task.last := by
  rw [Task.last]
  cases hleft : task.left? with
  | none => exact timeline_nil _
  | some t =>
      have hafter := h.course.left t hleft
      refine timeline_singleton ⟨hafter.sound, fun id hid => ?_, h.course.results t hleft⟩
        hafter.grows
      exact hafter.lt_size (h.first.level id hid)

theorem Hands.grows_lastOf? {s t : Session} {parts : List Task} (h : Hands True s parts)
    (ht : Task.lastOf? s parts = some t) : s.store.Grows t.store := by
  induction parts generalizing s with
  | nil => exact Option.some.inj ht ▸ .refl _
  | cons part rest ih =>
      rcases h with ⟨hfits, hafter, ⟨hnone, _⟩ | ⟨u, hleft, hrest⟩⟩
      · rw [Task.lastOf?, hnone] at ht
        cases ht
      · rw [Task.lastOf?, hleft] at ht
        exact (hafter.trans (hfits.course.left u hleft)).grows.trans (ih hrest ht)

/-- The moments of a task are in order and lead up to its end. -/
structure Unfolds (task : Task) : Prop where
  timeline : Timeline task.session.store task.moments
  ends : ∀ m ∈ task.moments, ∀ t, task.left? = some t → m.session.store.Grows t.store

/-- Parts that unfold do so one after the other. -/
theorem Hands.unfolds {s : Session} {parts : List Task} (h : Hands True s parts)
    (hparts : ∀ part ∈ parts, Unfolds part) :
    Timeline s.store (parts.flatMap Task.moments) ∧ ∀ m ∈ parts.flatMap Task.moments, ∀ t,
      Task.lastOf? s parts = some t → m.session.store.Grows t.store := by
  induction parts generalizing s with
  | nil => exact ⟨timeline_nil _, by simp⟩
  | cons part rest ih =>
      rcases h with ⟨hfits, hafter, hrest⟩
      rw [List.forall_mem_cons] at hparts
      rcases hparts with ⟨⟨htimeline, hends⟩, hparts⟩
      have hpart := htimeline.earlier hafter.grows
      rcases hrest with ⟨hnone, rfl⟩ | ⟨t, hleft, hhands⟩
      · -- The part comes to no end, so nothing comes after it.
        rw [List.flatMap_singleton]
        refine ⟨hpart, fun m _ t ht => ?_⟩
        rw [Task.lastOf?, hnone] at ht
        cases ht
      · rcases ih hhands hparts with ⟨hlater, hlast⟩
        have hst : s.store.Grows t.store := hafter.grows.trans (hfits.course.left t hleft).grows
        rw [List.flatMap_cons]
        refine ⟨hpart.append (hlater.earlier hst) fun m hm m' hm' => ?_, fun m hm u hu => ?_⟩
        · exact (hends m hm t hleft).trans (hlater.starts m' hm')
        rw [Task.lastOf?, hleft, Option.bind_some] at hu
        rcases List.mem_append.mp hm with hm | hm
        · exact (hends m hm t hleft).trans (hhands.grows_lastOf? hu)
        · exact hlast m hm u hu

/-- A task that starts in order unfolds. -/
theorem Fits.unfolds (h : Fits True task) : Unfolds task := by
  generalize hcounter : task.counter = k
  induction k using Nat.strongRecOn generalizing task with
  | _ k ih =>
    have hparts : ∀ part ∈ task.parts, Unfolds part := fun part hpart =>
      ih part.counter (hcounter ▸ Task.counter_lt_of_mem_parts hpart) (h.part hpart).1 rfl
    rcases h.course.hands.unfolds hparts with ⟨hinner, hlast⟩
    rw [store_inside] at hinner
    have hgrows : ∀ t, task.left? = some t → task.session.store.Grows t.store :=
      fun t ht => (h.course.left t ht).grows
    -- What the last part has left grows into what the task leaves.
    have hfinal : ∀ m ∈ task.parts.flatMap Task.moments, ∀ t, task.left? = some t →
        m.session.store.Grows t.store := by
      intro m hm t ht
      rcases h.course.settles t ht with ⟨u, hu, hut⟩
      exact (hlast m hm u hu).trans hut
    have hrest : Timeline task.session.store (task.parts.flatMap Task.moments ++ task.last) := by
      refine hinner.append h.last fun m hm m' hm' => ?_
      rcases mem_last hm' with ⟨t, ht, hsession⟩
      exact hsession ▸ hfinal m hm t ht
    constructor
    · rw [Task.moments_eq]
      refine (timeline_singleton h.first (.refl _)).append hrest fun m hm m' hm' => ?_
      exact List.mem_singleton.mp hm ▸ hrest.starts m' hm'
    · intro m hm t ht
      rw [Task.moments_eq, List.mem_cons, List.mem_append] at hm
      rcases hm with rfl | hm | hm
      · exact hgrows t ht
      · exact hfinal m hm t ht
      · rcases mem_last hm with ⟨t', ht', hsession⟩
        rw [ht, Option.some.injEq] at ht'
        exact (hsession.trans ht'.symm) ▸ .refl _

theorem Stands.grounded {m : Moment} (h : Stands m) : m.Grounded where
  outermost := by
    rcases h.sound.rooted.globals with ⟨l, hl, hnone⟩
    refine ⟨h.sound.rooted.globals_lt, ?_⟩
    rw [Store.outer?, hl, Option.bind_some, hnone]
  outward id hid := ⟨h.sound.rooted.walk_chain hid, m.session.store.nodup_chain id,
    h.sound.rooted.getLast?_chain hid⟩
  bound id name f hf := h.sound.values id name (.function f) hf
  held f hf := h.held (.function f) hf
  level := h.level
  visible _ hid _ _ hv hidden := h.sound.rooted.lookup_of_unhidden hid hv hidden

/-- What comes after the last moment comes after all of them. -/
theorem Timeline.extend {s : Store} {states later : List Moment} {m : Moment}
    (h : Timeline s states) (hm : states.getLast? = some m)
    (hlater : Timeline m.session.store later) : Timeline s (states ++ later) := by
  rcases List.getLast?_eq_some_iff.mp hm with ⟨before, rfl⟩
  have hlast : ∀ m' ∈ before ++ [m], m'.session.store.Grows m.session.store := by
    rw [List.forall_mem_append, List.forall_mem_singleton]
    exact ⟨fun m' hm' => (List.pairwise_append.mp h.grows).2.2 m' hm' m (by simp), .refl _⟩
  refine h.append (hlater.earlier (h.starts m (by simp))) fun m' hm' m'' hm'' => ?_
  exact (hlast m' hm').trans (hlater.starts m'' hm'')

/-- All moments of a session are in order. -/
theorem timeline_of_history {states : List Moment} (h : Session.History states) :
    Timeline Store.initial states := by
  have hstands : ∀ {states m}, Timeline Store.initial states → states.getLast? = some m →
      Stands m := fun hstates hm => hstates.stands _ (List.mem_of_getLast? hm)
  induction h with
  | fresh clock muted logging =>
      have hsound : Sound True (Session.fresh clock muted logging).store :=
        (Session.Reachable.fresh (P := Native.Leaf) clock muted logging).sound fun _ => Or.inr
      exact timeline_singleton ⟨hsound, by simp, by simp [AllLive]⟩ (Store.grows_set _ _ _ _)
  | @registered states m name arity action _ hm ih =>
      refine ih.extend hm (timeline_singleton ⟨?_, by simp, by simp [AllLive]⟩ ?_)
      · exact (hstands ih hm).sound.set (v := .native _) Store.globals name (Or.inl trivial)
      · exact m.session.store.grows_set _ _ _
  | redirected echoed muted memory _ hm ih =>
      refine ih.extend hm (timeline_singleton ⟨?_, by simp, by simp [AllLive]⟩ (.refl _))
      exact (hstands ih hm).sound
  | @ran states m n source _ hm ih =>
      have hfits : Fits True (.runSource n source m.session) := ⟨trivial, (hstands ih hm).sound⟩
      exact ih.extend hm hfits.unfolds.timeline
  | @interpreted states m n p _ hm ih =>
      have hfits : Fits True (.interpret n p m.session) := ⟨trivial, (hstands ih hm).sound⟩
      exact ih.extend hm hfits.unfolds.timeline

end Upkeep

/-- At every moment of every session levels and functions are in order, and from
    one moment to any later one no level goes or moves. -/
theorem levels_stay_grounded {states : List Moment} (h : Session.History states) :
    (∀ m ∈ states, m.Grounded) ∧ states.Pairwise Moment.Keeps := by
  have htimeline := Upkeep.timeline_of_history h
  refine ⟨fun m hm => (htimeline.stands m hm).grounded, htimeline.grows.imp ?_⟩
  exact fun hgrows id hid => ⟨hgrows.lt_size hid, hgrows.outer?_eq hid⟩

/-- A native function that gives what the outermost level binds to `f`. -/
def pick : Native := fun _ => .ask (.lookup Store.globals "f") fun _ => .give (.held 0)

/-- A session that offers it. -/
def pickingSession : Session := (Session.fresh {} false false).register "pick" 0 pick

/-- `func f() { func g() { } return g; } pick()()();` -/
def closureSource : Text :=
  utf8 "func f() \x7b func g() \x7b \x7d return g; \x7d pick()()();"

set_option maxRecDepth 4000 in
/-- A run that gets a function from the host, calls it, and calls the function that
    this one returns opens a level inside a level, and all of its moments are in
    order. -/
theorem closureSource_stays_grounded :
    ∃ states m, Session.History states ∧ m ∈ states ∧
      m.session.store.chain 2 = [2, 1, Store.globals] ∧
      (∀ m ∈ states, m.Grounded) ∧ states.Pairwise Moment.Keeps := by
  have hoffered : Session.History ([⟨Session.fresh {} false false, none, []⟩] ++
      [⟨pickingSession, none, []⟩]) := .registered "pick" 0 pick (.fresh {} false false) rfl
  have hhistory : Session.History ([⟨Session.fresh {} false false, none, []⟩] ++
      [⟨pickingSession, none, []⟩] ++ (Task.runSource 20 closureSource pickingSession).moments) :=
    .ran 20 closureSource hoffered rfl
  have hruns : (runSource 20 closureSource pickingSession).session?.map
      (fun t => t.store.chain 2) = some [2, 1, 0] := by cbv
  rcases Option.map_eq_some_iff.mp hruns with ⟨t, ht, hchain⟩
  -- The end of the run is the last of its moments.
  have hlast : (⟨t, none, []⟩ : Moment) ∈
      (Task.runSource 20 closureSource pickingSession).last := by
    have hleft : (Task.runSource 20 closureSource pickingSession).left? = some t := ht
    rw [Task.last, hleft]
    exact List.mem_singleton.mpr rfl
  refine ⟨_, ⟨t, none, []⟩, hhistory, ?_, hchain, levels_stay_grounded hhistory⟩
  rw [Task.moments_eq]
  simp [hlast]

end PocketScript
