import Mathlib
import PocketScript.Proofs.Evaluation.Reachable
import PocketScript.Proofs.Value.Renaming

/-!
# What a call can observe

Scoping is lexical: the level that a call opens lies in the level where its
function was declared, and not in the caller's. So a call gets at the levels
around its function, at those around the functions that it is passed, and at
those around functions that are bound in levels it gets at. What is bound
elsewhere, for instance by the caller, makes no difference to it.

To say so, the same call is made in two sessions that agree on the levels that
it gets at and may differ in all others. The levels that it opens have other
numbers in the one than in the other, if the numbers of levels differ to begin
with, and up to this the calls come out the same.

## Main definitions

* `Store.Seen`: The levels that can be got at.
* `Closure.SameView`: Sessions that agree on what a call gets at.
* `Closure.LeavesAlike`: What the calls leave is the same.
* `Closure.CallsAlike`: The calls come out the same.
* `Session.abreast`: Sessions that belong together while the calls last.

## Theorems

* `callFunction_observes_view_only`: A call comes out the same in sessions that
  agree on what it gets at.
-/

namespace PocketScript

/-- The levels that can be got at from some: those around a level, and those
    where functions that are bound in a level were declared. -/
inductive Store.Seen (s : Store) (roots : LevelId → Prop) : LevelId → Prop where
  | root {id : LevelId} : roots id → Seen s roots id
  | outer {id o : LevelId} {l : Level} : Seen s roots id → s.level? id = some l →
      l.outer = some o → Seen s roots o
  | home {id : LevelId} {l : Level} {name : Text} {f : Closure} : Seen s roots id →
      s.level? id = some l → Text.Dict.find? name l.bindings = some (.function f) →
      Seen s roots f.home

namespace Session

/-- Writes lines. -/
def echoAll (lines : List Text) (s : Session) : Session := lines.foldl (fun s line => s.echo line) s

/-- What comes after the first of two sessions is called as if it came after the
    second. -/
def renamingTo (s s' : Session) : Renaming :=
  ⟨s.store.levels.size, s'.store.levels.size, s.stamps, s'.stamps⟩

end Session

namespace Closure

/-- Where a call gets in: where its function was declared, and where the
    functions among its arguments were. -/
def roots (f : Closure) (args : List Value) (id : LevelId) : Prop :=
  id = f.home ∨ ∃ g, Value.function g ∈ args ∧ id = g.home

/-- The sessions agree on what the call gets at, and the clock is the only
    native function there. -/
structure SameView (f : Closure) (args : List Value) (s s' : Session) : Prop where
  calls : s.calls = s'.calls
  clock : s.clock = s'.clock
  level : ∀ id, s.store.Seen (f.roots args) id →
    ∃ l, s.store.level? id = some l ∧ s'.store.level? id = some l
  native : ∀ id l name b, s.store.Seen (f.roots args) id → s.store.level? id = some l →
    Text.Dict.find? name l.bindings = some (.native b) → b.action = .clock
  argument : ∀ b, Value.native b ∈ args → b.action = .clock

/-- What calls have left is the same: the lines written, the levels that there
    were to get at, and, up to their numbers, the levels opened. -/
structure LeavesAlike (f : Closure) (args : List Value) (s s' t t' : Session) : Prop where
  calls : t.calls = s.calls ∧ t'.calls = s'.calls
  output : ∃ lines, t.echoed = (s.echoAll lines).echoed ∧ t'.echoed = (s'.echoAll lines).echoed
  seen : ∀ id, s.store.Seen (f.roots args) id → t'.store.level? id = t.store.level? id
  opened : ∀ k, t'.store.level? (s'.store.levels.size + k) =
    (t.store.level? (s.store.levels.size + k)).map (s.renamingTo s').contents

/-- Calls that come out the same: with a value that is the same up to the
    numbers of the levels opened, with the same fault, or not at all. -/
inductive CallsAlike (f : Closure) (args : List Value) (s s' : Session) :
    Outcome RuntimeFault Value → Outcome RuntimeFault Value → Prop where
  | ok {v : Value} {t t' : Session} : f.LeavesAlike args s s' t t' →
      CallsAlike f args s s' (.ok v t) (.ok ((s.renamingTo s').value v) t')
  | fault {e : RuntimeFault} {t t' : Session} : f.LeavesAlike args s s' t t' →
      CallsAlike f args s s' (.fault e t) (.fault e t')
  | starved : CallsAlike f args s s' .starved .starved

end Closure

/-- Sessions that come after two others and have not moved apart since. -/
structure Session.Abreast (s s' : Session) (S : LevelId → Prop) (t t' : Session) : Prop where
  store : (s.renamingTo s').Stores S t.store t'.store
  clock : t.clock = t'.clock
  stamps : s.stamps ≤ t.stamps ∧ t'.stamps = t.stamps - s.stamps + s'.stamps
  output : ∃ lines, t.echoed = (s.echoAll lines).echoed ∧ t'.echoed = (s'.echoAll lines).echoed
  muted : t.muted = s.muted ∧ t'.muted = s'.muted

namespace Session

variable {s s' : Session} {S : LevelId → Prop} {t t' : Session}

/-- Writing a line changes nothing but what was written. -/
theorem echo_eq (line : Text) (s : Session) :
    s.echo line = { s with echoed := (s.echo line).echoed } := by
  rw [echo]
  split <;> rfl

theorem echoAll_concat (lines : List Text) (line : Text) (s : Session) :
    s.echoAll (lines ++ [line]) = (s.echoAll lines).echo line := by
  rw [echoAll, List.foldl_concat]
  rfl

theorem muted_echoAll (lines : List Text) (s : Session) : (s.echoAll lines).muted = s.muted := by
  induction lines generalizing s with
  | nil => rfl
  | cons line lines ih =>
      have hlines : (s.echoAll (line :: lines)).muted = (s.echo line).muted := ih (s.echo line)
      rw [hlines, echo_eq]

theorem echoed_echo {lines : List Text} (line : Text) (hmuted : t.muted = s.muted)
    (h : t.echoed = (s.echoAll lines).echoed) :
    (t.echo line).echoed = (s.echoAll (lines ++ [line])).echoed := by
  rw [echoAll_concat, echo, echo, muted_echoAll, hmuted]
  split
  · exact h
  · simp only [h]

namespace Abreast

theorem echo (h : Abreast s s' S t t') (line : Text) :
    Abreast s s' S (t.echo line) (t'.echo line) := by
  rcases h.output with ⟨lines, hleft, hright⟩
  rw [echo_eq line t, echo_eq line t']
  exact ⟨h.store, h.clock, h.stamps, ⟨lines ++ [line], echoed_echo line h.muted.1 hleft,
    echoed_echo line h.muted.2 hright⟩, h.muted⟩

theorem readClock (h : Abreast s s' S t t') :
    t.readClock.1 = t'.readClock.1 ∧ Abreast s s' S t.readClock.2 t'.readClock.2 := by
  refine ⟨congrArg Clock.now h.clock, h.store, ?_, h.stamps, h.output, h.muted⟩
  simp only [Session.readClock, h.clock]

theorem withStore (h : Abreast s s' S t t') {u u' : Store}
    (hu : (s.renamingTo s').Stores S u u') :
    Abreast s s' S { t with store := u } { t' with store := u' } :=
  ⟨hu, h.clock, h.stamps, h.output, h.muted⟩

/-- A function that is declared gets the next stamp on either side. -/
theorem declare (h : Abreast s s' S t t') {id : Nat} (hid : s.store.levels.size ≤ id)
    (name : Token) (params : List Token) (b : List Stmt) :
    Abreast s s' S (declare id name params b t)
      (PocketScript.declare ((s.renamingTo s').level id) name params b t') := by
  have hstamp : Abreast s s' S t.stamp.2 t'.stamp.2 := by
    refine ⟨h.store, h.clock, ?_, h.output, h.muted⟩
    have hstamps := h.stamps
    simp only [Session.stamp]
    omega
  -- A function that is declared in a new level is new, and so is its stamp.
  have hvalue : (s.renamingTo s').value (.function ⟨name.lexeme, params, b, id, t.stamps⟩) =
      .function ⟨name.lexeme, params, b, (s.renamingTo s').level id, t'.stamps⟩ := by
    have hnew : ¬ id < (s.renamingTo s').size := Nat.not_lt.mpr hid
    simp only [Renaming.value, Renaming.closure, if_neg hnew, h.stamps.2]
    rfl
  have hset := h.store.set hid name.lexeme
    (v := .function ⟨name.lexeme, params, b, id, t.stamps⟩) (Or.inr hid)
  rw [hvalue] at hset
  exact hstamp.withStore hset

end Abreast

/-- Sessions that have not moved apart belong together, and so do their new
    levels. -/
def abreast (s s' : Session) (S : LevelId → Prop) : Pairing where
  -- Code is carried out in new levels only: a call opens its own.
  level id id' := s.store.levels.size ≤ id ∧ id' = (s.renamingTo s').level id
  value v v' := v.LeadsInto ((s.renamingTo s').InScope S) ∧ v' = (s.renamingTo s').value v
  session := Abreast s s' S
  -- Of faults and statements as much is asked as where inert values are met,
  -- which is nothing.
  fault := Keeping.inert.fault
  stmt := Keeping.inert.stmt
  body := Keeping.inert.body
  deletes := True
  face {v v'} h := by
    rw [h.2]
    cases v with
    | function f =>
        rw [Renaming.value, Renaming.closure]
        split <;> rfl
    | _ => rfl
  data := Renaming.value_of_data _
  native {f vs vs' t t'} n hf _ h hcalls := by
    have hclock : f.action = .clock := hf.1
    rw [hclock]
    exact callNative_clock_reports _ (Renaming.value_of_data _) Abreast.readClock n _ _ vs vs' h
      hcalls
  ordinary := Keeping.inert.ordinary
  leave := Keeping.inert.leave
  next := Keeping.inert.next
  loop := Keeping.inert.loop
  branch := Keeping.inert.branch
  cons := Keeping.inert.cons
  called _ := trivial
  lookup {t t' id id'} name h hid := by
    rcases h.store.lookup (Or.inr hid.1) name with ⟨hlookup, hleads⟩
    rw [hid.2, hlookup]
    cases hv : t.store.lookup id name with
    | none => exact .none
    | some v => exact .some ⟨hleads v hv, rfl⟩
  bind {t t' id id' v v'} name h hid hv := by
    rw [hid.2, hv.2]
    exact h.withStore (h.store.set hid.1 name hv.1)
  remove {t t' id id'} name _ h hid := by
    have hremove := h.store.remove (Or.inr hid.1) name
    rw [hid.2]
    generalize t.store.remove id name = u at hremove ⊢
    generalize t'.store.remove ((s.renamingTo s').level id) name = u' at hremove ⊢
    cases hremove with
    | none => exact .none
    | some hu => exact .some (h.withStore hu)
  declare {t t' id id' function inLoop name params b} h hid _ := by
    rw [hid.2]
    exact h.declare hid.1 name params b
  openLevel {t t' f f'} h hf := by
    -- The level that a call opens lies where its function was declared.
    have hhome : f'.home = (s.renamingTo s').level f.home := by
      rw [Value.function.inj hf.2, Renaming.home_closure]
    rw [hhome]
    exact ⟨⟨h.store.size.1, h.store.size.2.symm⟩, h.withStore (h.store.openLevel hf.1)⟩
  echo line h := h.echo line
  readClock h := h.readClock
  calls _ h := ⟨h.store, h.clock, h.stamps, h.output, h.muted⟩

end Session

namespace Closure.SameView

variable {f : Closure} {args : List Value} {s s' : Session}

/-- Nothing in a level that can be seen leads to one that cannot. -/
theorem leadsInto (h : f.SameView args s s') {id : LevelId} {l : Level}
    (hid : s.store.Seen (f.roots args) id) (hl : s.store.level? id = some l) :
    l.LeadsInto (s.store.Seen (f.roots args)) := by
  refine ⟨fun o ho => .outer hid hl ho, ?_⟩
  intro name v hv
  cases v with
  | function g => exact .home hid hl hv
  | native b => exact h.native id l name b hid hl hv
  | _ => trivial

/-- Before anything has happened the sessions are abreast. -/
theorem abreast (h : f.SameView args s s') :
    Session.Abreast s s' (s.store.Seen (f.roots args)) s s' := by
  refine ⟨⟨?_, ⟨Nat.le_refl _, ?_⟩, ?_, ?_, ?_⟩, h.clock, ⟨Nat.le_refl _, by simp⟩,
    ⟨[], rfl, rfl⟩, rfl, rfl⟩
  · intro id hid
    rcases h.level id hid with ⟨l, hl, hl'⟩
    exact ⟨Store.lt_size_of_level? hl, Store.lt_size_of_level? hl'⟩
  · exact (s.renamingTo s').level_add 0
  · intro id hid
    rcases h.level id hid with ⟨l, hl, hl'⟩
    exact ⟨l, hl, hl', h.leadsInto hid hl⟩
  · -- There are no new levels yet.
    intro k
    have hnone : ∀ u : Session, u.store.level? (u.store.levels.size + k) = none :=
      fun u => Array.getElem?_eq_none (Nat.le_add_right _ k)
    exact (hnone s').trans (congrArg (Option.map _) (hnone s)).symm
  · intro k l hl
    exact absurd (Store.lt_size_of_level? hl) (Nat.not_lt.mpr (Nat.le_add_right _ k))

theorem value (h : f.SameView args s s') {v : Value}
    (hv : v.LeadsInto (s.store.Seen (f.roots args))) :
    (Session.abreast s s' (s.store.Seen (f.roots args))).value v v := by
  refine ⟨hv.mono fun _ => Or.inl, ?_⟩
  exact ((s.renamingTo s').value_of_leadsInto (fun hid => (h.abreast.store.bound hid).1) hv).symm

end Closure.SameView

/-- A call comes out the same in sessions that agree on what it gets at: it
    writes the same lines, ends with the same value up to the numbers of the
    levels that it opened or with the same fault, and leaves what it gets at the
    same. Whatever else differs between the sessions makes no difference. -/
theorem callFunction_observes_view_only {f : Closure} {args : List Value} {s s' : Session}
    (h : f.SameView args s s') (n : Nat) (paren : Token) :
    f.CallsAlike args s s' (callFunction n f args paren s) (callFunction n f args paren s') := by
  have hf := h.value (v := .function f) (.root (Or.inl rfl))
  have hargs : List.Forall₂ (Session.abreast s s' (s.store.Seen (f.roots args))).value args args := by
    refine List.forall₂_same.mpr fun v hv => h.value ?_
    cases v with
    | function g => exact .root (Or.inr ⟨g, hv, rfl⟩)
    | native b => exact h.argument b hv
    | _ => trivial
  have hcalls : (Session.abreast s s' (s.store.Seen (f.roots args))).Sessions s.calls s s' :=
    ⟨h.abreast, rfl, h.calls.symm⟩
  have houtcomes : (Session.abreast s s' _).Outcomes s.calls _ (callFunction n f args paren s)
      (callFunction n f args paren s') :=
    ((Session.abreast s s' _).together n).callFunction (Or.inl trivial) hf hargs hcalls
  -- What is abreast at the end is alike in all that the statement asks for.
  have hleaves : ∀ {t t'}, (Session.abreast s s' (s.store.Seen (f.roots args))).Sessions s.calls t t' →
      f.LeavesAlike args s s' t t' := by
    intro t t' ht
    refine ⟨⟨ht.left, ht.right.trans h.calls⟩, ht.session.output, ?_, ht.session.store.new⟩
    intro id hid
    rcases ht.session.store.old hid with ⟨l, hl, hl', _⟩
    rw [hl, hl']
  generalize callFunction n f args paren s = o at houtcomes ⊢
  generalize callFunction n f args paren s' = o' at houtcomes ⊢
  cases houtcomes with
  | ok hv ht =>
      rw [hv.2]
      exact .ok (hleaves ht)
  | fault _ ht => exact .fault (hleaves ht)
  | starved => exact .starved

/-- A session in the middle of a call whose level binds a name. -/
def calling (v : Value) : Session :=
  { Session.fresh {} false false with
    store :=
      (((Session.fresh {} false false).store.openLevel (some Store.globals)).2).set 1 "x" v }

/-- The same with another level around. -/
def callingDeeper (v : Value) : Session :=
  { calling v with store := ((calling v).store.openLevel (some 1)).2 }

/-- A function of the outermost level that declares a function and returns it. -/
def making : Closure :=
  ⟨"f", [], [.function ⟨.identifier, "g", none, ⟨1, 15⟩⟩ [] [],
    .giveBack ⟨.returnWord, "return", none, ⟨1, 22⟩⟩
      (some (.reference ⟨.identifier, "g", none, ⟨1, 29⟩⟩))], Store.globals, 1⟩

/-- The outermost level of the session binds the clock and nothing else. -/
theorem eq_clock_of_calling {v w : Value} {l : Level} {name : Text}
    (hl : (calling v).store.level? Store.globals = some l)
    (hw : Text.Dict.find? name l.bindings = some w) : w = .native ⟨"clock", 0, .clock, 0⟩ := by
  cases hl
  have hclock : Text.Dict.find? name [("clock", .native ⟨"clock", 0, .clock, 0⟩)] = some w := hw
  rw [Text.Dict.find?_cons] at hclock
  split at hclock
  · exact (Option.some.inj hclock).symm
  · cases hclock

/-- The outermost level is all that it gets at. -/
theorem eq_globals_of_seen {v : Value} {id : LevelId}
    (h : (calling v).store.Seen (making.roots []) id) : id = Store.globals := by
  induction h with
  | root hroot =>
      rcases hroot with hhome | ⟨g, hg, _⟩
      · exact hhome
      · cases hg
  | @outer id o l hid hl ho ih =>
      subst ih
      cases hl
      cases ho
  | @home id l name f hid hl hf ih =>
      subst ih
      cases eq_clock_of_calling hl hf

/-- Does a call end with a value? -/
def gives : Outcome RuntimeFault Value → Bool
  | .ok _ _ => true
  | _ => false

/-- Made in two sessions whose callers bind a name differently, and which have
    different numbers of levels, its call comes out the same. -/
theorem making_alike :
    making.SameView [] (calling (.bool true)) (callingDeeper .null) ∧
      ∃ v t t', callFunction 6 making [] ⟨.rightParen, ")", none, ⟨2, 3⟩⟩ (calling (.bool true)) =
          .ok v t ∧
        callFunction 6 making [] ⟨.rightParen, ")", none, ⟨2, 3⟩⟩ (callingDeeper .null) =
          .ok (((calling (.bool true)).renamingTo (callingDeeper .null)).value v) t' ∧
        making.LeavesAlike [] (calling (.bool true)) (callingDeeper .null) t t' := by
  have hview : making.SameView [] (calling (.bool true)) (callingDeeper .null) := by
    refine ⟨rfl, rfl, ?_, ?_, nofun⟩
    · intro id hid
      rw [eq_globals_of_seen hid]
      exact ⟨_, rfl, rfl⟩
    · intro id l name b hid hl hb
      rw [eq_globals_of_seen hid] at hl
      cases eq_clock_of_calling hl hb
      rfl
  have hends : gives (callFunction 6 making [] ⟨.rightParen, ")", none, ⟨2, 3⟩⟩
      (calling (.bool true))) = true := by cbv
  have halike := callFunction_observes_view_only hview 6 ⟨.rightParen, ")", none, ⟨2, 3⟩⟩
  refine ⟨hview, ?_⟩
  generalize callFunction 6 making [] _ (calling (.bool true)) = o at hends halike ⊢
  generalize callFunction 6 making [] _ (callingDeeper .null) = o' at halike ⊢
  cases halike with
  | ok hleaves => exact ⟨_, _, _, rfl, rfl, hleaves⟩
  | fault _ => cases hends
  | starved => cases hends

end PocketScript
