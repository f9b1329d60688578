import Mathlib.Data.List.Nodup
import PocketScript.Proofs.Value.Store

/-!
# Where levels lie

Functions remember levels and levels bind functions, so what a store holds goes
round in circles. The levels by themselves do not. A level is opened inside one
that exists already and stays there, so going outwards from any level comes to
the outermost one after finitely many steps and never twice to the same level.

`Store.chain` computes the way outwards and is guarded: it stops where the
numbers of levels do not fall. In a rooted store the guard never stops it.
`Walk` follows the links alone, to a level that lies in none, and
`Rooted.walk_chain` says that this is what the chain is.

## Main definitions

* `Store.Grows`: No level goes away or moves.
* `Store.Rooted`: Every level lies in one opened before it, but for the
  outermost.
* `Store.Walk`: The way from a level outwards, by its links.

## Theorems

* `Store.grows_set`, `Store.grows_remove`, `Store.grows_openLevel`: Nothing that
  is done to a store moves a level.
* `Store.Rooted.set`, `Store.Rooted.remove`, `Store.Rooted.openLevel`: A rooted
  store stays rooted.
* `Store.Rooted.walk_chain`: Every walk outwards ends.
* `Store.Rooted.getLast?_chain`: It ends at the outermost level.
* `Store.nodup_chain`: No level is passed twice.
* `Store.Rooted.lookup_of_unhidden`: What the outermost level binds is seen from
  everywhere, unless it is hidden.
-/

namespace PocketScript

namespace Store

/-- No level goes away or moves. -/
def Grows (s t : Store) : Prop :=
  ∀ id l, s.level? id = some l → ∃ l', t.level? id = some l' ∧ l'.outer = l.outer

/-- The outermost level lies in none, and every other level lies in one that was
    opened before it. -/
structure Rooted (s : Store) : Prop where
  globals : ∃ l, s.level? Store.globals = some l ∧ l.outer = none
  inner : ∀ {id l}, s.level? id = some l → id ≠ Store.globals → ∃ o < id, l.outer = some o

/-- The way from a level outwards: along the links, to a level that lies in
    none. -/
inductive Walk (s : Store) : LevelId → List LevelId → Prop where
  | last {id : LevelId} {l : Level} : s.level? id = some l → l.outer = none → Walk s id [id]
  | outward {id o : LevelId} {l : Level} {path : List LevelId} : s.level? id = some l →
      l.outer = some o → Walk s o path → Walk s id (id :: path)

variable {s t u : Store}

theorem exists_level?_iff {id : LevelId} : (∃ l, s.level? id = some l) ↔ id < s.levels.size := by
  constructor
  · rintro ⟨l, hl⟩
    exact lt_size_of_level? hl
  · intro hid
    exact ⟨s.levels[id], Array.getElem?_eq_getElem hid⟩

theorem Grows.refl (s : Store) : s.Grows s := fun _ l hl => ⟨l, hl, rfl⟩

theorem Grows.trans (hst : s.Grows t) (htu : t.Grows u) : s.Grows u := by
  intro id l hl
  rcases hst id l hl with ⟨l', hl', houter⟩
  rcases htu id l' hl' with ⟨l'', hl'', houter'⟩
  exact ⟨l'', hl'', houter'.trans houter⟩

theorem Grows.lt_size (h : s.Grows t) {id : LevelId} (hid : id < s.levels.size) :
    id < t.levels.size := by
  rcases exists_level?_iff.mpr hid with ⟨l, hl⟩
  rcases h id l hl with ⟨l', hl', _⟩
  exact lt_size_of_level? hl'

theorem Grows.outer?_eq (h : s.Grows t) {id : LevelId} (hid : id < s.levels.size) :
    t.outer? id = s.outer? id := by
  rcases exists_level?_iff.mpr hid with ⟨l, hl⟩
  rcases h id l hl with ⟨l', hl', houter⟩
  simp only [outer?, hl, hl', Option.bind_some, houter]

theorem grows_update (s : Store) (id : LevelId) (f : Bindings → Bindings) :
    s.Grows (s.update id f) := by
  intro id' l hl
  rw [level?_update, hl]
  by_cases hid : id = id'
  · rw [if_pos hid]
    exact ⟨_, rfl, rfl⟩
  · rw [if_neg hid]
    exact ⟨l, rfl, rfl⟩

theorem grows_set (s : Store) (id : LevelId) (name : Text) (v : Value) :
    s.Grows (s.set id name v) := s.grows_update id _

theorem grows_remove {id : LevelId} {name : Text} (h : s.remove id name = some t) : s.Grows t := by
  rcases exists_of_remove h with ⟨l, rfl⟩
  exact s.grows_update l _

theorem grows_openLevel (s : Store) (outer : Option LevelId) : s.Grows (s.openLevel outer).2 := by
  intro id l hl
  have hid : id < s.levels.size := lt_size_of_level? hl
  rw [level?_openLevel, if_neg (Nat.ne_of_lt hid)]
  exact ⟨l, hl, rfl⟩

namespace Rooted

theorem update (h : s.Rooted) (id : LevelId) (f : Bindings → Bindings) :
    (s.update id f).Rooted := by
  -- Only bindings change, so a level of the new store lies where it did.
  have hback : ∀ {id' l'}, (s.update id f).level? id' = some l' →
      ∃ l, s.level? id' = some l ∧ l'.outer = l.outer := by
    intro id' l' hl'
    have hid' := lt_size_of_level? hl'
    rw [size_update] at hid'
    rcases exists_level?_iff.mpr hid' with ⟨l, hl⟩
    rcases s.grows_update id f id' l hl with ⟨l'', hl'', houter⟩
    rw [hl', Option.some.injEq] at hl''
    exact ⟨l, hl, hl'' ▸ houter⟩
  constructor
  · rcases h.globals with ⟨l, hl, hnone⟩
    rcases s.grows_update id f _ l hl with ⟨l', hl', houter⟩
    exact ⟨l', hl', houter.trans hnone⟩
  · intro id' l' hl' hid'
    rcases hback hl' with ⟨l, hl, houter⟩
    rw [houter]
    exact h.inner hl hid'

theorem set (h : s.Rooted) (id : LevelId) (name : Text) (v : Value) : (s.set id name v).Rooted :=
  h.update id _

theorem remove (h : s.Rooted) {id : LevelId} {name : Text} (ht : s.remove id name = some t) :
    t.Rooted := by
  rcases exists_of_remove ht with ⟨l, rfl⟩
  exact h.update l _

theorem globals_lt (h : s.Rooted) : Store.globals < s.levels.size := by
  rcases h.globals with ⟨l, hl, _⟩
  exact lt_size_of_level? hl

theorem openLevel (h : s.Rooted) {home : LevelId} (hhome : home < s.levels.size) :
    (s.openLevel (some home)).2.Rooted := by
  have hpos := h.globals_lt
  constructor
  · rcases h.globals with ⟨l, hl, hnone⟩
    rw [level?_openLevel, if_neg (Nat.ne_of_lt hpos)]
    exact ⟨l, hl, hnone⟩
  · intro id l hl hid
    rw [level?_openLevel] at hl
    by_cases hnew : id = s.levels.size
    · rw [if_pos hnew, Option.some.injEq] at hl
      exact ⟨home, hnew ▸ hhome, by rw [← hl]⟩
    · rw [if_neg hnew] at hl
      exact h.inner hl hid

end Rooted

theorem rooted_initial : initial.Rooted := by
  refine ⟨⟨_, rfl, rfl⟩, ?_⟩
  intro id l hl hid
  have hlt := lt_size_of_level? hl
  simp only [initial, List.size_toArray, List.length_cons, List.length_nil] at hlt
  exact absurd (Nat.lt_one_iff.mp hlt) hid

/-- What levels bind does not matter for the way outwards. -/
theorem chain_update (s : Store) (l : LevelId) (f : Bindings → Bindings) (id : LevelId) :
    (s.update l f).chain id = s.chain id := by
  induction id using Nat.strongRecOn with
  | _ id ih =>
    rw [chain, chain, level?_update]
    cases s.level? id with
    | none => simp only [Option.map_none, ite_self]
    | some level =>
        have hlevel : (if l = id then
            (some level).map fun l => { l with bindings := f l.bindings }
          else some level) =
            some { level with bindings := if l = id then f level.bindings else level.bindings } := by
          split <;> rfl
        rw [hlevel]
        rcases level with ⟨outer, bindings⟩
        cases outer with
        | none => rfl
        | some o =>
            by_cases ho : o < id
            · simp only [if_pos ho, ih o ho]
            · simp only [if_neg ho]

/-- Numbers of levels do not rise along a chain. -/
theorem le_of_mem_chain {id l : LevelId} (h : l ∈ s.chain id) : l ≤ id := by
  induction id using Nat.strongRecOn with
  | _ id ih =>
    rw [chain] at h
    split at h
    · cases h
    · split at h
      · exact Nat.le_of_eq (List.mem_singleton.mp h)
      · split at h
        · rename_i o _ ho
          rcases List.mem_cons.mp h with rfl | hmem
          · exact Nat.le_refl _
          · exact Nat.le_of_lt (Nat.lt_of_le_of_lt (ih o ho hmem) ho)
        · exact Nat.le_of_eq (List.mem_singleton.mp h)

/-- No level is passed twice on the way outwards. -/
theorem nodup_chain (s : Store) (id : LevelId) : (s.chain id).Nodup := by
  induction id using Nat.strongRecOn with
  | _ id ih =>
    rw [chain]
    split
    · exact List.nodup_nil
    · split
      · exact List.nodup_singleton id
      · split
        · rename_i o _ ho
          refine List.nodup_cons.mpr ⟨fun hmem => ?_, ih o ho⟩
          exact absurd ho (Nat.not_lt_of_le (le_of_mem_chain hmem))
        · exact List.nodup_singleton id

namespace Rooted

theorem chain_globals (h : s.Rooted) : s.chain Store.globals = [Store.globals] := by
  rcases h.globals with ⟨l, hl, hnone⟩
  rw [chain, hl]
  simp only [hnone]

/-- Inside a rooted store the chain follows the link of every level. -/
theorem chain_cons (h : s.Rooted) {id : LevelId} (hid : id < s.levels.size)
    (hinner : id ≠ Store.globals) :
    ∃ o < id, s.outer? id = some o ∧ s.chain id = id :: s.chain o := by
  rcases exists_level?_iff.mpr hid with ⟨l, hl⟩
  rcases h.inner hl hinner with ⟨o, ho, houter⟩
  refine ⟨o, ho, ?_, ?_⟩
  · rw [outer?, hl, Option.bind_some, houter]
  · rw [chain, hl]
    simp only [houter, if_pos ho]

/-- Every walk outwards ends, and the chain is what it passes. -/
theorem walk_chain (h : s.Rooted) {id : LevelId} (hid : id < s.levels.size) :
    s.Walk id (s.chain id) := by
  induction id using Nat.strongRecOn with
  | _ id ih =>
    by_cases hglobals : id = Store.globals
    · rcases h.globals with ⟨l, hl, hnone⟩
      rw [hglobals, h.chain_globals]
      exact .last hl hnone
    · rcases exists_level?_iff.mpr hid with ⟨l, hl⟩
      rcases h.chain_cons hid hglobals with ⟨o, ho, houter, hchain⟩
      rw [outer?, hl, Option.bind_some] at houter
      rw [hchain]
      exact .outward hl houter (ih o ho (Nat.lt_trans ho hid))

/-- The way outwards ends at the outermost level. -/
theorem getLast?_chain (h : s.Rooted) {id : LevelId} (hid : id < s.levels.size) :
    (s.chain id).getLast? = some Store.globals := by
  induction id using Nat.strongRecOn with
  | _ id ih =>
    by_cases hglobals : id = Store.globals
    · rw [hglobals, h.chain_globals]
      rfl
    · rcases h.chain_cons hid hglobals with ⟨o, ho, _, hchain⟩
      rw [hchain, List.getLast?_cons, ih o ho (Nat.lt_trans ho hid)]
      rfl

/-- What the outermost level binds has its value everywhere, unless a level on
    the way hides it. -/
theorem lookup_of_unhidden (h : s.Rooted) {id : LevelId} (hid : id < s.levels.size) {name : Text}
    {v : Value} (hv : Text.Dict.find? name (s.bindings Store.globals) = some v)
    (hidden : ∀ l ∈ s.chain id, l ≠ Store.globals → Text.Dict.find? name (s.bindings l) = none) :
    s.lookup id name = some v := by
  rw [lookup]
  induction id using Nat.strongRecOn with
  | _ id ih =>
    by_cases hglobals : id = Store.globals
    · rw [hglobals, h.chain_globals, List.findSome?_cons, hv]
    · rcases h.chain_cons hid hglobals with ⟨o, ho, _, hchain⟩
      rw [hchain, List.forall_mem_cons] at hidden
      rw [hchain, List.findSome?_cons, hidden.1 hglobals]
      exact ih o ho (Nat.lt_trans ho hid) hidden.2

end Rooted

end Store

end PocketScript
