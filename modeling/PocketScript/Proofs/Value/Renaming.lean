import Mathlib.Data.Option.Basic
import PocketScript.Proofs.Value.Store

/-!
# Stores in which levels have other numbers

A call opens levels, and what numbers they get depends on how many there were
before. So the same call, made in two sessions, leaves stores that differ in
the numbers of the levels that it opened, and in the stamps of the functions
that it declared.

A `Renaming` says where the numbers start on either side. What was there at the
start keeps its number, and what came later is counted from the start. This is
enough to compare two stores in which some of the old levels are the same and
the others need not have anything to do with each other: as long as nothing in
the levels of interest leads to any of the others, looking up a name, binding it
and removing it do the same in both stores.

## Main definitions

* `Value.LeadsInto`, `Level.LeadsInto`: All that can be got at is in a set of
  levels.
* `Renaming`: Numbers on either side.
* `Renaming.Stores`: Stores that are the same up to a renaming, as far as a set
  of old levels and all new ones are concerned.

## Theorems

* `Renaming.Stores.chain`: Levels lie inside one another alike.
* `Renaming.Stores.lookup`: Names have the same values.
* `Renaming.Stores.set`, `Renaming.Stores.remove`, `Renaming.Stores.openLevel`:
  The stores change alike.
-/

namespace PocketScript

/-- Calling the value can get at no level outside of `S`, and the value is no
    native function but the clock. -/
def Value.LeadsInto (S : LevelId → Prop) : Value → Prop
  | function f => S f.home
  | native f => f.action = .clock
  | _ => True

theorem Value.LeadsInto.mono {S T : LevelId → Prop} (hST : ∀ id, S id → T id) {v : Value}
    (h : v.LeadsInto S) : v.LeadsInto T := by
  cases v with
  | function f => exact hST f.home h
  | native f => exact h
  | _ => trivial

/-- From the level there is no way out of `S`. -/
structure Level.LeadsInto (S : LevelId → Prop) (l : Level) : Prop where
  outer : ∀ o, l.outer = some o → S o
  bindings : ∀ name v, Text.Dict.find? name l.bindings = some v → v.LeadsInto S

namespace Level.LeadsInto

variable {S : LevelId → Prop} {l : Level}

theorem mono {T : LevelId → Prop} (hST : ∀ id, S id → T id) (h : l.LeadsInto S) : l.LeadsInto T :=
  ⟨fun o ho => hST o (h.outer o ho), fun name v hv => (h.bindings name v hv).mono hST⟩

theorem erase (h : l.LeadsInto S) (name : Text) :
    Level.LeadsInto S { l with bindings := Text.Dict.erase name l.bindings } := by
  refine ⟨h.outer, ?_⟩
  intro name' v hv
  rw [Text.Dict.find?_erase] at hv
  split at hv
  · cases hv
  · exact h.bindings name' v hv

theorem insert (h : l.LeadsInto S) (name : Text) {v : Value} (hv : v.LeadsInto S) :
    Level.LeadsInto S { l with bindings := Text.Dict.insert name v l.bindings } := by
  refine ⟨h.outer, ?_⟩
  intro name' w hw
  rw [Text.Dict.find?_insert] at hw
  split at hw
  · exact Option.some.inj hw ▸ hv
  · exact h.bindings name' w hw

end Level.LeadsInto

/-- Where the numbers of new levels and the stamps of new functions start, on
    the one side and on the other. -/
structure Renaming where
  size : Nat
  size' : Nat
  stamps : Nat
  stamps' : Nat

namespace Renaming

variable (r : Renaming)

/-- Old levels keep their numbers, and new ones are counted from the start. -/
def level (id : Nat) : Nat := if id < r.size then id else id - r.size + r.size'

/-- A function was declared in a new level exactly if it is new itself. -/
def closure (f : Closure) : Closure :=
  if f.home < r.size then f
  else { f with home := r.level f.home, stamp := f.stamp - r.stamps + r.stamps' }

def value : Value → Value
  | .function f => .function (r.closure f)
  | v => v

def bindings (d : Bindings) : Bindings := d.map fun entry => (entry.1, r.value entry.2)

def contents (l : Level) : Level :=
  { outer := l.outer.map r.level, bindings := r.bindings l.bindings }

/-- Is the level new, or one of the old levels of interest? -/
def InScope (S : LevelId → Prop) (id : Nat) : Prop := S id ∨ r.size ≤ id

theorem level_of_lt {id : Nat} (h : id < r.size) : r.level id = id := if_pos h

theorem level_of_ge {id : Nat} (h : r.size ≤ id) : r.level id = id - r.size + r.size' :=
  if_neg (Nat.not_lt.mpr h)

theorem level_add (k : Nat) : r.level (r.size + k) = r.size' + k := by
  rw [level_of_ge r (Nat.le_add_right r.size k)]
  omega

theorem home_closure (f : Closure) : (r.closure f).home = r.level f.home := by
  rw [closure]
  split
  · rename_i hlt
    rw [r.level_of_lt hlt]
  · rfl

theorem closure_of_lt {f : Closure} (h : f.home < r.size) : r.closure f = f := if_pos h

/-- Values that lead to old levels only are the same on both sides. -/
theorem value_of_leadsInto {S : LevelId → Prop} (hS : ∀ {id : Nat}, S id → id < r.size) {v : Value}
    (h : v.LeadsInto S) : r.value v = v := by
  cases v with
  | function f => rw [value, r.closure_of_lt (hS h)]
  | _ => rfl

/-- Data leads nowhere and is the same on both sides. -/
theorem value_of_data {S : LevelId → Prop} {v : Value} (hv : v.isCallable = false) :
    v.LeadsInto S ∧ v = r.value v := by
  cases v with
  | function f => cases hv
  | native f => cases hv
  | _ => exact ⟨trivial, rfl⟩

theorem find?_bindings (name : Text) (d : Bindings) :
    Text.Dict.find? name (r.bindings d) = (Text.Dict.find? name d).map r.value := by
  induction d with
  | nil => rfl
  | cons entry rest ih =>
      rcases entry with ⟨n, v⟩
      rw [bindings, List.map_cons, Text.Dict.find?_cons, Text.Dict.find?_cons]
      split
      · rfl
      · exact ih

theorem insert_bindings (name : Text) (v : Value) (d : Bindings) :
    Text.Dict.insert name (r.value v) (r.bindings d) = r.bindings (Text.Dict.insert name v d) := by
  induction d with
  | nil => rfl
  | cons entry rest ih =>
      rcases entry with ⟨n, w⟩
      rw [bindings] at ih ⊢
      rw [List.map_cons, Text.Dict.insert, Text.Dict.insert]
      split
      · rfl
      · split
        · rfl
        · rw [ih]
          rfl

theorem erase_bindings (name : Text) (d : Bindings) :
    Text.Dict.erase name (r.bindings d) = r.bindings (Text.Dict.erase name d) := by
  simp only [Text.Dict.erase, bindings, List.filter_map]
  rfl

/-- Levels that are the same up to the renaming, and lead nowhere else. -/
structure Levels (S : LevelId → Prop) (l l' : Level) : Prop where
  outer : l'.outer = l.outer.map r.level
  find : ∀ name, Text.Dict.find? name l'.bindings = (Text.Dict.find? name l.bindings).map r.value
  leads : l.LeadsInto (r.InScope S)

/-- Stores that are the same up to the renaming, as far as the old levels in `S`
    and the new levels are concerned. -/
structure Stores (S : LevelId → Prop) (t t' : Store) : Prop where
  bound : ∀ {id : Nat}, S id → id < r.size ∧ id < r.size'
  size : r.size ≤ t.levels.size ∧ r.level t.levels.size = t'.levels.size
  old : ∀ {id : Nat}, S id → ∃ l, t.level? id = some l ∧ t'.level? id = some l ∧ l.LeadsInto S
  new : ∀ k, t'.level? (r.size' + k) = (t.level? (r.size + k)).map r.contents
  newLeads : ∀ {k l}, t.level? (r.size + k) = some l → l.LeadsInto (r.InScope S)

namespace Stores

variable {r} {S : LevelId → Prop} {t t' : Store}

/-- The renaming keeps the order of the levels in scope. -/
theorem level_lt_iff (h : r.Stores S t t') {o id : Nat} (ho : r.InScope S o)
    (hid : r.InScope S id) : r.level o < r.level id ↔ o < id := by
  rcases ho with ho | ho
  · have hbound := h.bound ho
    rw [r.level_of_lt hbound.1]
    rcases hid with hid | hid
    · rw [r.level_of_lt (h.bound hid).1]
    · -- An old level comes before every new one.
      rw [r.level_of_ge hid]
      constructor <;> intro _ <;> omega
  · rw [r.level_of_ge ho]
    rcases hid with hid | hid
    · have hbound := h.bound hid
      rw [r.level_of_lt hbound.1]
      constructor <;> intro _ <;> omega
    · rw [r.level_of_ge hid]
      constructor <;> intro _ <;> omega

theorem level_eq_iff (h : r.Stores S t t') {o id : Nat} (ho : r.InScope S o)
    (hid : r.InScope S id) : r.level o = r.level id ↔ o = id := by
  have hlt := h.level_lt_iff ho hid
  have hgt := h.level_lt_iff hid ho
  rcases Nat.lt_trichotomy o id with hless | heq | hmore
  · exact iff_of_false (Nat.ne_of_lt (hlt.mpr hless)) (Nat.ne_of_lt hless)
  · exact iff_of_true (congrArg r.level heq) heq
  · exact iff_of_false (Nat.ne_of_gt (hgt.mpr hmore)) (Nat.ne_of_gt hmore)

/-- Levels in scope are the same up to the renaming, old or new. -/
theorem level? (h : r.Stores S t t') {id : Nat} (hid : r.InScope S id) :
    Option.Rel (r.Levels S) (t.level? id) (t'.level? (r.level id)) := by
  rcases hid with hid | hid
  · rcases h.old hid with ⟨l, hl, hl', hleads⟩
    rw [r.level_of_lt (h.bound hid).1, hl, hl']
    -- All that an old level leads to is old, and old numbers stay.
    refine .some ⟨?_, ?_, hleads.mono fun _ => Or.inl⟩
    · cases houter : l.outer with
      | none => rfl
      | some o => rw [Option.map_some, r.level_of_lt (h.bound (hleads.outer o houter)).1]
    · intro name
      cases hfind : Text.Dict.find? name l.bindings with
      | none => rfl
      | some v =>
          have hv := hleads.bindings name v hfind
          rw [Option.map_some, r.value_of_leadsInto (fun hS => (h.bound hS).1) hv]
  · rcases Nat.exists_eq_add_of_le hid with ⟨k, rfl⟩
    rw [r.level_add, h.new k]
    cases hl : t.level? (r.size + k) with
    | none => exact .none
    | some l => exact .some ⟨rfl, fun name => r.find?_bindings name l.bindings, h.newLeads hl⟩

theorem find? (h : r.Stores S t t') {id : Nat} (hid : r.InScope S id) (name : Text) :
    Text.Dict.find? name (t'.bindings (r.level id)) =
        (Text.Dict.find? name (t.bindings id)).map r.value ∧
      ∀ v, Text.Dict.find? name (t.bindings id) = some v → v.LeadsInto (r.InScope S) := by
  have hlevel := h.level? hid
  rw [Store.bindings, Store.bindings]
  generalize t.level? id = l at hlevel ⊢
  generalize t'.level? (r.level id) = l' at hlevel ⊢
  cases hlevel with
  | none =>
      refine ⟨rfl, ?_⟩
      intro v hv
      cases hv
  | some hl => exact ⟨hl.find name, hl.leads.bindings name⟩

/-- Levels lie inside one another alike. -/
theorem chain (h : r.Stores S t t') {id : Nat} (hid : r.InScope S id) :
    t'.chain (r.level id) = (t.chain id).map r.level ∧ ∀ l ∈ t.chain id, r.InScope S l := by
  induction id using Nat.strongRecOn with
  | _ id ih =>
    have hlevel := h.level? hid
    rw [Store.chain, Store.chain]
    generalize t.level? id = l at hlevel ⊢
    generalize t'.level? (r.level id) = l' at hlevel ⊢
    cases hlevel with
    | none => exact ⟨rfl, nofun⟩
    | @some l l' hl =>
        dsimp only
        rw [hl.outer]
        cases houter : l.outer with
        | none => exact ⟨rfl, by simpa using hid⟩
        | some o =>
            -- The walk goes on if the number of the outer level is smaller,
            -- and that is so on both sides or on neither.
            have ho := hl.leads.outer o houter
            simp only [Option.map_some, h.level_lt_iff ho hid]
            by_cases hlt : o < id
            · rcases ih o hlt ho with ⟨hchain, hscope⟩
              simp only [if_pos hlt, hchain, List.map_cons, List.forall_mem_cons, true_and]
              exact ⟨hid, hscope⟩
            · simp only [if_neg hlt]
              exact ⟨rfl, by simpa using hid⟩

/-- A name has the same value on both sides. -/
theorem lookup (h : r.Stores S t t') {id : Nat} (hid : r.InScope S id) (name : Text) :
    t'.lookup (r.level id) name = (t.lookup id name).map r.value ∧
      ∀ v, t.lookup id name = some v → v.LeadsInto (r.InScope S) := by
  rcases h.chain hid with ⟨hchain, hscope⟩
  rw [Store.lookup, Store.lookup, hchain]
  -- What remains is an induction on the chain, level by level.
  generalize t.chain id = ls at hscope
  induction ls with
  | nil => exact ⟨rfl, nofun⟩
  | cons l ls ih =>
      rw [List.forall_mem_cons] at hscope
      rcases h.find? hscope.1 name with ⟨hfind, hleads⟩
      rw [List.map_cons, List.findSome?_cons, List.findSome?_cons, hfind]
      cases hvalue : Text.Dict.find? name (t.bindings l) with
      | none => exact ih hscope.2
      | some v =>
          refine ⟨rfl, ?_⟩
          rintro w ⟨⟩
          exact hleads v hvalue

/-- A name is found on the same level on both sides. -/
theorem home? (h : r.Stores S t t') {id : Nat} (hid : r.InScope S id) (name : Text) :
    t'.home? (r.level id) name = (t.home? id name).map r.level ∧
      ∀ l, t.home? id name = some l → r.InScope S l := by
  rcases h.chain hid with ⟨hchain, hscope⟩
  rw [Store.home?, Store.home?, hchain]
  refine ⟨?_, fun l hl => hscope l (List.mem_of_find?_eq_some hl)⟩
  generalize t.chain id = ls at hscope
  induction ls with
  | nil => rfl
  | cons l ls ih =>
      rw [List.forall_mem_cons] at hscope
      rw [List.map_cons, List.find?_cons, List.find?_cons, (h.find? hscope.1 name).1,
        Option.isSome_map]
      split
      · rfl
      · exact ih hscope.2

/-- A level in scope changes on both sides. In an old level it changes in the
    same way. -/
theorem update (h : r.Stores S t t') {id : Nat} (hid : r.InScope S id)
    {f f' : Bindings → Bindings}
    (hold : S id → f' = f ∧
      ∀ l : Level, l.LeadsInto S → Level.LeadsInto S { l with bindings := f l.bindings })
    (hnew : ∀ d, f' (r.bindings d) = r.bindings (f d))
    (hleads : ∀ l : Level, l.LeadsInto (r.InScope S) →
      Level.LeadsInto (r.InScope S) { l with bindings := f l.bindings }) :
    r.Stores S (t.update id f) (t'.update (r.level id) f') := by
  refine ⟨h.bound, by rw [Store.size_update, Store.size_update]; exact h.size, ?_, ?_, ?_⟩
  · intro id' hid'
    rcases h.old hid' with ⟨l, hl, hl', hl_leads⟩
    have hsame := h.level_eq_iff hid (Or.inl hid')
    rw [r.level_of_lt (h.bound hid').1] at hsame
    rw [Store.level?_update, Store.level?_update, hl, hl']
    by_cases heq : id = id'
    · -- The level that changes is an old one, and changes in the same way.
      rw [if_pos heq, if_pos (hsame.mpr heq)]
      subst heq
      rw [(hold hid').1]
      exact ⟨_, rfl, rfl, (hold hid').2 l hl_leads⟩
    · rw [if_neg heq, if_neg fun hlevel => heq (hsame.mp hlevel)]
      exact ⟨l, rfl, rfl, hl_leads⟩
  · intro k
    have hsame := h.level_eq_iff hid (Or.inr (Nat.le_add_right r.size k))
    rw [r.level_add] at hsame
    rw [Store.level?_update, Store.level?_update, h.new k]
    by_cases heq : id = r.size + k
    · -- A new one changes in the way that the renaming makes of the change.
      rw [if_pos heq, if_pos (hsame.mpr heq), Option.map_map, Option.map_map]
      congr 1
      funext l
      simp only [Function.comp_apply, contents, hnew]
    · rw [if_neg heq, if_neg fun hlevel => heq (hsame.mp hlevel)]
  · intro k l hl
    rw [Store.level?_update] at hl
    split at hl
    · rcases Option.map_eq_some_iff.mp hl with ⟨l₀, hl₀, rfl⟩
      exact hleads l₀ (h.newLeads hl₀)
    · exact h.newLeads hl

/-- Binding a name in a new level. -/
theorem set (h : r.Stores S t t') {id : Nat} (hid : r.size ≤ id) (name : Text) {v : Value}
    (hv : v.LeadsInto (r.InScope S)) :
    r.Stores S (t.set id name v) (t'.set (r.level id) name (r.value v)) := by
  refine h.update (Or.inr hid) ?_ (r.insert_bindings name v) fun l hl => hl.insert name hv
  -- A new level is none of the old ones.
  intro hS
  exact absurd (h.bound hS).1 (Nat.not_lt.mpr hid)

/-- Removing a name, wherever it is found. -/
theorem remove (h : r.Stores S t t') {id : Nat} (hid : r.InScope S id) (name : Text) :
    Option.Rel (r.Stores S) (t.remove id name) (t'.remove (r.level id) name) := by
  rcases h.home? hid name with ⟨hhome, hscope⟩
  rw [Store.remove, Store.remove, hhome]
  cases hl : t.home? id name with
  | none => exact .none
  | some l =>
      exact .some (h.update (hscope l hl) (fun _ => ⟨rfl, fun l hl => hl.erase name⟩)
        (r.erase_bindings name) fun l hl => hl.erase name)

/-- Opening a level inside one in scope. -/
theorem openLevel (h : r.Stores S t t') {home : Nat} (hhome : r.InScope S home) :
    r.Stores S (t.openLevel (some home)).2 (t'.openLevel (some (r.level home))).2 := by
  rcases h.size with ⟨hle, hsize⟩
  rcases Nat.exists_eq_add_of_le hle with ⟨j, hj⟩
  -- As many levels are new on the one side as on the other, so the next number
  -- on the one side is called the next number on the other.
  have hj' : t'.levels.size = r.size' + j := by rw [← hsize, hj, r.level_add]
  refine ⟨h.bound, ?_, ?_, ?_, ?_⟩
  · rw [Store.size_openLevel, Store.size_openLevel, hj, hj']
    exact ⟨by omega, r.level_add (j + 1)⟩
  · intro id hid
    rcases h.old hid with ⟨l, hl, hl', hleads⟩
    have hbound := h.bound hid
    refine ⟨l, ?_, ?_, hleads⟩
    · rw [Store.level?_openLevel, if_neg (Nat.ne_of_lt (by omega)), hl]
    · rw [Store.level?_openLevel, if_neg (Nat.ne_of_lt (by omega)), hl']
  · intro k
    rw [Store.level?_openLevel, Store.level?_openLevel, h.new k, hj, hj']
    by_cases hk : k = j
    · rw [if_pos (by rw [hk]), if_pos (by rw [hk])]
      rfl
    · rw [if_neg fun heq => hk (Nat.add_left_cancel heq),
        if_neg fun heq => hk (Nat.add_left_cancel heq)]
  · intro k l hl
    rw [Store.level?_openLevel] at hl
    split at hl
    · rw [← Option.some.inj hl]
      refine ⟨?_, nofun⟩
      rintro o ⟨⟩
      exact hhome
    · exact h.newLeads hl

end Stores

end Renaming

end PocketScript
