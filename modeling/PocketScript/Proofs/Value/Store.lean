import Mathlib.Logic.Basic
import PocketScript.Value.Store

/-!
# What changes in a store

Binding a name changes one name of one level, removing a name changes one name
of one level, and opening a level adds one. Nothing else changes; in particular
no level moves to another place.

`Store.Holds` says that all values bound anywhere in a store are of some sort,
and survives all three.

## Main definitions

* `Store.Holds`: Every bound value is of a given sort.

## Theorems

* `Text.Dict.find?_insert`, `Text.Dict.find?_erase`: One name changes.
* `Store.level?_update`, `Store.bindings_update`: One level changes.
* `Store.level?_openLevel`: One level is added.
* `Store.exists_of_lookup`, `Store.exists_of_remove`: A name is found on the
  chain, and removed there.
* `Store.Holds.set`, `Store.Holds.remove`, `Store.Holds.openLevel`: Every bound
  value stays of its sort.
-/

namespace PocketScript

namespace Text.Dict

variable {α : Type}

theorem find?_cons (name n : Text) (a : α) (d : Dict α) :
    find? name ((n, a) :: d) = if name = n then some a else find? name d := by
  rw [find?, List.lookup_cons]
  by_cases hn : name = n
  · rw [if_pos hn, beq_iff_eq.mpr hn]
  · rw [if_neg hn, beq_false_of_ne hn]
    rfl

/-- The names that are listed are those that stand for something. -/
theorem mem_names_iff {name : Text} {d : Dict α} : name ∈ d.names ↔ (d.find? name).isSome := by
  induction d with
  | nil => simp only [names, find?, List.map_nil, List.not_mem_nil, List.lookup_nil,
      Option.isSome_none, Bool.false_eq_true]
  | cons entry rest ih =>
      rcases entry with ⟨n, a⟩
      rw [names] at ih
      rw [names, find?_cons, List.map_cons, List.mem_cons, ih]
      by_cases hn : name = n
      · simp only [hn, if_pos, true_or, Option.isSome_some]
      · simp only [hn, if_neg, false_or, not_false_eq_true]

theorem find?_insert (name name' : Text) (a : α) (d : Dict α) :
    find? name' (insert name a d) = if name' = name then some a else find? name' d := by
  induction d with
  | nil => exact find?_cons name' name a []
  | cons entry rest ih =>
      rcases entry with ⟨n, b⟩
      rw [insert]
      by_cases hn : name = n
      · -- The name was bound here, and its new value takes the place of the old.
        rw [if_pos hn, find?_cons, find?_cons, hn]
        split <;> rfl
      · rw [if_neg hn]
        split
        · exact find?_cons name' name a _
        · rw [find?_cons, find?_cons, ih]
          by_cases hn' : name' = n
          · rw [if_pos hn', if_pos hn', if_neg fun h => hn (h.symm.trans hn')]
          · rw [if_neg hn', if_neg hn']

theorem find?_erase (name name' : Text) (d : Dict α) :
    find? name' (erase name d) = if name' = name then none else find? name' d := by
  induction d with
  | nil =>
      rw [erase, List.filter_nil]
      split <;> rfl
  | cons entry rest ih =>
      rcases entry with ⟨n, b⟩
      rw [erase] at ih
      rw [erase, List.filter_cons]
      by_cases hn : n = name
      · rw [if_neg (by simp [hn]), ih, find?_cons]
        by_cases hname : name' = name
        · rw [if_pos hname, if_pos hname]
        · rw [if_neg hname, if_neg hname, if_neg fun h => hname (h.trans hn)]
      · rw [if_pos (by simpa using hn), find?_cons, find?_cons, ih]
        by_cases hn' : name' = n
        · rw [if_pos hn', if_pos hn', if_neg fun h => hn (hn'.symm.trans h)]
        · rw [if_neg hn', if_neg hn']

end Text.Dict

namespace Store

variable (s : Store)

theorem level?_update (id id' : LevelId) (f : Bindings → Bindings) :
    (s.update id f).level? id' =
      if id = id' then (s.level? id').map fun l => { l with bindings := f l.bindings }
      else s.level? id' := by
  simp only [level?, update, Array.getElem?_modify]

theorem size_update (id : LevelId) (f : Bindings → Bindings) :
    (s.update id f).levels.size = s.levels.size := by
  rw [update, Array.size_modify]

theorem bindings_update (id id' : LevelId) (f : Bindings → Bindings) :
    (s.update id f).bindings id' =
      if id = id' ∧ id' < s.levels.size then f (s.bindings id') else s.bindings id' := by
  rw [bindings, level?_update]
  by_cases hid : id = id'
  · by_cases hsize : id' < s.levels.size
    · rw [if_pos hid, if_pos ⟨hid, hsize⟩, bindings, level?, Array.getElem?_eq_getElem hsize]
      rfl
    · rw [if_pos hid, if_neg fun h => hsize h.2, bindings, level?,
        Array.getElem?_eq_none (Nat.le_of_not_lt hsize)]
      rfl
  · rw [if_neg hid, if_neg fun h => hid h.1]
    rfl

theorem bindings_initial (id : LevelId) : initial.bindings id = [] := by
  cases id <;> rfl

theorem level?_openLevel (outer : Option LevelId) (id : LevelId) :
    (s.openLevel outer).2.level? id =
      if id = s.levels.size then some { outer := outer } else s.level? id := by
  simp only [level?, openLevel, Array.getElem?_push]

theorem bindings_openLevel (outer : Option LevelId) (id : LevelId) :
    (s.openLevel outer).2.bindings id = s.bindings id := by
  rw [bindings, level?_openLevel]
  split
  · rename_i hid
    rw [hid, bindings, level?, Array.getElem?_eq_none (Nat.le_refl _)]
    rfl
  · rfl

theorem size_openLevel (outer : Option LevelId) :
    (s.openLevel outer).2.levels.size = s.levels.size + 1 := by
  rw [openLevel, Array.size_push]

variable {s}

theorem lt_size_of_level? {id : LevelId} {l : Level} (h : s.level? id = some l) :
    id < s.levels.size := by
  rw [level?, Array.getElem?_eq_some_iff] at h
  exact h.1

theorem lt_size_of_find? {id : LevelId} {name : Text} {v : Value}
    (h : Text.Dict.find? name (s.bindings id) = some v) : id < s.levels.size := by
  by_cases hlt : id < s.levels.size
  · exact hlt
  · rw [bindings, level?, Array.getElem?_eq_none (Nat.le_of_not_lt hlt)] at h
    cases h

/-- A name that has a value is bound to it on some level of the chain. -/
theorem exists_of_lookup {id : LevelId} {name : Text} {v : Value} (h : s.lookup id name = some v) :
    ∃ l ∈ s.chain id, Text.Dict.find? name (s.bindings l) = some v :=
  List.exists_of_findSome?_eq_some h

/-- A name is removed from the level that it is found on. -/
theorem exists_of_remove {id : LevelId} {name : Text} {t : Store} (h : s.remove id name = some t) :
    ∃ l, t = s.update l (Text.Dict.erase name) := by
  rcases Option.map_eq_some_iff.mp h with ⟨l, _, ht⟩
  exact ⟨l, ht.symm⟩

/-- Every value that is bound in the store is of the sort `P`. -/
def Holds (P : Value → Prop) (s : Store) : Prop :=
  ∀ id name v, Text.Dict.find? name (s.bindings id) = some v → P v

namespace Holds

variable {P : Value → Prop}

theorem lookup (h : s.Holds P) {id : LevelId} {name : Text} {v : Value}
    (hv : s.lookup id name = some v) : P v := by
  rcases exists_of_lookup hv with ⟨l, _, hfind⟩
  exact h l name v hfind

/-- A name has a value of the sort, or none. -/
theorem get_cases (h : s.Holds P) (id : LevelId) (name : Token) :
    (∃ v, s.get id name = .ok v ∧ P v) ∨ s.get id name = .error (.undefined name) := by
  rw [get]
  cases hlookup : s.lookup id name.lexeme with
  | none => exact .inr rfl
  | some v => exact .inl ⟨v, rfl, h.lookup hlookup⟩

theorem set (h : s.Holds P) (id : LevelId) (name : Text) {v : Value} (hv : P v) :
    (s.set id name v).Holds P := by
  intro id' name' w hw
  rw [Store.set, bindings_update] at hw
  split at hw
  · rw [Text.Dict.find?_insert] at hw
    split at hw
    · rw [← Option.some.inj hw]
      exact hv
    · exact h id' name' w hw
  · exact h id' name' w hw

theorem remove (h : s.Holds P) {id : LevelId} {name : Text} {t : Store}
    (ht : s.remove id name = some t) : t.Holds P := by
  rcases exists_of_remove ht with ⟨l, rfl⟩
  intro id' name' w hw
  rw [bindings_update] at hw
  split at hw
  · rw [Text.Dict.find?_erase] at hw
    split at hw
    · cases hw
    · exact h id' name' w hw
  · exact h id' name' w hw

theorem openLevel (h : s.Holds P) (outer : Option LevelId) : (s.openLevel outer).2.Holds P := by
  intro id name v hv
  rw [bindings_openLevel] at hv
  exact h id name v hv

end Holds

end Store

end PocketScript
