import PocketScript.Text.Dict

/-!
# Byte order

Listings are in byte order, and byte order is the order of lists by their first
difference.

Some listings are sorted when they are asked for. The names of a dictionary are not: the
order is kept up by every operation, and that it is strict says that no name stands
there twice.

## Theorems

* `Text.le_iff`, `Text.pairwise_sort`: Sorting is by byte order.
* `Text.Dict.pairwise_insert`, `Text.Dict.pairwise_erase`: Names stay in order.
-/

namespace PocketScript.Text

theorem le_iff (a b : Text) : le a b = true ↔ a ≤ b := by
  induction a generalizing b with
  | nil => simp [le]
  | cons x xs ih =>
      cases b with
      | nil => simp [le]
      | cons y ys =>
          rw [le, List.cons_le_cons_iff]
          by_cases hlt : x < y
          · simp [hlt]
          · by_cases hgt : y < x
            · have hne : x ≠ y := fun heq => hlt (heq ▸ hgt)
              simp [hlt, hgt, hne]
            · have heq : x = y := UInt8.le_antisymm (UInt8.not_lt.mp hgt) (UInt8.not_lt.mp hlt)
              simp [heq, ih]

theorem ne_of_lt {a b : Text} (h : a < b) : a ≠ b := by
  rintro rfl
  exact List.lt_irrefl a h

theorem lt_of_le_of_ne {a b : Text} (hle : a ≤ b) (hne : a ≠ b) : a < b :=
  List.not_le.mp fun hba => hne (List.le_antisymm hle hba)

/-- Texts that differ are sorted strictly. -/
theorem pairwise_sort {ts : List Text} (h : ts.Nodup) : (sort ts).Pairwise (· < ·) := by
  have hsorted := List.pairwise_mergeSort
    (fun a b c hab hbc => (le_iff a c).mpr
      (List.le_trans ((le_iff a b).mp hab) ((le_iff b c).mp hbc)))
    (fun a b => by
      rw [Bool.or_eq_true, le_iff, le_iff]
      exact List.le_total a b) ts
  have hnodup : (sort ts).Nodup := (List.mergeSort_perm ts le).nodup_iff.mpr h
  exact (hsorted.and hnodup).imp fun hab => lt_of_le_of_ne ((le_iff _ _).mp hab.1) hab.2

namespace Dict

variable {α : Type}

theorem mem_names_insert {name name' : Text} {a : α} {d : Dict α}
    (h : name' ∈ (insert name a d).names) : name' = name ∨ name' ∈ d.names := by
  induction d with
  | nil => exact .inl (List.mem_singleton.mp h)
  | cons entry rest ih =>
      rcases entry with ⟨n, b⟩
      rw [insert] at h
      split at h
      · exact (List.mem_cons.mp h).imp_right (List.mem_cons_of_mem n)
      · split at h
        · exact List.mem_cons.mp h
        · rcases List.mem_cons.mp h with rfl | hmem
          · exact .inr List.mem_cons_self
          · exact (ih hmem).imp_right (List.mem_cons_of_mem n)

/-- A name is added where it belongs. -/
theorem pairwise_insert {d : Dict α} (h : d.names.Pairwise (· < ·)) (name : Text) (a : α) :
    (insert name a d).names.Pairwise (· < ·) := by
  induction d with
  | nil => exact List.pairwise_singleton _ name
  | cons entry rest ih =>
      rcases entry with ⟨n, b⟩
      rcases List.pairwise_cons.mp h with ⟨hfirst, hrest⟩
      rw [insert]
      by_cases hname : name = n
      · rw [if_pos hname, hname]
        exact h
      · rw [if_neg hname]
        by_cases hle : le name n = true
        · -- It goes in front of `n`, and so of all that come after `n`.
          have hlt : name < n := lt_of_le_of_ne ((le_iff name n).mp hle) hname
          rw [if_pos hle]
          exact List.pairwise_cons.mpr ⟨List.forall_mem_cons.mpr
            ⟨hlt, fun n' hn' => List.lt_trans hlt (hfirst n' hn')⟩, h⟩
        · have hlt : n < name := List.not_le.mp fun hle' => hle ((le_iff name n).mpr hle')
          rw [if_neg hle]
          refine List.pairwise_cons.mpr ⟨fun n' hn' => ?_, ih hrest⟩
          rcases mem_names_insert hn' with rfl | hmem
          · exact hlt
          · exact hfirst n' hmem

theorem pairwise_erase {d : Dict α} (h : d.names.Pairwise (· < ·)) (name : Text) :
    (erase name d).names.Pairwise (· < ·) :=
  h.sublist (List.filter_sublist.map Prod.fst)

end Dict

end PocketScript.Text
