import PocketScript.Proofs.Scanning.Places
import PocketScript.Server.Place

/-!
# Places counted in units

An editor counts the UTF-16 units of a line and the scanner counts its
characters. For a place of a source the two are kept together by the line that
the place is on: the units in front of the place are those of the characters in
front of it.

Both conversions fall back on a plain count where a line or a column does not
exist. At a place they do, so the fallbacks are never needed.

## Theorems

* `columnUnits_length`: The unit that a column of a line starts at.
* `runeIndex_append`, `runeIndex_behind`: The character that a unit is in.
* `Lexicon.Place.unitOffset_eq`: The unit that a place is at.
-/

namespace PocketScript

namespace Rune

theorem lineUnits_cons (r : Rune) (rs : List Rune) : lineUnits (r :: rs) = r.units + lineUnits rs :=
  rfl

theorem lineUnits_append (rs ss : List Rune) :
    lineUnits (rs ++ ss) = lineUnits rs + lineUnits ss := by
  induction rs with
  | nil => exact (Nat.zero_add _).symm
  | cons r rs ih => rw [List.cons_append, lineUnits_cons, lineUnits_cons, ih, Nat.add_assoc]

theorem units_pos (r : Rune) : 0 < r.units := by
  rw [units]
  split <;> decide

end Rune

/-- The unit that a column of a line starts at, if the line is that long. -/
theorem columnUnits_length (left right : List Rune) :
    columnUnits (left ++ right) left.length = Rune.lineUnits left := by
  rw [columnUnits, List.take_left, List.length_append, Nat.sub_eq_zero_of_le (Nat.le_add_right _ _)]
  rfl

/-- A unit of a character of a line is in that character. -/
theorem runeIndex_append (left right : List Rune) (r : Rune) {k : Nat} (hk : k < r.units) :
    runeIndex (left ++ r :: right) (Rune.lineUnits left + k) = left.length := by
  induction left with
  | nil =>
      rw [Rune.lineUnits, List.foldr_nil, Nat.zero_add, List.nil_append, runeIndex, if_pos hk]
      rfl
  | cons l left ih =>
      have hle : ¬ Rune.lineUnits (l :: left) + k < l.units := by
        rw [Rune.lineUnits_cons]
        omega
      have hrest : Rune.lineUnits (l :: left) + k - l.units = Rune.lineUnits left + k := by
        rw [Rune.lineUnits_cons]
        omega
      rw [List.cons_append, runeIndex, if_neg hle, hrest, ih, List.length_cons]

/-- The unit behind some characters is in the next one, or past them all. -/
theorem runeIndex_behind (left right : List Rune) :
    runeIndex (left ++ right) (Rune.lineUnits left) = left.length := by
  cases right with
  | cons r right => exact runeIndex_append left right r (k := 0) (Rune.units_pos r)
  | nil =>
      rw [List.append_nil]
      induction left with
      | nil => rfl
      | cons r left ih =>
          have hle : ¬ Rune.lineUnits (r :: left) < r.units := by
            rw [Rune.lineUnits_cons]
            omega
          rw [runeIndex, if_neg hle, Rune.lineUnits_cons, Nat.add_sub_cancel_left, ih,
            List.length_cons]

namespace Lexicon.Place

variable {source before rest : Text} (h : Place source before rest)

include h

/-- The unit that a place is at. -/
theorem unitOffset_eq :
    unitOffset source (before.count Text.lineFeed) before.lastLine.runes.length =
      Rune.lineUnits before.lastLine.runes := by
  rcases h.line with ⟨line, hline, hrunes⟩
  rw [unitOffset, Int.toNat_natCast, hline]
  simp only
  rw [hrunes, Int.toNat_natCast, columnUnits_length]

end Lexicon.Place

end PocketScript
