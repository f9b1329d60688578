import Mathlib.Order.Monotone.Basic
import PocketScript.Proofs.Server.Place

/-!
# Columns and units

The two conversions between columns and UTF-16 units, each against the other.

They are written apart from one another: one takes units off an offset until it has
gone into a character, the other adds up the units of the characters in front of a
column. What ties them together is that a column is at or before the character that an
offset is in exactly if the units in front of the column are no more than the offset.
Everything else comes from that and from columns taking one unit or two each, past the
end of the line one.

## Theorems

* `columnUnits_strictMono`: Further columns start at further units.
* `le_runeIndex_iff`: The two conversions are adjoint.
* `runeIndex_columnUnits`, `lt_columnUnits_succ`, `runeIndex_of_le`: What follows for
  one column or one unit.
* `columns_and_units_are_adjoint`: The same for the lines of a source.
-/

namespace PocketScript

theorem columnUnits_zero (rs : List Rune) : columnUnits rs 0 = 0 := by
  rw [columnUnits, Nat.zero_sub]
  rfl

theorem columnUnits_cons_succ (r : Rune) (rs : List Rune) (i : Nat) :
    columnUnits (r :: rs) (i + 1) = r.units + columnUnits rs i := by
  rw [columnUnits, columnUnits, List.take_succ_cons, Rune.lineUnits_cons, List.length_cons,
    Nat.add_sub_add_right, Nat.add_assoc]

/-- The unit behind the last character is the number of units. -/
theorem columnUnits_all (rs : List Rune) : columnUnits rs rs.length = Rune.lineUnits rs := by
  have hall := columnUnits_length rs []
  rwa [List.append_nil] at hall

theorem columnUnits_lt_succ (rs : List Rune) (i : Nat) :
    columnUnits rs i < columnUnits rs (i + 1) := by
  induction rs generalizing i with
  | nil =>
      simp only [columnUnits, List.take_nil, List.length_nil]
      omega
  | cons r rs ih =>
      cases i with
      | zero =>
          rw [columnUnits_cons_succ, columnUnits_zero, columnUnits_zero]
          exact r.units_pos
      | succ i =>
          rw [columnUnits_cons_succ, columnUnits_cons_succ]
          exact Nat.add_lt_add_left (ih i) _

/-- Further columns start at further units, also past the end of the line. -/
theorem columnUnits_strictMono (rs : List Rune) : StrictMono (columnUnits rs) :=
  strictMono_nat_of_lt_succ (columnUnits_lt_succ rs)

theorem runeIndex_le_length (rs : List Rune) (u : Nat) : runeIndex rs u ≤ rs.length := by
  induction rs generalizing u with
  | nil => exact Nat.le_refl 0
  | cons r rs ih =>
      rw [runeIndex]
      split
      · exact Nat.zero_le _
      · exact Nat.succ_le_succ (ih _)

/-- A column of the line is at or before the character that a unit is in exactly if it
    starts at or before the unit. -/
theorem le_runeIndex_iff {rs : List Rune} {i : Nat} (hi : i ≤ rs.length) (u : Nat) :
    i ≤ runeIndex rs u ↔ columnUnits rs i ≤ u := by
  induction rs generalizing i u with
  | nil =>
      obtain rfl : i = 0 := Nat.le_zero.mp hi
      simp only [columnUnits_zero, Nat.zero_le]
  | cons r rs ih =>
      cases i with
      | zero => simp only [columnUnits_zero, Nat.zero_le]
      | succ i =>
          rw [runeIndex, columnUnits_cons_succ]
          by_cases hu : u < r.units
          · -- The unit is in the first character, and the column is behind it.
            rw [if_pos hu]
            omega
          · rw [if_neg hu, Nat.add_le_add_iff_right, ih (Nat.le_of_succ_le_succ hi)]
            omega

/-- The unit that a column starts at is in the character of that column. -/
theorem runeIndex_columnUnits {rs : List Rune} {i : Nat} (hi : i ≤ rs.length) :
    runeIndex rs (columnUnits rs i) = i := by
  refine Nat.le_antisymm (Nat.not_lt.mp fun hlt => ?_) ((le_runeIndex_iff hi _).mpr (Nat.le_refl _))
  have hnext : i + 1 ≤ rs.length := Nat.le_trans hlt (runeIndex_le_length rs _)
  have hback := (le_runeIndex_iff hnext _).mp hlt
  exact absurd (columnUnits_lt_succ rs i) (Nat.not_lt.mpr hback)

/-- A unit is not before the start of the character it is in. -/
theorem columnUnits_runeIndex_le (rs : List Rune) (u : Nat) :
    columnUnits rs (runeIndex rs u) ≤ u :=
  (le_runeIndex_iff (runeIndex_le_length rs u) u).mp (Nat.le_refl _)

/-- A unit past the end is in no character. -/
theorem runeIndex_of_le {rs : List Rune} {u : Nat} (hu : Rune.lineUnits rs ≤ u) :
    runeIndex rs u = rs.length := by
  rw [← columnUnits_all] at hu
  exact Nat.le_antisymm (runeIndex_le_length rs u) ((le_runeIndex_iff (Nat.le_refl _) u).mpr hu)

/-- A unit of the line is before the start of the character behind the one it is in. -/
theorem lt_columnUnits_succ {rs : List Rune} {u : Nat} (hu : u < Rune.lineUnits rs) :
    u < columnUnits rs (runeIndex rs u + 1) := by
  have hle := columnUnits_runeIndex_le rs u
  have hlt : runeIndex rs u < rs.length := by
    refine Nat.lt_of_le_of_ne (runeIndex_le_length rs u) fun heq => ?_
    rw [heq, columnUnits_all] at hle
    exact absurd hu (Nat.not_lt.mpr hle)
  refine Nat.not_le.mp fun hnext => ?_
  exact absurd ((le_runeIndex_iff hlt u).mpr hnext) (Nat.not_succ_le_self _)

theorem unitOffset_of_line {source line : Text} {n : Nat} (h : source.lines[n]? = some line)
    (column : Nat) : unitOffset source n column = columnUnits line.runes column := by
  rw [unitOffset, Int.toNat_natCast, h]
  rfl

/-- The unit at which a column of a line starts, against the character that a unit of
    the line is in. From the column to its unit and back is nothing. A unit of the line
    is between the start of its character and the start of the next, and a unit past the
    end is behind the last character. Further columns start at further units, on every
    line and past its end. -/
theorem columns_and_units_are_adjoint (source : Text) :
    (∀ (n : Nat) (line : Text), source.lines[n]? = some line →
      (∀ i ≤ line.runes.length, ∃ u : Nat, unitOffset source n i = u ∧
        runeIndex line.runes u = i) ∧
      (∀ u < Rune.lineUnits line.runes,
        unitOffset source n (runeIndex line.runes u) ≤ u ∧
          u < unitOffset source n ↑(runeIndex line.runes u + 1)) ∧
      ∀ u ≥ Rune.lineUnits line.runes, runeIndex line.runes u = line.runes.length) ∧
    ∀ n i j : Nat, i < j → unitOffset source n i < unitOffset source n j := by
  refine ⟨fun n line hline => ⟨fun i hi => ?_, fun u hu => ?_, fun u hu => runeIndex_of_le hu⟩,
    fun n i j hij => ?_⟩
  · exact ⟨columnUnits line.runes i, unitOffset_of_line hline i, runeIndex_columnUnits hi⟩
  · rw [unitOffset_of_line hline, unitOffset_of_line hline]
    exact ⟨Int.ofNat_le.mpr (columnUnits_runeIndex_le _ u),
      Int.ofNat_lt.mpr (lt_columnUnits_succ hu)⟩
  · cases hline : source.lines[n]? with
    | some line =>
        rw [unitOffset_of_line hline, unitOffset_of_line hline]
        exact Int.ofNat_lt.mpr (columnUnits_strictMono line.runes hij)
    | none =>
        simp only [unitOffset, Int.toNat_natCast, hline]
        exact Int.ofNat_lt.mpr hij

/-- A character of two units, a byte that spells none, and a letter. -/
def pairLine : Text := utf8 "😀" ++ [0xFF] ++ utf8 "b"

/-- A source that has it below another line. -/
def pairSource : Text := 97 :: Text.lineFeed :: pairLine

/-- On the second line of the source the second unit is in the first character, the
    letter starts at the fourth, and from the fifth on there is nothing. -/
theorem pairLine_is_converted :
    (pairSource.lines[1]? = some pairLine ∧ pairLine.runes.length = 3 ∧
      Rune.lineUnits pairLine.runes = 4) ∧
    (unitOffset pairSource 1 ↑(runeIndex pairLine.runes 1) ≤ 1 ∧
      1 < unitOffset pairSource 1 ↑(runeIndex pairLine.runes 1 + 1)) ∧
    (∃ u : Nat, unitOffset pairSource 1 2 = u ∧ runeIndex pairLine.runes u = 2) ∧
    runeIndex pairLine.runes 4 = 3 ∧
    unitOffset pairSource 1 3 < unitOffset pairSource 1 7 := by
  have hline : pairSource.lines[1]? = some pairLine := by decide
  have hlength : pairLine.runes.length = 3 := by decide
  have hunits : Rune.lineUnits pairLine.runes = 4 := by decide
  rcases columns_and_units_are_adjoint pairSource with ⟨hlines, hmono⟩
  rcases hlines 1 pairLine hline with ⟨hback, hinside, hbehind⟩
  refine ⟨⟨hline, hlength, hunits⟩, ?_, ?_, ?_, ?_⟩
  · exact hinside 1 (by decide)
  · exact hback 2 (by decide)
  · rw [← hlength]
    exact hbehind 4 (by decide)
  · exact hmono 1 3 7 (by decide)

end PocketScript
