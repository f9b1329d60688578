import Mathlib.Algebra.Order.Field.Power
import Mathlib.Algebra.Order.Field.Rat
import Mathlib.Tactic.FieldSimp
import Mathlib.Tactic.Linarith
import Mathlib.Tactic.NormNum
import Mathlib.Tactic.Positivity
import Mathlib.Tactic.Ring
import PocketScript.Number.Shortest

/-!
# Shortest digits name one double

The decimal that is searched for is found, and it names the double it was searched
for and no other.

Both are about intervals. The numbers nearest to a double make up an interval that
reaches half way to its neighbours. The search looks at the two multiples of a power
of ten next to the double. If neither is in the interval, the interval is not wider
than that power. The last power that is tried is less than a tenth of the last place
of the double, so the search ends before that. And a number in the intervals of two
doubles would have to be the end that they share. Neighbours have significands of
which one is even and one is odd, and the end belongs to the even one only.

All of this is said of rational numbers. The search itself multiplies everything out,
which is only a matter of scale (`Interval.contains_iff`).

## Main definitions

* `Decimal.value`: The number that a decimal names.
* `Binary.Canonical`: The significands and exponents that doubles have.
* `Interval.Holds`: A number lies in the interval.

## Theorems

* `Interval.le_of_pick?_eq_none`: A narrow grid meets the interval.
* `Interval.magnitude_le`: The power of ten that the search starts below.
* `Decimal.shortest_holds`: The search finds a decimal in the interval.
* `Binary.eq_of_holds`: A number lies in the interval of one double.
* `Decimal.shortest_injective`: The decimal tells which double it was found for.
-/

namespace PocketScript

theorem cast_twoTo (n : Nat) : (twoTo n : ℚ) = 2 ^ n := by
  rw [show twoTo n = 2 ^ n from rfl, Nat.cast_pow, Nat.cast_ofNat]

theorem cast_tenTo (n : Nat) : (tenTo n : ℚ) = 10 ^ n := by
  rw [show tenTo n = 10 ^ n from rfl, Nat.cast_pow, Nat.cast_ofNat]

/-- A power with an integer exponent, multiplied out. -/
theorem zpow_mul_pow_toNat {b : ℚ} (hb : b ≠ 0) (k : Int) :
    b ^ k * b ^ (-k).toNat = b ^ k.toNat := by
  rw [← zpow_natCast, ← zpow_natCast, ← zpow_add₀ hb]
  congr 1
  omega

namespace Decimal

/-- The number that digits and a power of ten name. -/
def value (d : Decimal) : ℚ := d.digits * 10 ^ d.exponent

/-- Zeros at the end do not count. -/
theorem value_trimmed (steps : Nat) (d : Decimal) : (trimmed steps d).value = d.value := by
  induction steps generalizing d with
  | zero => rfl
  | succ n ih =>
      rw [trimmed]
      split
      · rename_i hzero
        have hdigits : d.digits = d.digits / 10 * 10 := by omega
        rw [ih, value, value, zpow_add₀ (by norm_num)]
        conv_rhs => rw [hdigits]
        push_cast
        ring
      · rfl

end Decimal

namespace Interval

/-- A number lies in the interval. -/
def Holds (i : Interval) (x : ℚ) : Prop :=
  if i.closed then i.low ≤ x * i.scale ∧ x * i.scale ≤ i.high
  else i.low < x * i.scale ∧ x * i.scale < i.high

theorem Holds.bounds {i : Interval} {x : ℚ} (h : i.Holds x) :
    i.low ≤ x * i.scale ∧ x * i.scale ≤ i.high := by
  rw [Holds] at h
  split at h
  · exact h
  · exact ⟨h.1.le, h.2.le⟩

theorem holds_of_lt {i : Interval} {x : ℚ} (hlow : i.low < x * i.scale)
    (hhigh : x * i.scale < i.high) : i.Holds x := by
  rw [Holds]
  split
  · exact ⟨hlow.le, hhigh.le⟩
  · exact ⟨hlow, hhigh⟩

/-- The search compares a multiple of a power of ten with the ends, multiplied out. -/
theorem contains_iff (i : Interval) (n : Nat) (place : Int) :
    i.contains (tenTo (-place).toNat) (n * (i.scale * tenTo place.toNat)) = true ↔
      i.Holds (Decimal.value ⟨n, place⟩) := by
  have hup : (0 : ℚ) < 10 ^ (-place).toNat := by positivity
  have hmark : ((n * (i.scale * tenTo place.toNat) : Nat) : ℚ) =
      Decimal.value ⟨n, place⟩ * i.scale * 10 ^ (-place).toNat := by
    push_cast
    rw [cast_tenTo, ← zpow_mul_pow_toNat (by norm_num) place, Decimal.value]
    ring
  have hend : ∀ e : Nat, ((e * tenTo (-place).toNat : Nat) : ℚ) = e * 10 ^ (-place).toNat := by
    intro e
    rw [Nat.cast_mul, cast_tenTo]
  rw [contains, Holds]
  split
  · rw [Bool.and_eq_true, decide_eq_true_eq, decide_eq_true_eq, ← Nat.cast_le (α := ℚ),
      ← Nat.cast_le (α := ℚ), hmark, hend, hend, mul_le_mul_iff_left₀ hup,
      mul_le_mul_iff_left₀ hup]
  · rw [Bool.and_eq_true, decide_eq_true_eq, decide_eq_true_eq, ← Nat.cast_lt (α := ℚ),
      ← Nat.cast_lt (α := ℚ), hmark, hend, hend, mul_lt_mul_iff_left₀ hup,
      mul_lt_mul_iff_left₀ hup]

/-- What is picked lies in the interval. -/
theorem holds_of_pick? {i : Interval} {place : Int} {d : Decimal} (h : i.pick? place = some d) :
    i.Holds d.value := by
  simp only [pick?] at h
  split at h
  · rename_i hbelow _
    cases h
    exact (contains_iff i _ place).mp hbelow
  · rename_i _ habove
    cases h
    exact (contains_iff i _ place).mp habove
  · cases h
  · rename_i hbelow habove
    split at h
    · cases h
      exact (contains_iff i _ place).mp hbelow
    · cases h
      exact (contains_iff i _ place).mp habove

/-- The value lies between the two next multiples. -/
theorem value_between {i : Interval} {place : Int} {n : Nat} (hscale : 0 < i.scale)
    (hn : i.value * tenTo (-place).toNat / (i.scale * tenTo place.toNat) = n) :
    (n : ℚ) * (i.scale * 10 ^ place) ≤ i.value ∧
      (i.value : ℚ) < (n + 1) * (i.scale * 10 ^ place) := by
  have hunit : 0 < i.scale * tenTo place.toNat :=
    Nat.mul_pos hscale (Nat.pow_pos (by decide))
  have hup : (0 : ℚ) < 10 ^ (-place).toNat := by positivity
  have hcast : ((i.scale * tenTo place.toNat : Nat) : ℚ) =
      i.scale * 10 ^ place * 10 ^ (-place).toNat := by
    rw [Nat.cast_mul, cast_tenTo, ← zpow_mul_pow_toNat (by norm_num) place]
    ring
  have hvalue : ((i.value * tenTo (-place).toNat : Nat) : ℚ) = i.value * 10 ^ (-place).toNat := by
    rw [Nat.cast_mul, cast_tenTo]
  constructor
  · have hle := Nat.div_mul_le_self (i.value * tenTo (-place).toNat) (i.scale * tenTo place.toNat)
    rw [hn, ← Nat.cast_le (α := ℚ), Nat.cast_mul, hcast, hvalue, ← mul_assoc,
      mul_le_mul_iff_left₀ hup] at hle
    exact hle
  · have hlt := Nat.lt_div_mul_add (a := i.value * tenTo (-place).toNat) hunit
    rw [hn, ← Nat.succ_mul, ← Nat.cast_lt (α := ℚ), hvalue, Nat.cast_mul, hcast, ← mul_assoc,
      mul_lt_mul_iff_left₀ hup, Nat.cast_succ] at hlt
    exact hlt

/-- If none of the two next multiples lies in the interval, it lies between them. -/
theorem le_of_pick?_eq_none {i : Interval} {place : Int} (h : i.pick? place = none)
    (hscale : 0 < i.scale) (hlow : i.low < i.value) (hhigh : i.value < i.high) :
    (i.high : ℚ) - i.low ≤ i.scale * 10 ^ place := by
  simp only [pick?] at h
  generalize hn : i.value * tenTo (-place).toNat / (i.scale * tenTo place.toNat) = n at h
  rcases value_between hscale hn with ⟨hbelow, habove⟩
  have hlow' : (i.low : ℚ) < i.value := by exact_mod_cast hlow
  have hhigh' : (i.value : ℚ) < i.high := by exact_mod_cast hhigh
  have hscaled : ∀ k : Nat, Decimal.value ⟨k, place⟩ * i.scale = k * (i.scale * 10 ^ place) := by
    intro k
    rw [Decimal.value]
    ring
  split at h
  · cases h
  · cases h
  · rename_i hleft hright
    have hfirst : ¬ i.Holds (Decimal.value ⟨n, place⟩) := by
      rw [← contains_iff, hleft]
      decide
    have hsecond : ¬ i.Holds (Decimal.value ⟨n + 1, place⟩) := by
      rw [← contains_iff, hright]
      decide
    have hend : (n : ℚ) * (i.scale * 10 ^ place) ≤ i.low := by
      by_contra hlt
      refine hfirst (holds_of_lt ?_ ?_)
      · rw [hscaled]
        exact not_le.mp hlt
      · rw [hscaled]
        exact hbelow.trans_lt hhigh'
    have hother : (i.high : ℚ) ≤ (n + 1) * (i.scale * 10 ^ place) := by
      by_contra hlt
      refine hsecond (holds_of_lt ?_ ?_)
      · rw [hscaled]
        push_cast
        exact hlow'.trans habove
      · rw [hscaled]
        push_cast
        exact not_le.mp hlt
    linarith
  · split at h
    · cases h
    · cases h

/-- The search ends with a decimal in the interval if the last grid has one. -/
theorem holds_search {i : Interval} {n : Nat} {place : Int}
    (h : i.pick? (place - n) ≠ none) : i.Holds (i.search (n + 1) place).value := by
  induction n generalizing place with
  | zero =>
      rw [Nat.cast_zero, sub_zero] at h
      rcases Option.ne_none_iff_exists'.mp h with ⟨d, hd⟩
      rw [search, hd]
      exact holds_of_pick? hd
  | succ n ih =>
      rw [search]
      cases hpick : i.pick? place with
      | some d => exact holds_of_pick? hpick
      | none =>
          refine ih ?_
          rwa [Nat.cast_succ, add_comm, ← sub_sub] at h

theorem pow_length_le {n : Nat} (hn : 0 < n) :
    (10 : ℚ) ^ (((Nat.toDigits 10 n).length : Int) - 1) ≤ n := by
  have hpos := Nat.length_toDigits_pos (b := 10) (n := n)
  have hexp : ((Nat.toDigits 10 n).length : Int) - 1 = ((Nat.toDigits 10 n).length - 1 : Nat) := by
    omega
  rw [hexp, zpow_natCast]
  have hle : 10 ^ ((Nat.toDigits 10 n).length - 1) ≤ n := by
    by_contra hlt
    cases hlength : (Nat.toDigits 10 n).length - 1 with
    | zero =>
        rw [hlength] at hlt
        omega
    | succ k =>
        rw [hlength] at hlt
        have := (Nat.length_toDigits_le_iff (by decide) k.succ_pos).mpr (Nat.not_le.mp hlt)
        omega
  exact_mod_cast hle

theorem lt_pow_length (n : Nat) : (n : ℚ) < 10 ^ ((Nat.toDigits 10 n).length : Int) := by
  have hlt := (Nat.length_toDigits_le_iff (b := 10) (n := n) (by decide)
    Nat.length_toDigits_pos).mp (Nat.le_refl _)
  rw [zpow_natCast]
  exact_mod_cast hlt

/-- The power of ten below the first one that is tried does not exceed the value. -/
theorem magnitude_le {i : Interval} (hscale : 0 < i.scale) (hvalue : 0 < i.value) :
    i.scale * (10 : ℚ) ^ (i.magnitude - 1) ≤ i.value := by
  have hten : (10 : ℚ) ≠ 0 := by norm_num
  have hpos : (0 : ℚ) < i.scale := by exact_mod_cast hscale
  simp only [magnitude]
  generalize hguess : ((Nat.toDigits 10 i.value).length : Int) - (Nat.toDigits 10 i.scale).length =
    guess
  split
  · rename_i hle
    rw [← Nat.cast_le (α := ℚ), Nat.cast_mul, Nat.cast_mul, cast_tenTo, cast_tenTo,
      ← zpow_mul_pow_toNat hten guess, ← mul_assoc,
      mul_le_mul_iff_left₀ (by positivity)] at hle
    rwa [add_sub_cancel_right]
  · have hexp : guess - 1 + (Nat.toDigits 10 i.scale).length =
        ((Nat.toDigits 10 i.value).length : Int) - 1 := by
      omega
    calc (i.scale : ℚ) * 10 ^ (guess - 1)
        ≤ 10 ^ ((Nat.toDigits 10 i.scale).length : Int) * 10 ^ (guess - 1) :=
          mul_le_mul_of_nonneg_right (lt_pow_length i.scale).le (by positivity)
      _ = 10 ^ (((Nat.toDigits 10 i.value).length : Int) - 1) := by
          rw [← zpow_add₀ hten, add_comm, hexp]
      _ ≤ i.value := pow_length_le hvalue

end Interval

namespace Binary

/-- The significands and exponents that doubles have. All but the smallest have a
    significand of full length. -/
structure Canonical (m : Nat) (q : Int) : Prop where
  short : m < 2 ^ 53
  least : leastExponent ≤ q
  long : leastExponent < q → hidden ≤ m

/-- How far the interval reaches down, in quarters of the last place. -/
def reach (m : Nat) (q : Int) : Nat := if m = hidden ∧ leastExponent < q then 1 else 2

theorem reach_cases (m : Nat) (q : Int) :
    m = hidden ∧ reach m q = 1 ∨ ¬ (m = hidden ∧ leastExponent < q) ∧ reach m q = 2 := by
  by_cases h : m = hidden ∧ leastExponent < q
  · exact Or.inl ⟨h.1, if_pos h⟩
  · exact Or.inr ⟨h, if_neg h⟩

/-- The lower end of the interval of a double. -/
def lowEnd (m : Nat) (q : Int) : ℚ := (4 * m - reach m q) * 2 ^ (q - 2)

/-- The upper end. -/
def highEnd (m : Nat) (q : Int) : ℚ := (4 * m + 2) * 2 ^ (q - 2)

section

variable {m m' : Nat} {q q' : Int}

theorem reach_le (m : Nat) (q : Int) : reach m q ≤ 2 := by
  rcases reach_cases m q with ⟨_, h⟩ | ⟨_, h⟩
  · omega
  · omega

theorem reach_pos (m : Nat) (q : Int) : 0 < reach m q := by
  rcases reach_cases m q with ⟨_, h⟩ | ⟨_, h⟩
  · omega
  · omega

theorem lowEnd_pos (hm : 0 < m) : 0 < lowEnd m q := by
  have hreach : (reach m q : ℚ) ≤ 2 := by exact_mod_cast reach_le m q
  have hm' : (1 : ℚ) ≤ m := by exact_mod_cast hm
  exact mul_pos (by linarith) (by positivity)

/-- A larger exponent takes the lower end beyond the significands of full length. -/
theorem le_lowEnd_of_lt (h' : Canonical m' q') (hleast : leastExponent ≤ q) (hq : q < q') :
    (2 ^ 55 - 2) * (2 : ℚ) ^ (q - 2) ≤ lowEnd m' q' := by
  have hlong := h'.long (hleast.trans_lt hq)
  have hsteps : (2 : ℚ) ≤ 2 ^ (q' - q) := by
    calc (2 : ℚ) = 2 ^ (1 : Int) := (zpow_one 2).symm
      _ ≤ 2 ^ (q' - q) := zpow_le_zpow_right₀ (by norm_num) (by omega)
  have hfirst : 2 ^ 54 - 1 ≤ 4 * (m' : ℚ) - reach m' q' := by
    have hhidden : hidden = 2 ^ 52 := rfl
    have hnat : 2 ^ 54 - 1 + reach m' q' ≤ 4 * m' := by
      rcases reach_cases m' q' with ⟨_, hreach⟩ | ⟨hne, hreach⟩
      · omega
      · have hne' : m' ≠ hidden := fun heq => hne ⟨heq, hleast.trans_lt hq⟩
        omega
    have hcast : ((2 ^ 54 - 1 + reach m' q' : Nat) : ℚ) ≤ (4 * m' : Nat) := by
      exact_mod_cast hnat
    push_cast at hcast
    linarith
  have hsplit : (2 : ℚ) ^ (q' - 2) = 2 ^ (q' - q) * 2 ^ (q - 2) := by
    rw [← zpow_add₀ (by norm_num)]
    congr 1
    omega
  have hproduct : (2 ^ 54 - 1) * 2 ≤ (4 * (m' : ℚ) - reach m' q') * 2 ^ (q' - q) :=
    mul_le_mul hfirst hsteps (by norm_num) (by linarith)
  rw [lowEnd, hsplit, ← mul_assoc]
  exact mul_le_mul_of_nonneg_right (by linarith) (by positivity)

/-- Intervals are in the order of the doubles, and if two of them share an end, one of the
    significands is odd. -/
theorem highEnd_le_lowEnd (h : Canonical m q) (h' : Canonical m' q')
    (hlt : q < q' ∨ q = q' ∧ m < m') : highEnd m q ≤ lowEnd m' q' ∧
      (highEnd m q = lowEnd m' q' → m % 2 = 1 ∨ m' % 2 = 1) := by
  have hpos : (0 : ℚ) < 2 ^ (q - 2) := by positivity
  rcases hlt with hq | ⟨rfl, hm⟩
  · have hlow := le_lowEnd_of_lt h' h.least hq
    have hshort : (m : ℚ) + 1 ≤ 2 ^ 53 := by exact_mod_cast h.short
    refine ⟨le_trans (mul_le_mul_of_nonneg_right (by linarith) hpos.le) hlow, fun heq => ?_⟩
    rw [← heq, highEnd, mul_le_mul_iff_left₀ hpos] at hlow
    -- The end is shared by the last significand only, and that is odd.
    have hlast : 2 ^ 53 ≤ m + 1 := by
      have hcast : (2 : ℚ) ^ 53 ≤ m + 1 := by linarith
      exact_mod_cast hcast
    have := h.short
    omega
  -- With one exponent, doubles that share an end have successive significands.
  · have hreach : reach m' q = 2 := by
      rcases reach_cases m' q with ⟨heq, hone⟩ | ⟨_, htwo⟩
      · by_cases hq : leastExponent < q
        · have := h.long hq
          omega
        · rw [reach, if_neg fun hboth => hq hboth.2]
      · exact htwo
    have hnext : (m : ℚ) + 1 ≤ m' := by exact_mod_cast hm
    rw [highEnd, lowEnd, hreach]
    refine ⟨mul_le_mul_of_nonneg_right (by push_cast; linarith) hpos.le, fun heq => ?_⟩
    have hends := mul_right_cancel₀ hpos.ne' heq
    have hnat : m' = m + 1 := by
      have hcast : (m' : ℚ) = m + 1 := by
        push_cast at hends
        linarith
      exact_mod_cast hcast
    omega

end

end Binary

namespace Interval

variable {m : Nat} {q : Int} {x : ℚ}

theorem of_eq (m : Nat) (q : Int) : Interval.of m q =
    { low := (4 * m - Binary.reach m q) * twoTo (q - 2).toNat
      value := 4 * m * twoTo (q - 2).toNat
      high := (4 * m + 2) * twoTo (q - 2).toNat
      scale := twoTo (2 - q).toNat
      closed := m % 2 == 0 } := rfl

theorem scale_of (m : Nat) (q : Int) :
    (2 : ℚ) ^ (q - 2) * (Interval.of m q).scale = twoTo (q - 2).toNat := by
  have hscale : (Interval.of m q).scale = twoTo (-(q - 2)).toNat := by
    rw [neg_sub]
    rfl
  rw [hscale, cast_twoTo, cast_twoTo, zpow_mul_pow_toNat (by norm_num)]

theorem scale_of_pos (m : Nat) (q : Int) : 0 < (Interval.of m q).scale :=
  Nat.pow_pos (by decide)

/-- The ends of an interval, on the scale of the double. -/
theorem Holds.ends (hm : 0 < m) (h : (Interval.of m q).Holds x) :
    Binary.lowEnd m q ≤ x ∧ x ≤ Binary.highEnd m q ∧
      (x = Binary.lowEnd m q ∨ x = Binary.highEnd m q → m % 2 = 0) := by
  have hpos : (0 : ℚ) < (Interval.of m q).scale := by exact_mod_cast scale_of_pos m q
  have hlow : ((Interval.of m q).low : ℚ) = Binary.lowEnd m q * (Interval.of m q).scale := by
    have hreach := Binary.reach_le m q
    rw [Binary.lowEnd, mul_assoc, scale_of, of_eq, Nat.cast_mul, Nat.cast_sub (by omega)]
    push_cast
    rfl
  have hhigh : ((Interval.of m q).high : ℚ) = Binary.highEnd m q * (Interval.of m q).scale := by
    rw [Binary.highEnd, mul_assoc, scale_of, of_eq]
    push_cast
    rfl
  rcases h.bounds with ⟨hle, hge⟩
  rw [hlow, mul_le_mul_iff_left₀ hpos] at hle
  rw [hhigh, mul_le_mul_iff_left₀ hpos] at hge
  refine ⟨hle, hge, fun hend => ?_⟩
  by_contra hodd
  have hopen : (Interval.of m q).closed = false := by
    rw [of_eq]
    exact beq_eq_false_iff_ne.mpr hodd
  rw [Holds, hopen, hlow, hhigh] at h
  simp only [Bool.false_eq_true, if_false, mul_lt_mul_iff_left₀ hpos] at h
  rcases hend with rfl | rfl
  · exact lt_irrefl _ h.1
  · exact lt_irrefl _ h.2

end Interval

/-- No number lies in the intervals of two doubles. It would be the end that they share,
    and that belongs to an even significand. -/
theorem Binary.not_holds_of_lt {m m' : Nat} {q q' : Int} (h : Canonical m q)
    (h' : Canonical m' q') (hm : 0 < m) (hm' : 0 < m') (hlt : q < q' ∨ q = q' ∧ m < m') {x : ℚ}
    (hx : (Interval.of m q).Holds x) : ¬ (Interval.of m' q').Holds x := by
  intro hx'
  rcases hx.ends hm with ⟨_, hhigh, heven⟩
  rcases hx'.ends hm' with ⟨hlow', _, heven'⟩
  rcases highEnd_le_lowEnd h h' hlt with ⟨hle, hodd⟩
  have hshared : x = highEnd m q := le_antisymm hhigh (hle.trans hlow')
  have hshared' : x = lowEnd m' q' := le_antisymm (hhigh.trans hle) hlow'
  have hfirst := heven (Or.inr hshared)
  have hsecond := heven' (Or.inl hshared')
  rcases hodd (hshared.symm.trans hshared') with hthird | hthird
  · omega
  · omega

/-- A number lies in the interval of one double only. -/
theorem Binary.eq_of_holds {m m' : Nat} {q q' : Int} (h : Canonical m q) (h' : Canonical m' q')
    (hm : 0 < m) (hm' : 0 < m') {x : ℚ} (hx : (Interval.of m q).Holds x)
    (hx' : (Interval.of m' q').Holds x) : m = m' ∧ q = q' := by
  by_contra hne
  have hlt : (q < q' ∨ q = q' ∧ m < m') ∨ (q' < q ∨ q' = q ∧ m' < m) := by omega
  rcases hlt with hlt | hlt
  · exact not_holds_of_lt h h' hm hm' hlt hx hx'
  · exact not_holds_of_lt h' h hm' hm hlt hx' hx

namespace Decimal

variable {m m' : Nat} {q q' : Int}

/-- The search finds a decimal in the interval: the last power of ten that is tried is
    less than the width of the interval. -/
theorem shortest_holds (h : Binary.Canonical m q) (hm : 0 < m) :
    (Interval.of m q).Holds (shortest m q).value := by
  rw [shortest, if_neg hm.ne', value_trimmed]
  refine Interval.holds_search fun hnone => ?_
  have hup : 0 < twoTo (q - 2).toNat := Nat.pow_pos (by decide)
  have hreach := Binary.reach_pos m q
  have hbelow : 4 * m - Binary.reach m q < 4 * m := by omega
  have habove : 4 * m < 4 * m + 2 := by omega
  have hlow : (Interval.of m q).low < (Interval.of m q).value :=
    Nat.mul_lt_mul_of_pos_right hbelow hup
  have hhigh : (Interval.of m q).value < (Interval.of m q).high :=
    Nat.mul_lt_mul_of_pos_right habove hup
  have hvalue : 0 < (Interval.of m q).value := Nat.mul_pos (by omega) hup
  have hnarrow := Interval.le_of_pick?_eq_none hnone (Interval.scale_of_pos m q) hlow hhigh
  have hfirst := Interval.magnitude_le (Interval.scale_of_pos m q) hvalue
  -- The last power that is tried is `10 ^ 17` times smaller than the first. The value has
  -- less than `2 ^ 55` quarters of a last place, so the last power is less than a quarter.
  rw [zpow_sub₀ (by norm_num), mul_div_assoc', le_div_iff₀ (by positivity)] at hnarrow
  have hwidth := hnarrow.trans hfirst
  have hnat : (Interval.of m q).high * 10 ^ 17 ≤
      (Interval.of m q).value + (Interval.of m q).low * 10 ^ 17 := by
    rw [sub_mul, sub_le_iff_le_add] at hwidth
    exact_mod_cast hwidth
  have hshort := h.short
  have hexceeds : 4 * m + (4 * m - Binary.reach m q) * 10 ^ 17 < (4 * m + 2) * 10 ^ 17 := by
    omega
  have hscaled := Nat.mul_lt_mul_of_pos_right hexceeds hup
  rw [Interval.of_eq] at hnat
  refine absurd hnat (Nat.not_le.mpr ?_)
  calc _ = (4 * m + (4 * m - Binary.reach m q) * 10 ^ 17) * twoTo (q - 2).toNat := by ring
    _ < _ := hscaled
    _ = _ := by ring

/-- No two doubles have the same decimal. -/
theorem shortest_injective (h : Binary.Canonical m q) (h' : Binary.Canonical m' q')
    (heq : (shortest m q).value = (shortest m' q').value) : m = m' ∧ q = q' := by
  have hzero : ∀ q, (shortest 0 q).value = 0 := fun q => zero_mul _
  have hpos : ∀ {m q}, Binary.Canonical m q → 0 < m → (shortest m q).value ≠ 0 :=
    fun h hm => ((Binary.lowEnd_pos hm).trans_le (((shortest_holds h hm).ends hm).1)).ne'
  have hleast : ∀ {q}, Binary.Canonical 0 q → q = Binary.leastExponent := by
    intro q h
    by_contra hne
    exact absurd (h.long (lt_of_le_of_ne h.least (Ne.symm hne))) (by decide)
  rcases Nat.eq_zero_or_pos m with rfl | hm
  · rcases Nat.eq_zero_or_pos m' with rfl | hm'
    · exact ⟨rfl, (hleast h).trans (hleast h').symm⟩
    · exact absurd (heq.symm.trans (hzero q)) (hpos h' hm')
  · rcases Nat.eq_zero_or_pos m' with rfl | hm'
    · exact absurd (heq.trans (hzero q')) (hpos h hm)
    · exact Binary.eq_of_holds h h' hm hm' (shortest_holds h hm) (heq ▸ shortest_holds h' hm')

end Decimal

end PocketScript
