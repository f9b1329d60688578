import Mathlib
import PocketScript.Proofs.Number.Written

/-!
# The nearest double

Few numbers are doubles. A numeral stands for the double that is nearest to its number,
and if two are, for the one with an even significand. From half way between the largest
double and `2 ^ 1024` on, it stands for infinity.

`Nearest` says this of a number and of the doubles there are, without a word about how
the nearest one is found. It makes sense as a definition because it holds of one double
only (`Nearest.unique`): half way between two doubles that are both even there is
another double.

What is computed is a quotient, rounded on a grid (`Rounds`). The grid is as fine as a
significand of full length allows, and never finer than the smallest doubles. Then
doubles that are no finer lie on the grid, where the rounded quotient is the nearest
point, and doubles that are finer lie below the smallest significand of full length, all
on one side. In units of the smallest double everything is a natural number times a
power of two.

## Main definitions

* `Binary.overflow`: Where infinity is the nearest there is.
* `Binary.Nearest`: A double is the nearest to a number.
* `Rounds`: A natural number is the nearest to a number.
* `Binary.Fits`: A point of a grid is nearest to a number, among all doubles.

## Theorems

* `Binary.ofFloat_toFloat`: Parts of a double are parts of one double.
* `Binary.Nearest.unique`: One double is the nearest.
* `rounds_rounded`: A rounded quotient is the nearest natural number.
* `Binary.fits_nearestUnits`: Rounding on the grid that fits gives the nearest double.
* `Binary.nearest_nearest`: So what is computed is the nearest double.
-/

namespace PocketScript

namespace Binary

/-! ### Doubles and their parts -/

/-- What the bits of a double say is kept, unless it is no number. -/
theorem toBits_ofBits {b : UInt64} (h : b.toNat / 2 ^ 52 % 2 ^ 11 ≠ 2047) :
    (Float.ofBits b).toBits = b := by
  have hvalid : Float.Model.Format.binary64.Valid b.toBitVec := by
    constructor
    intro hfield
    have hnat := congrArg BitVec.toNat hfield
    rw [Float.Model.UnpackedFloat.unpackExponent_def, BitVec.extractLsb'_toNat,
      Nat.shiftRight_eq_div_pow] at hnat
    exact absurd hnat h
  exact UInt64.toBitVec_inj.mp (Float.Model.UnpackedFloat.pack_unpack_of_valid hvalid)

theorem exponent_le_of_ofBits {bits m : Nat} {negative : Bool} {q : Int}
    (h : ofBits bits = .finite negative m q) : q ≤ 971 := by
  have heleven : twoTo 11 = 2048 := rfl
  have hleast : leastExponent = -1074 := rfl
  simp only [ofBits, heleven] at h
  split at h
  · split at h <;> cases h
  · split at h <;> cases h <;> omega

theorem ofBits_infinite {bits : Nat} (hbits : bits < 2 ^ 64) (h : ofBits bits = .infinite false) :
    bits = 2047 * 2 ^ 52 := by
  have hfull : twoTo 52 = 2 ^ 52 := rfl
  have heleven : twoTo 11 = 2 ^ 11 := rfl
  have hsign : twoTo 63 = 2 ^ 63 := rfl
  simp only [ofBits, hfull, heleven, hsign] at h
  split at h
  · split at h
    · have hpositive := Binary.infinite.inj h
      rw [beq_eq_false_iff_ne] at hpositive
      omega
    · cases h
  · split at h <;> cases h

/-- The bits of significands and exponents that doubles have need no search. -/
theorem finiteBits_of_canonical {m : Nat} {q : Int} (h : Canonical m q) (n : Nat) :
    finiteBits (n + 1) m q =
      if hidden ≤ m then (q + 1075).toNat * 2 ^ 52 + (m - hidden) else m := by
  have hfull : twoTo 52 = 2 ^ 52 := rfl
  rw [finiteBits, hfull]
  by_cases hm : hidden ≤ m
  · have hne : m ≠ 0 := fun hzero => by rw [hzero] at hm; exact absurd hm (by decide)
    rw [if_neg hne, if_pos hm, if_pos hm]
  · -- The exponent is the least one, or else the significand would be long.
    have hq : q ≤ leastExponent := not_lt.mp fun hlt => hm (h.long hlt)
    rw [if_neg hm, if_neg hm, if_pos hq]
    split
    · exact Eq.symm ‹m = 0›
    · rfl

/-- Parts that a double can have are the parts of one. -/
theorem ofFloat_toFloat {m : Nat} {q : Int} (h : Canonical m q) (hq : q ≤ 971) (negative : Bool) :
    ofFloat (toFloat (.finite negative m q)) = .finite negative m q := by
  have hhidden : hidden = 2 ^ 52 := rfl
  have hleast : leastExponent = -1074 := rfl
  have hfull : twoTo 52 = 2 ^ 52 := rfl
  have heleven : twoTo 11 = 2 ^ 11 := rfl
  have hsign : twoTo 63 = 2 ^ 63 := rfl
  have hshort := h.short
  have hlong := h.long
  have hq' := h.least
  simp only [toFloat, finiteBits_of_canonical h, hsign]
  generalize hmagnitude : (if hidden ≤ m then (q + 1075).toNat * 2 ^ 52 + (m - hidden) else m) = k
  have hk : k < 2047 * 2 ^ 52 ∧
      (hidden ≤ m → k / 2 ^ 52 = (q + 1075).toNat ∧ k % 2 ^ 52 = m - hidden) ∧
      (¬ hidden ≤ m → k = m) := by
    split at hmagnitude <;> omega
  generalize hbits : k + (if negative then 2 ^ 63 else 0) = bits
  have hread : bits / 2 ^ 63 % 2 = (if negative then 1 else 0) ∧
      bits / 2 ^ 52 % 2 ^ 11 = k / 2 ^ 52 ∧ bits % 2 ^ 52 = k % 2 ^ 52 ∧ bits < 2 ^ 64 := by
    cases negative <;> simp only [Bool.false_eq_true, if_false, if_true] at hbits ⊢ <;> omega
  have hnat : (UInt64.ofNat bits).toNat = bits := UInt64.toNat_ofNat_of_lt' hread.2.2.2
  have hfield : (UInt64.ofNat bits).toNat / 2 ^ 52 % 2 ^ 11 ≠ 2047 := by
    rw [hnat]
    omega
  have hnegative : (bits / 2 ^ 63 % 2 == 1) = negative := by
    rw [hread.1]
    cases negative <;> rfl
  rw [ofFloat, toBits_ofBits hfield, hnat]
  simp only [ofBits, hfull, heleven, hsign, hnegative]
  rw [if_neg (by omega)]
  split
  · have hm : ¬ hidden ≤ m := fun hm => by omega
    congr 1 <;> omega
  · have hm : hidden ≤ m := not_lt.mp fun hm => by omega
    congr 1 <;> omega

/-- A number is written in one way as a significand and an exponent of a double. -/
theorem eq_of_value_eq {m m' : Nat} {q q' : Int} (h : Canonical m q) (h' : Canonical m' q')
    (heq : (m : ℚ) * 2 ^ q = m' * 2 ^ q') : m = m' ∧ q = q' := by
  -- With a larger exponent there would have to be a longer significand.
  have hnot : ∀ {m m' : Nat} {q q' : Int}, Canonical m q → Canonical m' q' → q < q' →
      (m : ℚ) * 2 ^ q ≠ m' * 2 ^ q' := by
    intro m m' q q' h h' hlt heq
    obtain ⟨k, hk⟩ := Int.eq_ofNat_of_zero_le (Int.sub_nonneg_of_le hlt.le)
    obtain rfl : q' = q + k := by omega
    rw [zpow_add₀ two_ne_zero, mul_left_comm, mul_comm (m : ℚ), zpow_natCast] at heq
    have hmul := mul_left_cancel₀ (zpow_ne_zero q two_ne_zero) heq
    have hnat : m = m' * 2 ^ k := by exact_mod_cast hmul
    have hlong : 2 ^ 52 ≤ m' := h'.long (h.least.trans_lt hlt)
    have htwo : 2 ^ 1 ≤ 2 ^ k := Nat.pow_le_pow_right two_pos (by omega)
    have hbig : 2 ^ 52 * 2 ^ 1 ≤ m' * 2 ^ k := Nat.mul_le_mul hlong htwo
    have hshort := h.short
    omega
  rcases lt_trichotomy q q' with hlt | rfl | hlt
  · exact absurd heq (hnot h h' hlt)
  · have hmul := mul_right_cancel₀ (zpow_ne_zero q two_ne_zero) heq
    exact ⟨by exact_mod_cast hmul, rfl⟩
  · exact absurd heq.symm (hnot h' h hlt)

/-! ### What nearest means -/

/-- The number half way between the largest double and `2 ^ 1024`, where the next one
    would be. -/
def overflow : ℚ := 2 ^ 1024 - 2 ^ 970

/-- The double is the nearest to a number that is not negative. No finite one is nearer,
    and if another one is as near, this one is even. Far out it is infinity. -/
inductive Nearest (v : ℚ) (x : Float) : Prop where
  | finite {m : Nat} {q : Int} : ofFloat x = .finite false m q → v < overflow →
      (∀ y k i, ofFloat y = .finite false k i → y ≠ x →
        |v - m * 2 ^ q| < |v - k * 2 ^ i| ∨ |v - m * 2 ^ q| = |v - k * 2 ^ i| ∧ m % 2 = 0) →
      Nearest v x
  | infinite : ofFloat x = .infinite false → overflow ≤ v → Nearest v x

/-- Above an even significand and below a larger double with an even one there is
    another double. -/
theorem exists_between {m m' : Nat} {q q' : Int} (h : Canonical m q) (h' : Canonical m' q')
    (hm : m % 2 = 0) (hm' : m' % 2 = 0) (hlt : (m : ℚ) * 2 ^ q < m' * 2 ^ q') :
    Canonical (m + 1) q ∧ ((m + 1 : Nat) : ℚ) * 2 ^ q < m' * 2 ^ q' := by
  have hshort := h.short
  have hpos : (0 : ℚ) < 2 ^ q := by positivity
  refine ⟨⟨by omega, h.least, fun hq => (h.long hq).trans (Nat.le_succ m)⟩, ?_⟩
  rcases le_or_gt q q' with hq | hq
  · -- In units of the lower one both are even, so they are two apart.
    obtain ⟨k, hk⟩ := Int.eq_ofNat_of_zero_le (Int.sub_nonneg_of_le hq)
    obtain rfl : q' = q + k := by omega
    rw [zpow_add₀ two_ne_zero, mul_left_comm, mul_comm ((2 : ℚ) ^ q), zpow_natCast] at hlt ⊢
    have hless : m < m' * 2 ^ k := by exact_mod_cast lt_of_mul_lt_mul_right hlt hpos.le
    have heven : m' * 2 ^ k % 2 = 0 := by rw [Nat.mul_mod, hm', Nat.zero_mul, Nat.zero_mod]
    have hstep : m + 1 < m' * 2 ^ k := by omega
    exact mul_lt_mul_of_pos_right (by exact_mod_cast hstep) hpos
  · -- The lower one would be the larger one.
    have hlong : 2 ^ 52 ≤ m := h.long (h'.least.trans_lt hq)
    have hlarge : (2 : ℚ) ^ (52 : Nat) * 2 ^ q ≤ m * 2 ^ q :=
      mul_le_mul_of_nonneg_right (by exact_mod_cast hlong) hpos.le
    have hsmall : (m' : ℚ) * 2 ^ q' ≤ 2 ^ (53 : Nat) * 2 ^ q' :=
      mul_le_mul_of_nonneg_right (by exact_mod_cast h'.short.le) (by positivity)
    have hgrid : (2 : ℚ) ^ (53 : Nat) * 2 ^ q' ≤ 2 ^ (52 : Nat) * 2 ^ q := by
      rw [← zpow_natCast, ← zpow_natCast, ← zpow_add₀ two_ne_zero, ← zpow_add₀ two_ne_zero]
      exact zpow_le_zpow_right₀ one_le_two (by push_cast; omega)
    exact absurd hlt (not_lt.mpr (hsmall.trans (hgrid.trans hlarge)))

/-- The nearest double is not less than another one that is the nearest too. -/
theorem not_lt_of_nearest {v : ℚ} {x : Float} {m m' : Nat} {q q' : Int}
    (hx : ofFloat x = .finite false m q) (h' : Canonical m' q')
    (hnear : ∀ y k i, ofFloat y = .finite false k i → y ≠ x →
      |v - m * 2 ^ q| < |v - k * 2 ^ i| ∨ |v - m * 2 ^ q| = |v - k * 2 ^ i| ∧ m % 2 = 0)
    (heq : |v - m * 2 ^ q| = |v - m' * 2 ^ q'|) (hm : m % 2 = 0) (hm' : m' % 2 = 0) :
    ¬ (m : ℚ) * 2 ^ q < m' * 2 ^ q' := by
  intro hlt
  have h := canonical_of_ofBits hx
  rcases exists_between h h' hm hm' hlt with ⟨hnext, hbelow⟩
  have hz := ofFloat_toFloat hnext (exponent_le_of_ofBits hx) false
  have hne : toFloat (.finite false (m + 1) q) ≠ x := by
    intro hsame
    rw [hsame, hx] at hz
    injection hz with _ hm
    exact Nat.succ_ne_self m hm.symm
  have habove : (m : ℚ) * 2 ^ q < ((m + 1 : Nat) : ℚ) * 2 ^ q :=
    mul_lt_mul_of_pos_right (by exact_mod_cast Nat.lt_succ_self m) (by positivity)
  -- The number is half way between the two, and so the double between them is nearer.
  have hhalf : v - m * 2 ^ q = m' * 2 ^ q' - v := by
    rcases abs_eq_abs.mp heq with hsame | hopposite
    · exact absurd (sub_right_injective hsame) hlt.ne
    · rw [hopposite, neg_sub]
  have hnearer : |v - ((m + 1 : Nat) : ℚ) * 2 ^ q| < |v - m * 2 ^ q| := by
    rw [abs_of_pos (by linarith : 0 < v - m * 2 ^ q), abs_lt]
    constructor <;> linarith
  rcases hnear _ _ _ hz hne with hless | ⟨hsame, _⟩
  · exact absurd hnearer hless.asymm
  · exact absurd hsame hnearer.ne'

/-- One double is the nearest. -/
theorem Nearest.unique {v : ℚ} {x y : Float} (hx : Nearest v x) (hy : Nearest v y) : x = y := by
  cases hx with
  | @finite m q hx hv hnear =>
      cases hy with
      | infinite _ hv' => exact absurd hv (not_lt.mpr hv')
      | @finite m' q' hy _ hnear' =>
          by_contra hne
          have h := canonical_of_ofBits hx
          have h' := canonical_of_ofBits hy
          have htie : |v - m * 2 ^ q| = |v - m' * 2 ^ q'| ∧ m % 2 = 0 ∧ m' % 2 = 0 := by
            rcases hnear y m' q' hy (Ne.symm hne) with hless | ⟨heq, hm⟩
            · rcases hnear' x m q hx hne with hless' | ⟨heq', _⟩
              · exact absurd hless hless'.asymm
              · exact absurd heq' hless.ne'
            · rcases hnear' x m q hx hne with hless' | ⟨_, hm'⟩
              · exact absurd heq hless'.ne'
              · exact ⟨heq, hm, hm'⟩
          rcases htie with ⟨heq, hm, hm'⟩
          have hle := not_lt.mp (not_lt_of_nearest hx h' hnear heq hm hm')
          have hge := not_lt.mp (not_lt_of_nearest hy h hnear' heq.symm hm' hm)
          rcases eq_of_value_eq h h' (le_antisymm hge hle) with ⟨rfl, rfl⟩
          exact hne (ofFloat_injective hx hy)
  | infinite hx hv =>
      cases hy with
      | finite _ hv' _ => exact absurd hv' (not_lt.mpr hv)
      | infinite hy _ =>
          have hbits := (ofBits_infinite x.toBits.toNat_lt hx).trans
            (ofBits_infinite y.toBits.toNat_lt hy).symm
          exact toBits_injective hbits

end Binary

/-! ### Rounding on a grid -/

/-- The natural number is the nearest to a number, and it is even if another one is as
    near. -/
structure Rounds (u : ℚ) (m : Nat) : Prop where
  near : |u - m| ≤ 1 / 2
  even : |u - m| = 1 / 2 → m % 2 = 0

/-- A rounded quotient is the nearest natural number. -/
theorem rounds_rounded (a : Nat) {d : Nat} (hd : 0 < d) : Rounds ((a : ℚ) / d) (rounded a d) := by
  have hpos : (0 : ℚ) < d := by exact_mod_cast hd
  have hsplit : (a : ℚ) / d = (a / d : Nat) + (a % d : Nat) / d := by
    rw [eq_comm, ← eq_sub_iff_add_eq', div_eq_iff hpos.ne', sub_mul, div_mul_cancel₀ _ hpos.ne',
      eq_sub_iff_add_eq]
    exact_mod_cast (congrArg (_ + ·) (Nat.mul_comm _ _)).trans (Nat.mod_add_div a d)
  have hrest : (0 : ℚ) ≤ (a % d : Nat) / d := by positivity
  have hless : ((a % d : Nat) : ℚ) / d < 1 := by
    rw [div_lt_one hpos]
    exact_mod_cast Nat.mod_lt a hd
  have hhalf : ((a % d : Nat) : ℚ) / d ≤ 1 / 2 ↔ 2 * (a % d) ≤ d := by
    rw [div_le_div_iff₀ hpos two_pos, one_mul, mul_comm]
    exact_mod_cast Iff.rfl
  have hequal : ((a % d : Nat) : ℚ) / d = 1 / 2 ↔ 2 * (a % d) = d := by
    rw [div_eq_div_iff hpos.ne' two_ne_zero, one_mul, mul_comm]
    exact_mod_cast Iff.rfl
  rw [rounded, hsplit]
  split
  · rename_i hdown
    have hfall : |((a / d : Nat) : ℚ) + (a % d : Nat) / d - (a / d : Nat)| = (a % d : Nat) / d := by
      rw [add_sub_cancel_left, abs_of_nonneg hrest]
    refine ⟨hfall.trans_le (hhalf.mpr (by omega)), fun heq => ?_⟩
    have htie := hequal.mp (hfall.symm.trans heq)
    omega
  · rename_i hup
    have hmore : 1 / 2 ≤ ((a % d : Nat) : ℚ) / d := by
      by_contra hc
      have hle := hhalf.mp (not_le.mp hc).le
      have hne : 2 * (a % d) ≠ d := fun heq => (not_le.mp hc).ne (hequal.mpr heq)
      omega
    have hrise : |((a / d : Nat) : ℚ) + (a % d : Nat) / d - ((a / d + 1 : Nat) : ℚ)| =
        1 - (a % d : Nat) / d := by
      rw [abs_sub_comm, Nat.cast_add, Nat.cast_one, add_sub_add_left_eq_sub]
      exact abs_of_pos (by linarith)
    refine ⟨hrise.trans_le (by linarith), fun heq => ?_⟩
    have htie := hequal.mp (by linarith)
    omega

/-- No other natural number is nearer. -/
theorem Rounds.nearest {u : ℚ} {m : Nat} (h : Rounds u m) {k : Nat} (hk : k ≠ m) :
    |u - m| < |u - k| ∨ |u - m| = |u - k| ∧ m % 2 = 0 := by
  have happart : (1 : ℚ) ≤ |(m : ℚ) - k| := by
    have hne : (m : Int) - k ≠ 0 := by omega
    exact_mod_cast Int.one_le_abs hne
  have htriangle : |(m : ℚ) - k| ≤ |u - k| + |u - m| := by
    rw [← abs_sub_comm (m : ℚ) u, add_comm]
    exact abs_sub_le _ _ _
  rcases h.near.lt_or_eq with hless | heq
  · exact Or.inl (by linarith)
  · rcases (by linarith : |u - m| ≤ |u - k|).lt_or_eq with hlt | hsame
    · exact Or.inl hlt
    · exact Or.inr ⟨hsame, h.even heq⟩

namespace Binary

/-- The point `m · 2 ^ p` of a grid is nearest to a number among all doubles, all in
    units of the smallest one, and it has the place of a double of that size. -/
structure Fits (w : ℚ) (m p : Nat) : Prop where
  short : m < 2 ^ 53
  long : p ≠ 0 → 2 ^ 52 ≤ m
  near : ∀ k i : Nat, k < 2 ^ 53 → (k : ℚ) * 2 ^ i ≠ m * 2 ^ p →
    |w - m * 2 ^ p| < |w - k * 2 ^ i| ∨ |w - m * 2 ^ p| = |w - k * 2 ^ i| ∧ m % 2 = 0
  below : w < (2 ^ 53 - 1 / 2) * 2 ^ p
  above : p ≠ 0 → (2 ^ 53 - 1 / 2) * 2 ^ (p - 1) ≤ w

section

variable {w : ℚ} {m p : Nat}

/-- A rounded number is nearer than every point of a grid that is as coarse, and than the
    points of finer grids, which lie below it. -/
theorem near_of_rounds (h : Rounds (w / 2 ^ p) m) (hlong : p ≠ 0 → 2 ^ 52 ≤ w / 2 ^ p) {k i : Nat}
    (hk : k < 2 ^ 53) (hne : (k : ℚ) * 2 ^ i ≠ m * 2 ^ p) :
    |w - m * 2 ^ p| < |w - k * 2 ^ i| ∨ |w - m * 2 ^ p| = |w - k * 2 ^ i| ∧ m % 2 = 0 := by
  have hpos : (0 : ℚ) < 2 ^ p := by positivity
  have hscale : ∀ x : ℚ, |w - x * 2 ^ p| = |w / 2 ^ p - x| * 2 ^ p := by
    intro x
    rw [← abs_of_pos hpos, ← abs_mul, sub_mul, abs_of_pos hpos, div_mul_cancel₀ _ hpos.ne']
  rcases le_or_gt p i with hi | hi
  · obtain ⟨j, rfl⟩ := Nat.exists_eq_add_of_le hi
    have hpoint : (k : ℚ) * 2 ^ (p + j) = ((k * 2 ^ j : Nat) : ℚ) * 2 ^ p := by
      push_cast
      ring
    rw [hpoint] at hne ⊢
    have hother : k * 2 ^ j ≠ m := fun heq => hne (by rw [heq])
    rw [hscale, hscale, mul_lt_mul_iff_left₀ hpos, mul_left_inj' hpos.ne']
    exact h.nearest hother
  · -- The least significand of full length is a point of the grid between the two.
    left
    have hleast := hlong (Nat.ne_zero_of_lt hi)
    have hfine : (k : ℚ) * 2 ^ i < 2 ^ 52 * 2 ^ p := by
      calc (k : ℚ) * 2 ^ i < 2 ^ 53 * 2 ^ i :=
            mul_lt_mul_of_pos_right (by exact_mod_cast hk) (by positivity)
        _ = 2 ^ 52 * 2 ^ (i + 1) := by ring
        _ ≤ 2 ^ 52 * 2 ^ p :=
            mul_le_mul_of_nonneg_left (pow_le_pow_right₀ one_le_two hi) (by positivity)
    have hover : 2 ^ 52 * 2 ^ p ≤ w := (le_div_iff₀ hpos).mp hleast
    have hgrid : |w - m * 2 ^ p| ≤ |w - 2 ^ 52 * 2 ^ p| := by
      rw [hscale, hscale]
      refine mul_le_mul_of_nonneg_right ?_ hpos.le
      by_cases hm : m = 2 ^ 52
      · rw [hm]
        push_cast
        exact le_refl _
      · have hnearest := h.nearest (Ne.symm hm)
        push_cast at hnearest
        exact hnearest.elim le_of_lt fun heq => heq.1.le
    rw [abs_of_nonneg (sub_nonneg.mpr hover)] at hgrid
    rw [abs_of_pos (sub_pos.mpr (hfine.trans_le hover))]
    linarith

variable (h : Rounds (w / 2 ^ p) m) (hshort : w / 2 ^ p < 2 ^ 53)
  (hlong : p ≠ 0 → 2 ^ 52 ≤ w / 2 ^ p)
include h hshort hlong

/-- Rounding on the grid of full length gives a point that fits, if it does not carry
    over. -/
theorem fits_of_rounds (hm : m < 2 ^ 53) : Fits w m p where
  short := hm
  long hp := by
    have hleast := hlong hp
    have hnear := (abs_le.mp h.near).2
    by_contra hc
    have hless : (m : ℚ) + 1 ≤ 2 ^ 52 := by exact_mod_cast not_le.mp hc
    linarith
  near _ _ := near_of_rounds h hlong
  below := by
    have hpos : (0 : ℚ) < 2 ^ p := by positivity
    rw [← div_lt_iff₀ hpos]
    have hle : (m : ℚ) ≤ 2 ^ 53 - 1 := by
      rw [le_sub_iff_add_le]
      exact_mod_cast hm
    have hnear := (abs_le.mp h.near).2
    refine lt_of_le_of_ne (by linarith) fun heq => ?_
    -- Half way up from the last point, which is odd, would carry over.
    have hlast : (m : ℚ) = 2 ^ 53 - 1 := by linarith
    have hnat : m = 2 ^ 53 - 1 := by
      have hsucc : (m : ℚ) + 1 = 2 ^ 53 := by linarith
      have : m + 1 = 2 ^ 53 := by exact_mod_cast hsucc
      omega
    have heven := h.even (by rw [heq, hlast]; norm_num)
    omega
  above hp := by
    have hpos : (0 : ℚ) < 2 ^ p := by positivity
    have hover : 2 ^ 52 * 2 ^ p ≤ w := (le_div_iff₀ hpos).mp (hlong hp)
    obtain ⟨j, rfl⟩ := Nat.exists_eq_add_one_of_ne_zero hp
    calc (2 ^ 53 - 1 / 2 : ℚ) * 2 ^ j ≤ 2 ^ 53 * 2 ^ j :=
          mul_le_mul_of_nonneg_right (by norm_num) (by positivity)
      _ = 2 ^ 52 * 2 ^ (j + 1) := by ring
      _ ≤ w := hover

/-- And if it does, the point fits on the next grid. -/
theorem fits_of_carry (hm : m = 2 ^ 53) : Fits w (2 ^ 52) (p + 1) where
  short := by norm_num
  long _ := le_refl _
  near k i hk hne := by
    have hpoint : ((2 ^ 52 : Nat) : ℚ) * 2 ^ (p + 1) = (m : ℚ) * 2 ^ p := by
      rw [hm]
      push_cast
      ring
    rw [hpoint] at hne ⊢
    have heven : (2 ^ 52 : Nat) % 2 = 0 := by norm_num
    exact (near_of_rounds h hlong hk hne).imp_right fun heq => ⟨heq.1, heven⟩
  below := by
    have hpos : (0 : ℚ) < 2 ^ p := by positivity
    calc w < 2 ^ 53 * 2 ^ p := (div_lt_iff₀ hpos).mp hshort
      _ = 2 ^ 52 * 2 ^ (p + 1) := by ring
      _ ≤ (2 ^ 53 - 1 / 2) * 2 ^ (p + 1) :=
          mul_le_mul_of_nonneg_right (by norm_num) (by positivity)
  above _ := by
    have hpos : (0 : ℚ) < 2 ^ p := by positivity
    have hnear := (abs_le.mp h.near).1
    rw [hm] at hnear
    push_cast at hnear
    rw [Nat.add_sub_cancel, ← le_div_iff₀ hpos]
    linarith

end

/-- The grid that a quotient is rounded on. -/
theorem place_bounds (a : Nat) {d : Nat} (hd : 0 < d) :
    ((a : ℚ) / d) / 2 ^ ((a / d).log2 - 52) < 2 ^ 53 ∧
      ((a / d).log2 - 52 ≠ 0 → 2 ^ 52 ≤ ((a : ℚ) / d) / 2 ^ ((a / d).log2 - 52)) := by
  generalize hp : (a / d).log2 - 52 = p
  have hdpos : (0 : ℚ) < d := by exact_mod_cast hd
  have hpos : (0 : ℚ) < 2 ^ p := by positivity
  constructor
  · have hlog : a / d < 2 ^ (53 + p) :=
      Nat.lt_log2_self.trans_le (Nat.pow_le_pow_right two_pos (by omega))
    rw [Nat.div_lt_iff_lt_mul hd] at hlog
    rw [div_lt_iff₀ hpos, div_lt_iff₀ hdpos, ← pow_add]
    exact_mod_cast hlog
  · intro hne
    have hzero : a / d ≠ 0 := by
      intro hzero
      rw [hzero] at hp
      exact hne (hp.symm.trans (by decide))
    have hlog : 2 ^ (52 + p) ≤ a / d := by
      have hself := Nat.log2_self_le hzero
      rwa [show (a / d).log2 = 52 + p by omega] at hself
    rw [Nat.le_div_iff_mul_le hd] at hlog
    rw [le_div_iff₀ hpos, le_div_iff₀ hdpos, ← pow_add]
    exact_mod_cast hlog

/-- Rounding on the grid that fits gives a point that fits, and the double with its
    significand and its place, unless it is too large. -/
theorem fits_nearestUnits (n : Nat) {d : Nat} (hd : 0 < d) :
    ∃ m p, Fits ((n : ℚ) / d) m p ∧ nearestUnits n d =
      if 2045 < p then .infinite false else .finite false m (leastExponent + p) := by
  have hcarry : 2 * hidden = 2 ^ 53 := rfl
  have hpower : ∀ p, twoTo p = 2 ^ p := fun _ => rfl
  simp only [nearestUnits, hcarry, hpower]
  rcases place_bounds n hd with ⟨hshort, hlong⟩
  generalize (n / d).log2 - 52 = p at hshort hlong ⊢
  have hrounds := rounds_rounded n (Nat.mul_pos hd (Nat.two_pow_pos p))
  rw [Nat.cast_mul, ← div_div, Nat.cast_pow, Nat.cast_ofNat] at hrounds
  generalize rounded n (d * 2 ^ p) = m at hrounds ⊢
  by_cases hm : m = 2 ^ 53
  · refine ⟨2 ^ 52, p + 1, fits_of_carry hrounds hshort hlong hm, ?_⟩
    rw [if_pos hm]
    rfl
  · refine ⟨m, p, fits_of_rounds hrounds hshort hlong ?_, by rw [if_neg hm]⟩
    have hnear := (abs_le.mp hrounds.near).1
    have hless : (m : ℚ) < 2 ^ 53 + 1 := by linarith
    have hle : m < 2 ^ 53 + 1 := by exact_mod_cast hless
    omega

/-- A distance from a double, in units of the smallest one. -/
theorem abs_sub_value (v : ℚ) (k i : Nat) :
    |v - k * 2 ^ (leastExponent + (i : Int))| = |v * 2 ^ 1074 - k * 2 ^ i| / 2 ^ 1074 := by
  have hunit : (0 : ℚ) < 2 ^ 1074 := by positivity
  have hleast : (2 : ℚ) ^ leastExponent = (2 ^ 1074)⁻¹ :=
    (zpow_neg 2 1074).trans (congrArg Inv.inv (zpow_ofNat 2 1074))
  rw [zpow_add₀ two_ne_zero, zpow_natCast, hleast]
  generalize (2 : ℚ) ^ 1074 = unit at hunit ⊢
  have hscale : v - k * (unit⁻¹ * 2 ^ i) = (v * unit - k * 2 ^ i) / unit := by
    field_simp
  rw [hscale, abs_div, abs_of_pos hunit]

/-- Where infinity is the nearest there is, in units of the smallest double. -/
theorem overflow_eq : overflow * 2 ^ 1074 = (2 ^ 53 - 1 / 2) * 2 ^ 2045 := by
  have hlarge : (2 : ℚ) ^ 1024 = 2 ^ 54 * 2 ^ 970 := by rw [← pow_add]
  have hgrid : (2 : ℚ) ^ 2045 = 2 ^ 1 * 2 ^ 970 * 2 ^ 1074 := by
    rw [← pow_add, ← pow_add]
  rw [overflow, hlarge, hgrid]
  generalize (2 : ℚ) ^ 970 = x
  generalize (2 : ℚ) ^ 1074 = unit
  ring

/-- What is computed is the nearest double. -/
theorem nearest_nearest (a : Nat) {d : Nat} (hd : 0 < d) :
    Nearest ((a : ℚ) / d) (Binary.nearest a d).toFloat := by
  rcases fits_nearestUnits (a * twoTo 1074) hd with ⟨m, p, hfits, hresult⟩
  rw [Nat.cast_mul, cast_twoTo, mul_div_right_comm] at hfits
  generalize (a : ℚ) / d = v at hfits
  have hunit : (0 : ℚ) < 2 ^ 1074 := by positivity
  have hleast : leastExponent = -1074 := rfl
  rw [Binary.nearest, hresult]
  split
  · rename_i hp
    have hgrid : (2 : ℚ) ^ 2045 ≤ 2 ^ (p - 1) := pow_le_pow_right₀ one_le_two (by omega)
    refine .infinite (by decide +kernel) ?_
    rw [← mul_le_mul_iff_left₀ hunit, overflow_eq]
    exact (mul_le_mul_of_nonneg_left hgrid (by norm_num)).trans (hfits.above (by omega))
  · rename_i hp
    have hcanonical : Canonical m (leastExponent + p) :=
      ⟨hfits.short, by omega, fun hlt => hfits.long (by omega)⟩
    have hparts := ofFloat_toFloat hcanonical (by omega) false
    refine .finite hparts ?_ fun y k i hy hne => ?_
    · have hgrid : (2 : ℚ) ^ p ≤ 2 ^ 2045 := pow_le_pow_right₀ one_le_two (by omega)
      rw [← mul_lt_mul_iff_left₀ hunit, overflow_eq]
      exact hfits.below.trans_le (mul_le_mul_of_nonneg_left hgrid (by norm_num))
    · have hk := canonical_of_ofBits hy
      obtain ⟨j, hj⟩ := Int.eq_ofNat_of_zero_le (Int.sub_nonneg_of_le hk.least)
      obtain rfl : i = leastExponent + j := by omega
      have hother : (k : ℚ) * 2 ^ j ≠ m * 2 ^ p := by
        intro heq
        have hvalue : (k : ℚ) * 2 ^ (leastExponent + (j : Int)) =
            m * 2 ^ (leastExponent + (p : Int)) := by
          rw [zpow_add₀ two_ne_zero, zpow_add₀ two_ne_zero, zpow_natCast, zpow_natCast,
            mul_left_comm, heq, mul_left_comm]
        rcases eq_of_value_eq hk hcanonical hvalue with ⟨rfl, hplace⟩
        rw [hplace] at hy
        exact hne (ofFloat_injective hy hparts)
      rw [abs_sub_value, abs_sub_value, div_lt_div_iff_of_pos_right hunit,
        div_left_inj' hunit.ne']
      exact hfits.near k j hk.short hother

end Binary

end PocketScript
