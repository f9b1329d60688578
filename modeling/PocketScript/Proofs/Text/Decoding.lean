import PocketScript.Proofs.Text.Encoding
import PocketScript.Proofs.Text.Whole

/-!
# Reading what code points spell

The spelling of a code point is read as that code point, whatever stands behind it.
So a text that was written from code points gives them back, and one text begins with
another, both of them written so, just when the code points do.

## Theorems

* `Glyph.first_encode`: The spelling of a code point is read back.
* `Glyph.isScalar_first`: What is read can be spelled.
* `Text.runes_ofRunes`: A text written from code points gives them back.
* `Text.isPrefix_runes`: What a text begins with, byte by byte, it also begins with
  read as characters.
-/

namespace PocketScript

theorem toNat_toUInt8 {n : Nat} (h : n < 256) : n.toUInt8.toNat = n := by
  rw [Nat.toUInt8, UInt8.toNat_ofNat', Nat.mod_eq_of_lt h]

namespace Glyph

theorem isTrail_toUInt8 {lo hi n : Nat} (hlo : lo ≤ n) (hhi : n ≤ hi) (h : n < 256) :
    isTrail lo hi n.toUInt8 = true := by
  simp only [isTrail, toNat_toUInt8 h, Bool.and_eq_true, decide_eq_true_eq]
  exact ⟨hlo, hhi⟩

theorem toNat_trail (n : Nat) : (0x80 + n % 64).toUInt8.toNat = 0x80 + n % 64 :=
  toNat_toUInt8 (by omega)

theorem isTrail_trail (n : Nat) : isTrail 0x80 0xBF (0x80 + n % 64).toUInt8 = true :=
  isTrail_toUInt8 (by omega) (by omega) (by omega)

theorem first_encode_two {r : Nat} (hlow : 0x80 ≤ r) (hhigh : r < 0x800) (rest : Text) :
    first (0xC0 + r / 64).toUInt8 ((0x80 + r % 64).toUInt8 :: rest) = (r, 2) := by
  have hb : (0xC0 + r / 64).toUInt8.toNat = 0xC0 + r / 64 := toNat_toUInt8 (by omega)
  rw [first, hb, if_neg (by omega), if_neg (by omega), if_pos (by omega)]
  simp only [two, isTrail_trail, if_true, low, toNat_trail, Prod.mk.injEq, and_true]
  exact (by omega : (0xC0 + r / 64) % 32 * 64 + (0x80 + r % 64) % 64 = r)

theorem first_encode_three {r : Nat} (hlow : 0x800 ≤ r) (hhigh : r < 0x10000)
    (hscalar : r < 0xD800 ∨ 0xE000 ≤ r) (rest : Text) :
    first (0xE0 + r / 4096).toUInt8
      ((0x80 + r / 64 % 64).toUInt8 :: (0x80 + r % 64).toUInt8 :: rest) = (r, 3) := by
  have hb : (0xE0 + r / 4096).toUInt8.toNat = 0xE0 + r / 4096 := toNat_toUInt8 (by omega)
  -- Three bytes are read so whatever bounds the first sets for the second.
  have hread : ∀ lo hi, lo ≤ 0x80 + r / 64 % 64 → 0x80 + r / 64 % 64 ≤ hi →
      three (0xE0 + r / 4096) lo hi
        ((0x80 + r / 64 % 64).toUInt8 :: (0x80 + r % 64).toUInt8 :: rest) = (r, 3) := by
    intro lo hi hlo hhi
    rw [three, isTrail_toUInt8 hlo hhi (by omega), isTrail_trail]
    simp only [Bool.and_self, if_true, low, toNat_trail, Prod.mk.injEq, and_true]
    exact (by omega : (0xE0 + r / 4096) % 16 * 4096 + (0x80 + r / 64 % 64) % 64 * 64 +
      (0x80 + r % 64) % 64 = r)
  rw [first, hb, if_neg (by omega), if_neg (by omega), if_neg (by omega)]
  split
  · exact hread _ _ (by omega) (by omega)
  · split
    · exact hread _ _ (by omega) (by omega)
    · rw [if_pos (by omega)]
      exact hread _ _ (by omega) (by omega)

theorem first_encode_four {r : Nat} (hlow : 0x10000 ≤ r) (hhigh : r < 0x110000) (rest : Text) :
    first (0xF0 + r / 262144).toUInt8 ((0x80 + r / 4096 % 64).toUInt8 ::
      (0x80 + r / 64 % 64).toUInt8 :: (0x80 + r % 64).toUInt8 :: rest) = (r, 4) := by
  have hb : (0xF0 + r / 262144).toUInt8.toNat = 0xF0 + r / 262144 := toNat_toUInt8 (by omega)
  have hread : ∀ lo hi, lo ≤ 0x80 + r / 4096 % 64 → 0x80 + r / 4096 % 64 ≤ hi →
      four (0xF0 + r / 262144) lo hi ((0x80 + r / 4096 % 64).toUInt8 ::
        (0x80 + r / 64 % 64).toUInt8 :: (0x80 + r % 64).toUInt8 :: rest) = (r, 4) := by
    intro lo hi hlo hhi
    rw [four, isTrail_toUInt8 hlo hhi (by omega), isTrail_trail, isTrail_trail]
    simp only [Bool.and_self, if_true, low, toNat_trail, Prod.mk.injEq, and_true]
    exact (by omega : (0xF0 + r / 262144) % 8 * 262144 + (0x80 + r / 4096 % 64) % 64 * 4096 +
      (0x80 + r / 64 % 64) % 64 * 64 + (0x80 + r % 64) % 64 = r)
  rw [first, hb, if_neg (by omega), if_neg (by omega), if_neg (by omega), if_neg (by omega),
    if_neg (by omega), if_neg (by omega)]
  split
  · exact hread _ _ (by omega) (by omega)
  · split
    · exact hread _ _ (by omega) (by omega)
    · rw [if_pos (by omega)]
      exact hread _ _ (by omega) (by omega)

/-- The spelling of a code point is read as that code point. -/
theorem first_encode {r : Nat} (h : Rune.isScalar r = true) : ∃ b bs, Rune.encode r = b :: bs ∧
    ∀ rest, first b (bs ++ rest) = (r, bs.length + 1) := by
  have hscalar : r < 0xD800 ∨ 0xE000 ≤ r ∧ r < 0x110000 := by
    simpa only [Rune.isScalar, Bool.or_eq_true, Bool.and_eq_true, decide_eq_true_eq] using h
  by_cases hone : r < 0x80
  · refine ⟨r.toUInt8, [], by rw [Rune.encode, if_pos hone], fun rest => ?_⟩
    have hb : r.toUInt8.toNat = r := toNat_toUInt8 (by omega)
    rw [first, hb, if_pos hone]
    rfl
  by_cases htwo : r < 0x800
  · exact ⟨_, _, Rune.encode_two (by omega) htwo, first_encode_two (by omega) htwo⟩
  by_cases hthree : r < 0x10000
  · exact ⟨_, _, Rune.encode_three (by omega) hthree (by omega),
      first_encode_three (by omega) hthree (by omega)⟩
  · exact ⟨_, _, Rune.encode_four (by omega) (by omega), first_encode_four (by omega) (by omega)⟩

/-- What is read can be spelled. Otherwise it would be spelled like the character for
    what cannot be read, and read as that. -/
theorem isScalar_first (b : UInt8) (r : Text) : (first b r).1.isScalar = true := by
  by_cases hcode : (first b r).1 = Rune.replacement
  · rw [hcode]
    rfl
  by_cases hlow : (first b r).1 < 0x800
  · exact (Bool.or_eq_true _ _).mpr (Or.inl (decide_eq_true (Nat.lt_trans hlow (by decide))))
  · by_contra hscalar
    have hspelled := encode_first fun hbroken => hcode (congrArg Prod.fst hbroken)
    rw [Rune.encode_not_scalar (Nat.not_lt.mp hlow) (Bool.not_eq_true _ ▸ hscalar),
      List.cons.injEq] at hspelled
    rcases hspelled with ⟨rfl, htaken⟩
    have hstarts : [0xBF, 0xBD] <+: r := htaken ▸ List.take_prefix _ r
    rcases hstarts with ⟨rest, rfl⟩
    exact hcode rfl

end Glyph

namespace Text

theorem isScalar_of_mem_runes {t : Text} : ∀ r ∈ t.runes, r.isScalar = true := by
  induction hn : t.length using Nat.strong_induction_on generalizing t with
  | _ n ih =>
    cases t with
    | nil => exact List.forall_mem_nil _
    | cons b r =>
        rw [runes, glyphs_cons, List.map_cons, List.forall_mem_cons]
        refine ⟨Glyph.isScalar_first b r, ih _ ?_ rfl⟩
        rw [← hn, List.length_drop, List.length_cons]
        omega

/-- A text written from code points gives them back. -/
theorem runes_ofRunes {rs : List Rune} (h : ∀ r ∈ rs, r.isScalar = true) :
    (ofRunes rs).runes = rs := by
  induction rs with
  | nil => rfl
  | cons r rs ih =>
      rcases Glyph.first_encode (h r List.mem_cons_self) with ⟨b, bs, hencode, hfirst⟩
      have hspelled : ofRunes (r :: rs) = b :: (bs ++ ofRunes rs) := by
        rw [ofRunes, List.flatMap_cons, hencode]
        rfl
      rw [hspelled, runes, glyphs_cons, hfirst, List.map_cons, Nat.add_sub_cancel, List.drop_left]
      exact congrArg (r :: ·) (ih fun s hs => h s (List.mem_cons_of_mem r hs))

/-- A text that begins with a readable one begins with its characters. -/
theorem isPrefix_runes {t u : Text} (hstarts : t <+: u) (h : ∀ c ∈ t.runes, c ≠ Rune.replacement) :
    t.runes <+: u.runes := by
  rcases hstarts with ⟨rest, rfl⟩
  rw [runes, runes, whole_of_readable h, List.map_append]
  exact List.prefix_append _ _

end Text

end PocketScript
