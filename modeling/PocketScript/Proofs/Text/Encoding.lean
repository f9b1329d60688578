import PocketScript.Proofs.Text.Glyphs

/-!
# Characters and their spellings

A character that is not broken is spelled the way `Rune.encode` spells its code
point. The bounds that the reader sets to the second byte are exactly what makes
the spelling the only one: they shut out the longer spellings of a code point,
and the halves of surrogate pairs, for which `Rune.encode` writes the replacement
character.

## Main definitions

* `Glyph.Spells`: A character as it is read, with the spelling of its code point.

## Theorems

* `Glyph.first_spells`: Every character that is not broken is spelled like its
  code point.
* `Glyph.encode_first`: The same as an equation.
* `Text.ofRunes_runes`: A text without broken characters is spelled by its code
  points.
* `Rune.lineFeed_not_mem_encode`: No other code point is spelled with a line feed.
-/

namespace PocketScript

namespace Rune

theorem encode_two {r : Nat} (hlow : 0x80 ≤ r) (hhigh : r < 0x800) :
    encode r = [(0xC0 + r / 64).toUInt8, (0x80 + r % 64).toUInt8] := by
  rw [encode, if_neg (Nat.not_lt.mpr hlow), if_pos hhigh]

theorem encode_three {r : Nat} (hlow : 0x800 ≤ r) (hhigh : r < 0x10000)
    (hscalar : r < 0xD800 ∨ 0xE000 ≤ r) :
    encode r =
      [(0xE0 + r / 4096).toUInt8, (0x80 + r / 64 % 64).toUInt8, (0x80 + r % 64).toUInt8] := by
  have hscalar : isScalar r = true := by
    simp only [isScalar, Bool.or_eq_true, Bool.and_eq_true, decide_eq_true_eq]
    exact hscalar.imp_right fun h => ⟨h, Nat.lt_trans hhigh (by decide)⟩
  rw [encode, if_neg (Nat.not_lt.mpr (Nat.le_trans (by decide) hlow)),
    if_neg (Nat.not_lt.mpr hlow), hscalar, if_neg (by decide), if_pos hhigh]

theorem encode_four {r : Nat} (hlow : 0x10000 ≤ r) (hhigh : r < 0x110000) :
    encode r =
      [(0xF0 + r / 262144).toUInt8, (0x80 + r / 4096 % 64).toUInt8,
        (0x80 + r / 64 % 64).toUInt8, (0x80 + r % 64).toUInt8] := by
  have hscalar : isScalar r = true := by
    simp only [isScalar, Bool.or_eq_true, Bool.and_eq_true, decide_eq_true_eq]
    exact Or.inr ⟨Nat.le_trans (by decide) hlow, hhigh⟩
  rw [encode, if_neg (Nat.not_lt.mpr (Nat.le_trans (by decide) hlow)),
    if_neg (Nat.not_lt.mpr (Nat.le_trans (by decide) hlow)), hscalar, if_neg (by decide),
    if_neg (Nat.not_lt.mpr hlow)]

/-- A byte that is below 256 as a number is a line feed only if it is 10. -/
theorem eq_of_lineFeed {n : Nat} (h : Text.lineFeed = n.toUInt8) (hlt : n < 256) : n = 10 := by
  have hnat := congrArg UInt8.toNat h
  rw [Nat.toUInt8, UInt8.toNat_ofNat', Nat.mod_eq_of_lt hlt] at hnat
  exact hnat.symm

theorem encode_not_scalar {r : Nat} (hlow : 0x800 ≤ r) (h : isScalar r = false) :
    encode r = [0xEF, 0xBF, 0xBD] := by
  rw [encode, if_neg (Nat.not_lt.mpr (Nat.le_trans (by decide) hlow)),
    if_neg (Nat.not_lt.mpr hlow), h]
  rfl

/-- Only the line feed is spelled with one. -/
theorem lineFeed_not_mem_encode {r : Nat} (h : r ≠ 10) : Text.lineFeed ∉ encode r := by
  intro hmem
  by_cases hone : r < 0x80
  · rw [encode, if_pos hone] at hmem
    exact h (eq_of_lineFeed (List.mem_singleton.mp hmem) (by omega))
  by_cases htwo : r < 0x800
  · rw [encode_two (by omega) htwo] at hmem
    simp only [List.mem_cons, List.not_mem_nil, or_false] at hmem
    rcases hmem with hmem | hmem <;> have := eq_of_lineFeed hmem (by omega) <;> omega
  by_cases hscalar : isScalar r = true
  · simp only [isScalar, Bool.or_eq_true, Bool.and_eq_true, decide_eq_true_eq] at hscalar
    by_cases hthree : r < 0x10000
    · rw [encode_three (by omega) hthree (hscalar.imp_right And.left)] at hmem
      simp only [List.mem_cons, List.not_mem_nil, or_false] at hmem
      rcases hmem with hmem | hmem | hmem <;> have := eq_of_lineFeed hmem (by omega) <;> omega
    · have hfour : r < 0x110000 := hscalar.elim (Nat.lt_trans · (by decide)) And.right
      rw [encode_four (by omega) hfour] at hmem
      simp only [List.mem_cons, List.not_mem_nil, or_false] at hmem
      rcases hmem with hmem | hmem | hmem | hmem <;> have := eq_of_lineFeed hmem (by omega) <;>
        omega
  · rw [encode_not_scalar (by omega) (Bool.not_eq_true _ ▸ hscalar)] at hmem
    exact absurd hmem (by decide)
end Rune

namespace Glyph

/-- A character that starts with `b` and is read as `x` is broken, or the bytes it
    takes are the spelling of its code point. -/
def Spells (b : UInt8) (r : Text) (x : Rune × Nat) : Prop :=
  x = (Rune.replacement, 1) ∨ Rune.encode x.1 = b :: r.take (x.2 - 1)

theorem spells_broken (b : UInt8) (r : Text) : Spells b r (Rune.replacement, 1) := Or.inl rfl

theorem toUInt8_eq {n : Nat} {b : UInt8} (h : n = b.toNat) : n.toUInt8 = b := by
  rw [h, Nat.toUInt8, UInt8.ofNat_toNat]

theorem bounds_of_isTrail {lo hi : Nat} {b : UInt8} (h : isTrail lo hi b = true) :
    lo ≤ b.toNat ∧ b.toNat ≤ hi := by
  rw [isTrail, Bool.and_eq_true, decide_eq_true_eq, decide_eq_true_eq] at h
  exact h

theorem two_spells {b : UInt8} (hlow : 0xC2 ≤ b.toNat) (hhigh : b.toNat < 0xE0) (r : Text) :
    Spells b r (two b.toNat r) := by
  rcases r with _ | ⟨c, r⟩
  · exact spells_broken _ _
  · rw [two]
    split
    · rename_i hc
      have hc := bounds_of_isTrail hc
      refine Or.inr ?_
      simp only [low]
      rw [Rune.encode_two (by omega) (by omega), toUInt8_eq (b := b) (by omega),
        toUInt8_eq (b := c) (by omega)]
      rfl
    · exact spells_broken _ _

theorem three_spells {b : UInt8} {lo hi : Nat} (hlow : 0xE0 ≤ b.toNat) (hhigh : b.toNat < 0xF0)
    (hlo : 0x80 ≤ lo) (hhi : hi ≤ 0xBF) (hlong : b.toNat = 0xE0 → 0xA0 ≤ lo)
    (hhalf : b.toNat = 0xED → hi ≤ 0x9F) (r : Text) : Spells b r (three b.toNat lo hi r) := by
  rcases r with _ | ⟨c, _ | ⟨d, r⟩⟩
  · exact spells_broken _ _
  · exact spells_broken _ _
  · rw [three]
    split
    · rename_i hcd
      rw [Bool.and_eq_true] at hcd
      have hc := bounds_of_isTrail hcd.1
      have hd := bounds_of_isTrail hcd.2
      refine Or.inr ?_
      simp only [low]
      rw [Rune.encode_three (by omega) (by omega) (by omega),
        toUInt8_eq (b := b) (by omega), toUInt8_eq (b := c) (by omega),
        toUInt8_eq (b := d) (by omega)]
      rfl
    · exact spells_broken _ _

theorem four_spells {b : UInt8} {lo hi : Nat} (hlow : 0xF0 ≤ b.toNat) (hhigh : b.toNat ≤ 0xF4)
    (hlo : 0x80 ≤ lo) (hhi : hi ≤ 0xBF) (hlong : b.toNat = 0xF0 → 0x90 ≤ lo)
    (hlast : b.toNat = 0xF4 → hi ≤ 0x8F) (r : Text) : Spells b r (four b.toNat lo hi r) := by
  rcases r with _ | ⟨c, _ | ⟨d, _ | ⟨e, r⟩⟩⟩
  · exact spells_broken _ _
  · exact spells_broken _ _
  · exact spells_broken _ _
  · rw [four]
    split
    · rename_i hcde
      rw [Bool.and_eq_true, Bool.and_eq_true] at hcde
      have hc := bounds_of_isTrail hcde.1.1
      have hd := bounds_of_isTrail hcde.1.2
      have he := bounds_of_isTrail hcde.2
      refine Or.inr ?_
      simp only [low]
      rw [Rune.encode_four (by omega) (by omega),
        toUInt8_eq (b := b) (by omega), toUInt8_eq (b := c) (by omega),
        toUInt8_eq (b := d) (by omega), toUInt8_eq (b := e) (by omega)]
      rfl
    · exact spells_broken _ _

/-- Every character that is not broken is spelled like its code point. -/
theorem first_spells (b : UInt8) (r : Text) : Spells b r (first b r) := by
  -- One case for each range of first bytes, as the reader has them.
  simp only [first]
  split
  · refine Or.inr ?_
    rw [Rune.encode, if_pos ‹_›, toUInt8_eq rfl]
    rfl
  split
  · exact spells_broken b r
  split
  · exact two_spells (by omega) (by omega) r
  split
  · exact three_spells (by omega) (by omega) (by decide) (by decide) (by omega) (by omega) r
  split
  · exact three_spells (by omega) (by omega) (by decide) (by decide) (by omega) (by omega) r
  split
  · exact three_spells (by omega) (by omega) (by decide) (by decide) (by omega) (by omega) r
  split
  · exact four_spells (by omega) (by omega) (by decide) (by decide) (by omega) (by omega) r
  split
  · exact four_spells (by omega) (by omega) (by decide) (by decide) (by omega) (by omega) r
  split
  · exact four_spells (by omega) (by omega) (by decide) (by decide) (by omega) (by omega) r
  · exact spells_broken b r

theorem encode_first {b : UInt8} {r : Text} (h : first b r ≠ (Rune.replacement, 1)) :
    Rune.encode (first b r).1 = b :: r.take ((first b r).2 - 1) :=
  (first_spells b r).resolve_left h

end Glyph

namespace Text

/-- A character of a text is a byte that spells none, or spelled like its code point. -/
theorem broken_or_spelled {t : Text} {g : Glyph} (hg : g ∈ t.glyphs) :
    (∃ b, g = ⟨Rune.replacement, [b]⟩) ∨ g.bytes = Rune.encode g.code := by
  induction hn : t.length using Nat.strong_induction_on generalizing t with
  | _ n ih =>
    cases t with
    | nil => exact absurd hg List.not_mem_nil
    | cons b r =>
        rw [glyphs_cons] at hg
        rcases List.mem_cons.mp hg with rfl | hg
        · by_cases hbroken : Glyph.first b r = (Rune.replacement, 1)
          · rw [hbroken]
            exact Or.inl ⟨b, rfl⟩
          · exact Or.inr (Glyph.encode_first hbroken).symm
        · refine ih _ ?_ hg rfl
          rw [← hn, List.length_drop, List.length_cons]
          omega

/-- A character of a text is spelled like its code point, unless it is broken. -/
theorem bytes_of_mem_glyphs {t : Text} {g : Glyph} (hg : g ∈ t.glyphs)
    (hcode : g.code ≠ Rune.replacement) : g.bytes = Rune.encode g.code := by
  rcases broken_or_spelled hg with ⟨b, rfl⟩ | hspelled
  · exact absurd rfl hcode
  · exact hspelled

/-- A text without broken characters is spelled by its code points. -/
theorem ofRunes_runes {t : Text} (h : ∀ c ∈ t.runes, c ≠ Rune.replacement) :
    ofRunes t.runes = t := by
  have hspelled : t.glyphs.map (fun g => Rune.encode g.code) = t.glyphs.map Glyph.bytes := by
    refine List.map_congr_left fun g hg => (bytes_of_mem_glyphs hg ?_).symm
    exact h g.code (List.mem_map_of_mem hg)
  rw [ofRunes, runes, List.flatMap_map, List.flatMap_def, hspelled, ← List.flatMap_def]
  exact glyphs_spell t

end Text

end PocketScript
