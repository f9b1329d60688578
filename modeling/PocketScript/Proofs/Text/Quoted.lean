import Mathlib.Algebra.Group.Nat.Defs
import PocketScript.Proofs.Json.Strings
import PocketScript.Proofs.Text.Decoding
import PocketScript.Text.Quoted

/-!
# Reading quoted texts

A quoted text is read back, whatever stands behind its closing quote. So no two texts
are quoted alike, and a quoted text ends where its own closing quote is.

The reader goes byte by byte and knows nothing of characters. That is enough, because
what is not marked with a backslash stands for itself, and what is marked says its
bytes or its code point. It also reads quoted texts that are not written well.

## Main definitions

* `Text.ofHex`: The number that hexadecimal digits write.
* `Text.unquoted`: The text up to the closing quote, and what is behind it.
* `Text.escaped`: The inside of a quoted text.

## Theorems

* `Text.ofHex_hex`: Hexadecimal digits are read back.
* `Glyph.unquoted_escaped`: A character between quotes is read back.
* `Text.quoted_append_inj`: Quoted texts are told apart, whatever stands behind.
-/

namespace PocketScript

namespace Text

/-- The number that hexadecimal digits write. -/
def ofHex (ds : Text) : Nat := ds.foldl (fun n b => 16 * n + (Json.hexValue? b).getD 0) 0

/-- Hexadecimal digits are read back if there are enough of them. -/
theorem ofHex_hex {width n : Nat} (h : n < 16 ^ width) : ofHex (hex width n) = n := by
  induction width generalizing n with
  | zero => exact (Nat.lt_one_iff.mp h).symm
  | succ w ih =>
      have hrest := ih (n := n / 16) (by rw [Nat.pow_succ] at h; omega)
      rw [ofHex] at hrest
      rw [hex, ofHex, List.foldl_append, hrest, List.foldl_cons, List.foldl_nil,
        Json.hexValue?_hexDigit (Nat.mod_lt n (by decide))]
      exact Nat.div_add_mod n 16

/-- What a letter stands for behind a backslash. -/
def letterMeaning : UInt8 → UInt8
  | 97 => 7
  | 98 => 8
  | 116 => 9
  | 110 => 10
  | 118 => 11
  | 102 => 12
  | 114 => 13
  | b => b

/-- More bytes in front of what was read. -/
def more (bytes : Text) (read : Option (Text × Text)) : Option (Text × Text) :=
  read.map fun (inside, rest) => (bytes ++ inside, rest)

/-- The text up to the closing quote, and what is behind it. -/
def unquoted : Text → Option (Text × Text)
  | [] => none
  | b :: r =>
    if b = 34 then some ([], r)
    else if b = 92 then
      match r with
      | [] => none
      | 120 :: c :: d :: rest => more [(ofHex [c, d]).toUInt8] (unquoted rest)
      | 117 :: c :: d :: e :: f :: rest => more (Rune.encode (ofHex [c, d, e, f])) (unquoted rest)
      | 85 :: c :: d :: e :: f :: g :: h :: i :: j :: rest =>
        more (Rune.encode (ofHex [c, d, e, f, g, h, i, j])) (unquoted rest)
      | letter :: rest => more [letterMeaning letter] (unquoted rest)
    else more [b] (unquoted r)

theorem more_more (a b : Text) (read : Option (Text × Text)) :
    more a (more b read) = more (a ++ b) read := by
  cases read with
  | none => rfl
  | some x => simp [more]

theorem unquoted_plain {b : UInt8} (hquote : b ≠ 34) (hmark : b ≠ 92) (r : Text) :
    unquoted (b :: r) = more [b] (unquoted r) := by
  rw [unquoted.eq_def]
  exact (if_neg hquote).trans (if_neg hmark)

theorem unquoted_high {bs : Text} (h : ∀ b ∈ bs, isHigh b = true) (r : Text) :
    unquoted (bs ++ r) = more bs (unquoted r) := by
  induction bs with
  | nil => cases hread : unquoted r <;> simp [more, hread]
  | cons b bs ih =>
      have hb := h b List.mem_cons_self
      have hquote : b ≠ 34 := by rintro rfl; exact absurd hb (by decide)
      have hmark : b ≠ 92 := by rintro rfl; exact absurd hb (by decide)
      rw [List.cons_append, unquoted_plain hquote hmark,
        ih fun c hc => h c (List.mem_cons_of_mem b hc), more_more]
      rfl

theorem unquoted_byte (n : Nat) (r : Text) (h : n < 256) :
    unquoted (92 :: 120 :: (hex 2 n ++ r)) = more [n.toUInt8] (unquoted r) := by
  have hread : unquoted (92 :: 120 :: (hex 2 n ++ r)) =
      more [(ofHex (hex 2 n)).toUInt8] (unquoted r) := rfl
  rw [hread, ofHex_hex h]

theorem unquoted_code {n : Nat} (h : n < 0x10000) (r : Text) :
    unquoted (92 :: 117 :: (hex 4 n ++ r)) = more (Rune.encode n) (unquoted r) := by
  have hread : unquoted (92 :: 117 :: (hex 4 n ++ r)) =
      more (Rune.encode (ofHex (hex 4 n))) (unquoted r) := rfl
  rw [hread, ofHex_hex h]

theorem unquoted_long {n : Nat} (h : n < 0x110000) (r : Text) :
    unquoted (92 :: 85 :: (hex 8 n ++ r)) = more (Rune.encode n) (unquoted r) := by
  have hread : unquoted (92 :: 85 :: (hex 8 n ++ r)) =
      more (Rune.encode (ofHex (hex 8 n))) (unquoted r) := rfl
  rw [hread, ofHex_hex (Nat.lt_trans h (by decide))]

/-- A byte that is a character by itself stands for itself, behind a backslash, as a
    letter behind a backslash, or as its number. -/
theorem escaped_low {b : UInt8} (hb : isHigh b = false) :
    (Rune.escaped 34 b.toNat = [b] ∧ b ≠ 34 ∧ b ≠ 92) ∨
    (∃ letter, Rune.escaped 34 b.toNat = [92, letter] ∧ letterMeaning letter = b ∧
      letter ≠ 120 ∧ letter ≠ 117 ∧ letter ≠ 85) ∨
    Rune.escaped 34 b.toNat = 92 :: 120 :: hex 2 b.toNat := by
  have hall : ∀ n < 128,
      (Rune.escaped 34 n = [n.toUInt8] ∧ n.toUInt8 ≠ 34 ∧ n.toUInt8 ≠ 92) ∨
      (Rune.escaped 34 n = [92, (Rune.escaped 34 n).getD 1 0] ∧
        letterMeaning ((Rune.escaped 34 n).getD 1 0) = n.toUInt8 ∧
        (Rune.escaped 34 n).getD 1 0 ≠ 120 ∧ (Rune.escaped 34 n).getD 1 0 ≠ 117 ∧
        (Rune.escaped 34 n).getD 1 0 ≠ 85) ∨
      Rune.escaped 34 n = 92 :: 120 :: hex 2 n := by
    decide +kernel
  rw [isHigh, decide_eq_false_iff_not, Nat.not_le] at hb
  have hbyte : b.toNat.toUInt8 = b := UInt8.ofNat_toNat
  have hcases := hall b.toNat hb
  rw [hbyte] at hcases
  rcases hcases with h | h | h
  · exact Or.inl h
  · exact Or.inr (Or.inl ⟨_, h⟩)
  · exact Or.inr (Or.inr h)

theorem unquoted_letter {letter : UInt8} (hbyte : letter ≠ 120) (hcode : letter ≠ 117)
    (hlong : letter ≠ 85) (r : Text) :
    unquoted (92 :: letter :: r) = more [letterMeaning letter] (unquoted r) := by
  rw [unquoted.eq_def]
  simp only [show (92 : UInt8) ≠ 34 by decide, if_false, if_true]
  split
  all_goals simp_all

end Text

theorem Rune.lt_of_isScalar {r : Rune} (h : r.isScalar = true) : r < 0x110000 := by
  simp only [isScalar, Bool.or_eq_true, Bool.and_eq_true, decide_eq_true_eq] at h
  exact h.elim (fun hlow => Nat.lt_trans hlow (by decide)) And.right

namespace Glyph

theorem escaped_high {n : Nat} (h : 128 ≤ n) :
    Rune.escaped 34 n = Rune.encode n ∨
      Rune.escaped 34 n =
        if n < 0x10000 then 92 :: 117 :: Text.hex 4 n else 92 :: 85 :: Text.hex 8 n := by
  have hshort : Rune.shortEscape? n = none := by
    simp only [Rune.shortEscape?]
    split
    case h_8 => rfl
    all_goals exact absurd h (by decide)
  have hplain : ¬ (n = 34 ∨ n = 92) := by omega
  have hcontrol : ¬ (n < 32 ∨ n = 127) := by omega
  rw [Rune.escaped, if_neg hplain, hshort]
  by_cases hvisible : Rune.isVisible n = true
  · exact Or.inl (if_pos hvisible)
  · exact Or.inr ((if_neg hvisible).trans (if_neg hcontrol))

/-- A character between quotes is read back. -/
theorem unquoted_escaped {t : Text} {g : Glyph} (hg : g ∈ t.glyphs) (r : Text) :
    Text.unquoted (g.escaped ++ r) = Text.more g.bytes (Text.unquoted r) := by
  have hscalar : Rune.isScalar g.code = true :=
    Text.isScalar_of_mem_runes _ (List.mem_map_of_mem hg)
  rcases Text.broken_or_spelled hg with ⟨b, rfl⟩ | hspelled
  · have hescaped : escaped ⟨Rune.replacement, [b]⟩ = 92 :: 120 :: Text.hex 2 b.toNat := rfl
    rw [hescaped, List.cons_append, List.cons_append, Text.unquoted_byte _ _ b.toNat_lt]
    exact congrArg (Text.more · _) (congrArg (fun c => [c]) UInt8.ofNat_toNat)
  · have hwhole : g.isBroken = false := by
      rw [isBroken]
      by_cases hcode : g.code = Rune.replacement
      · rw [hspelled, hcode]
        rfl
      · rw [beq_eq_false_iff_ne.mpr hcode, Bool.false_and]
    have hescaped : g.escaped = Rune.escaped 34 g.code := by
      rw [escaped, hwhole]
      rfl
    rw [hescaped]
    rcases Text.proper_of_mem_glyphs hg with ⟨b, hb, rfl⟩ | ⟨hcode, _, hhigh⟩
    · rcases Text.escaped_low hb with ⟨heq, hquote, hmark⟩ | ⟨letter, heq, hmeaning, hne⟩ | heq
      · rw [heq]
        exact Text.unquoted_plain hquote hmark r
      · rw [heq, ← hmeaning]
        exact Text.unquoted_letter hne.1 hne.2.1 hne.2.2 r
      · rw [heq, List.cons_append, List.cons_append, Text.unquoted_byte _ _ b.toNat_lt]
        exact congrArg (Text.more · _) (congrArg (fun c => [c]) UInt8.ofNat_toNat)
    · rw [hspelled]
      rcases escaped_high hcode with heq | heq
      · rw [heq, ← hspelled]
        exact Text.unquoted_high hhigh r
      · rw [heq]
        split
        · rename_i hcode
          exact Text.unquoted_code hcode r
        · exact Text.unquoted_long (Rune.lt_of_isScalar hscalar) r

end Glyph

namespace Text

/-- The inside of a quoted text. -/
def escaped (t : Text) : Text := t.glyphs.flatMap Glyph.escaped

theorem quoted_eq (t : Text) : t.quoted = 34 :: (t.escaped ++ [34]) := rfl

/-- A quoted text is read back, and so is where it ends. -/
theorem unquoted_quoted (t rest : Text) :
    unquoted (t.escaped ++ 34 :: rest) = some (t, rest) := by
  have hglyphs : ∀ gs, (∀ g ∈ gs, g ∈ t.glyphs) →
      unquoted (gs.flatMap Glyph.escaped ++ 34 :: rest) = some (ofGlyphs gs, rest) := by
    intro gs
    induction gs with
    | nil =>
        intro _
        rw [List.flatMap_nil, List.nil_append, unquoted.eq_def]
        rfl
    | cons g gs ih =>
        intro h
        rw [List.flatMap_cons, List.append_assoc,
          Glyph.unquoted_escaped (h g List.mem_cons_self),
          ih fun g' hg' => h g' (List.mem_cons_of_mem g hg')]
        rfl
  rw [escaped, hglyphs t.glyphs fun _ hg => hg, glyphs_spell]

/-- Quoted texts are told apart, whatever stands behind them. -/
theorem quoted_append_inj {t u a b : Text} (h : t.quoted ++ a = u.quoted ++ b) :
    t = u ∧ a = b := by
  simp only [quoted_eq, List.cons_append, List.append_assoc, List.nil_append,
    List.cons.injEq, true_and] at h
  have hread := unquoted_quoted t a
  rw [h, unquoted_quoted u b] at hread
  cases hread
  exact ⟨rfl, rfl⟩

end Text

end PocketScript
