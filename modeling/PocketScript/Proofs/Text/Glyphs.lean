import Mathlib.Data.List.TakeWhile
import Mathlib.Order.Basic
import PocketScript.Text.Glyph

/-!
# Reading bytes as characters

A text can be cut in front of any byte below 128 without changing how its
bytes are read. Such a byte is a character by itself, and no character that
starts before it reaches across: the bytes that continue a character are 128
and above, and where they are missing the reader falls back to one byte.

What a character takes in is therefore decided by its first byte and by the
run of high bytes after it (`Glyph.first_congr`). This is what makes it safe
to cut a source at its line feeds, to join two sources with one, or to drop
blanks at the end of a line, also where the bytes spell nothing.

## Main definitions

* `Text.isHigh`: A byte that is not a character by itself.
* `Text.CutsClean`: A text that starts with a character of its own, or not at
  all.
* `Glyph.Spans`: A character that starts with a high byte.
* `Glyph.Proper`: A glyph as the reader makes them.

## Theorems

* `Text.glyphs_cons`: The first character and the rest.
* `Text.glyphs_append`: Reading two texts in a row.
* `Text.proper_of_mem_glyphs`: The reader makes proper glyphs.
-/

namespace PocketScript

namespace Text

/-- A byte that is not a character by itself. -/
def isHigh (b : UInt8) : Bool := 128 ≤ b.toNat

end Text

namespace Glyph

/-- The continuation of a character stops at the first byte that is not
    high. -/
theorem not_isTrail_of_low {lo hi : Nat} (hlo : 128 ≤ lo) {b : UInt8}
    (hb : Text.isHigh b = false) : isTrail lo hi b = false := by
  simp only [Text.isHigh, decide_eq_false_iff_not, Nat.not_le] at hb
  simp only [isTrail, Bool.and_eq_false_iff, decide_eq_false_iff_not, Nat.not_le]
  exact Or.inl (by omega)

theorem two_takeWhile (b : Nat) (r : Text) : two b (r.takeWhile Text.isHigh) = two b r := by
  cases r with
  | nil => rfl
  | cons c r =>
      cases hc : Text.isHigh c with
      | true => simp only [List.takeWhile_cons, hc, if_true, two]
      | false =>
          simp only [List.takeWhile_cons, hc, Bool.false_eq_true, if_false, two,
            not_isTrail_of_low (Nat.le_refl _) hc]

theorem three_takeWhile (b : Nat) {lo hi : Nat} (hlo : 128 ≤ lo) (r : Text) :
    three b lo hi (r.takeWhile Text.isHigh) = three b lo hi r := by
  rcases r with _ | ⟨c, _ | ⟨d, r⟩⟩
  · rfl
  · cases hc : Text.isHigh c <;> simp [hc, three]
  · cases hc : Text.isHigh c with
    | false => simp [hc, three, not_isTrail_of_low hlo hc]
    | true =>
        cases hd : Text.isHigh d with
        | true => simp [hc, hd, three]
        | false =>
            simp [hc, hd, three, not_isTrail_of_low (Nat.le_refl 128) hd]

theorem four_takeWhile (b : Nat) {lo hi : Nat} (hlo : 128 ≤ lo) (r : Text) :
    four b lo hi (r.takeWhile Text.isHigh) = four b lo hi r := by
  rcases r with _ | ⟨c, _ | ⟨d, _ | ⟨e, r⟩⟩⟩
  · rfl
  · cases hc : Text.isHigh c <;> simp [hc, four]
  · cases hc : Text.isHigh c <;> cases hd : Text.isHigh d <;>
      simp [hc, hd, four]
  · cases hc : Text.isHigh c with
    | false => simp [hc, four, not_isTrail_of_low hlo hc]
    | true =>
        cases hd : Text.isHigh d with
        | false =>
            simp [hc, hd, four, not_isTrail_of_low (Nat.le_refl 128) hd]
        | true =>
            cases he : Text.isHigh e with
            | true => simp [hc, hd, he, four]
            | false =>
                simp [hc, hd, he, four,
                  not_isTrail_of_low (Nat.le_refl 128) he]

/-- The run of high bytes after the first byte of a character decides how it
    is read. -/
theorem first_takeWhile (b : UInt8) (r : Text) :
    first b (r.takeWhile Text.isHigh) = first b r := by
  simp only [first, two_takeWhile, three_takeWhile _ (by decide : 128 ≤ 0xA0),
    three_takeWhile _ (by decide : 128 ≤ 0x80), four_takeWhile _ (by decide : 128 ≤ 0x90),
    four_takeWhile _ (by decide : 128 ≤ 0x80)]

theorem first_congr (b : UInt8) {r r' : Text}
    (h : r.takeWhile Text.isHigh = r'.takeWhile Text.isHigh) : first b r = first b r' := by
  rw [← first_takeWhile b r, h, first_takeWhile]

theorem first_low {b : UInt8} (hb : Text.isHigh b = false) (r : Text) :
    first b r = (b.toNat, 1) := by
  simp only [Text.isHigh, decide_eq_false_iff_not, Nat.not_le] at hb
  simp only [first, if_pos hb]

/-- A byte that continues a character is high. -/
theorem isHigh_of_isTrail {lo hi : Nat} (hlo : 128 ≤ lo) {b : UInt8}
    (hb : isTrail lo hi b = true) : Text.isHigh b = true := by
  cases hh : Text.isHigh b with
  | true => rfl
  | false => rw [not_isTrail_of_low hlo hh] at hb; cases hb

/-- What a character that starts with a high byte looks like: its code is not
    one of a byte by itself, and it takes in high bytes only. -/
def Spans (r : Text) (c : Rune × Nat) : Prop :=
  128 ≤ c.1 ∧ 1 ≤ c.2 ∧ c.2 ≤ (r.takeWhile Text.isHigh).length + 1

theorem spans_replacement (r : Text) : Spans r (Rune.replacement, 1) :=
  ⟨by decide, Nat.le_refl 1, Nat.le_add_left 1 _⟩

theorem two_spans {b : Nat} (hb : 2 ≤ b % 32) (r : Text) : Spans r (two b r) := by
  cases r with
  | nil => exact spans_replacement _
  | cons c r =>
      rw [two]
      split
      · rename_i hc
        refine ⟨?_, Nat.le_add_left 1 _, ?_⟩
        · change (128 : Nat) ≤ b % 32 * 64 + low c
          omega
        · simp only [List.takeWhile_cons, isHigh_of_isTrail (Nat.le_refl _) hc, if_true,
            List.length_cons]
          omega
      · exact spans_replacement _

theorem three_spans {b lo hi : Nat} (hlo : 128 ≤ lo) (hhi : hi ≤ 0xBF)
    (hb : 1 ≤ b % 16 ∨ 0xA0 ≤ lo) (r : Text) : Spans r (three b lo hi r) := by
  rcases r with _ | ⟨c, _ | ⟨d, r⟩⟩
  · exact spans_replacement _
  · exact spans_replacement _
  · rw [three]
    split
    · rename_i hcd
      simp only [Bool.and_eq_true] at hcd
      refine ⟨?_, Nat.le_add_left 1 _, ?_⟩
      · have hc := hcd.1
        simp only [isTrail, Bool.and_eq_true, decide_eq_true_eq] at hc
        change (128 : Nat) ≤ b % 16 * 4096 + c.toNat % 64 * 64 + low d
        omega
      · simp only [List.takeWhile_cons, isHigh_of_isTrail hlo hcd.1,
          isHigh_of_isTrail (Nat.le_refl _) hcd.2, if_true, List.length_cons]
        omega
    · exact spans_replacement _

theorem four_spans {b lo hi : Nat} (hlo : 128 ≤ lo) (hhi : hi ≤ 0xBF)
    (hb : 1 ≤ b % 8 ∨ 0x90 ≤ lo) (r : Text) : Spans r (four b lo hi r) := by
  rcases r with _ | ⟨c, _ | ⟨d, _ | ⟨e, r⟩⟩⟩
  · exact spans_replacement _
  · exact spans_replacement _
  · exact spans_replacement _
  · rw [four]
    split
    · rename_i hcde
      simp only [Bool.and_eq_true] at hcde
      refine ⟨?_, Nat.le_add_left 1 _, ?_⟩
      · have hc := hcde.1.1
        simp only [isTrail, Bool.and_eq_true, decide_eq_true_eq] at hc
        change (128 : Nat) ≤ b % 8 * 262144 + c.toNat % 64 * 4096 + low d * 64 + low e
        omega
      · simp only [List.takeWhile_cons, isHigh_of_isTrail hlo hcde.1.1,
          isHigh_of_isTrail (Nat.le_refl _) hcde.1.2,
          isHigh_of_isTrail (Nat.le_refl _) hcde.2, if_true, List.length_cons]
        omega
    · exact spans_replacement _

theorem first_spans {b : UInt8} (hb : Text.isHigh b = true) (r : Text) : Spans r (first b r) := by
  simp only [Text.isHigh, decide_eq_true_eq] at hb
  have hlt := b.toNat_lt
  simp only [first]
  split
  · omega
  split
  · exact spans_replacement r
  split
  · exact two_spans (by omega) r
  split
  · exact three_spans (by decide) (by decide) (Or.inr (by decide)) r
  split
  · exact three_spans (by decide) (by decide) (Or.inl (by omega)) r
  split
  · exact three_spans (by decide) (by decide) (Or.inl (by omega)) r
  split
  · exact four_spans (by decide) (by decide) (Or.inr (by decide)) r
  split
  · exact four_spans (by decide) (by decide) (Or.inl (by omega)) r
  split
  · exact four_spans (by decide) (by decide) (Or.inl (by omega)) r
  · exact spans_replacement r

/-- A character takes in one byte and high bytes after it. -/
theorem first_width (b : UInt8) (r : Text) :
    (first b r).2 - 1 ≤ (r.takeWhile Text.isHigh).length := by
  cases hb : Text.isHigh b with
  | true =>
      have hspans := first_spans hb r
      rw [Spans] at hspans
      omega
  | false => rw [first_low hb]; exact Nat.zero_le _

/-- A glyph as the reader makes them: a byte by itself, or a code past those
    spelled with high bytes. -/
def Proper (g : Glyph) : Prop :=
  (∃ b : UInt8, Text.isHigh b = false ∧ g = ⟨b.toNat, [b]⟩) ∨
    (128 ≤ g.code ∧ g.bytes ≠ [] ∧ ∀ b ∈ g.bytes, Text.isHigh b = true)

end Glyph

namespace Text

theorem glyphsAfter_eq_glyphs_drop (t : Text) : ∀ skip, glyphsAfter skip t = glyphs (t.drop skip) := by
  induction t with
  | nil => intro skip; cases skip <;> rfl
  | cons b r ih =>
      intro skip
      cases skip with
      | zero => rfl
      | succ k => exact ih k

/-- The first character of a text and the characters after it. -/
theorem glyphs_cons (b : UInt8) (r : Text) :
    glyphs (b :: r) =
      ⟨(Glyph.first b r).1, b :: r.take ((Glyph.first b r).2 - 1)⟩ ::
        glyphs (r.drop ((Glyph.first b r).2 - 1)) := by
  rw [← glyphsAfter_eq_glyphs_drop]
  rfl

@[simp] theorem glyphs_nil : glyphs [] = [] := rfl

theorem glyphs_cons_low {b : UInt8} (hb : isHigh b = false) (r : Text) :
    glyphs (b :: r) = ⟨b.toNat, [b]⟩ :: glyphs r := by
  rw [glyphs_cons, Glyph.first_low hb]
  rfl

/-- A text that starts with a byte that is a character by itself, or not at
    all. -/
def CutsClean (t : Text) : Prop := ∀ b r, t = b :: r → isHigh b = false

theorem cutsClean_cons {b : UInt8} (hb : isHigh b = false) (r : Text) : CutsClean (b :: r) := by
  intro c s h
  rw [← (List.cons.inj h).1]
  exact hb

theorem CutsClean.takeWhile {t : Text} (h : CutsClean t) : t.takeWhile isHigh = [] := by
  cases t with
  | nil => rfl
  | cons b r => rw [List.takeWhile_cons, h b r rfl]; rfl

theorem takeWhile_append_of_cutsClean (r : Text) {t : Text} (h : CutsClean t) :
    (r ++ t).takeWhile isHigh = r.takeWhile isHigh := by
  induction r with
  | nil => exact h.takeWhile
  | cons b r ih => simp only [List.cons_append, List.takeWhile_cons, ih]

/-- Two texts in a row are read one after the other if the second can be cut
    off. The induction is on the number of bytes, because a character can take
    in several. -/
theorem glyphs_append (a : Text) {t : Text} (h : CutsClean t) :
    glyphs (a ++ t) = glyphs a ++ glyphs t := by
  induction hn : a.length using Nat.strong_induction_on generalizing a with
  | _ n ih =>
    cases a with
    | nil => rfl
    | cons b r =>
        have hfirst : Glyph.first b (r ++ t) = Glyph.first b r :=
          Glyph.first_congr b (takeWhile_append_of_cutsClean r h)
        have hw : (Glyph.first b r).2 - 1 ≤ r.length :=
          Nat.le_trans (Glyph.first_width b r) (List.takeWhile_sublist _).length_le
        rw [List.cons_append, glyphs_cons, glyphs_cons, hfirst,
          List.take_append_of_le_length hw, List.drop_append_of_le_length hw, List.cons_append]
        rw [ih (r.drop ((Glyph.first b r).2 - 1)).length (by
          rw [← hn, List.length_drop, List.length_cons]
          omega) _ rfl]

/-- The bytes that a character takes in after its first are high. -/
theorem isHigh_of_mem_take {b c : UInt8} {r : Text}
    (hc : c ∈ r.take ((Glyph.first b r).2 - 1)) : isHigh c = true := by
  have hpre : r.take ((Glyph.first b r).2 - 1) =
      (r.takeWhile isHigh).take ((Glyph.first b r).2 - 1) := by
    have hsplit := List.takeWhile_append_dropWhile (p := isHigh) (l := r)
    have htake : (r.takeWhile isHigh ++ r.dropWhile isHigh).take ((Glyph.first b r).2 - 1) =
        (r.takeWhile isHigh).take ((Glyph.first b r).2 - 1) :=
      List.take_append_of_le_length (Glyph.first_width b r)
    rw [← htake, hsplit]
  rw [hpre] at hc
  exact List.mem_takeWhile_imp (List.mem_of_mem_take hc)

/-- The reader makes proper glyphs. -/
theorem proper_of_mem_glyphs {t : Text} {g : Glyph} (hg : g ∈ glyphs t) : g.Proper := by
  induction hn : t.length using Nat.strong_induction_on generalizing t with
  | _ n ih =>
    cases t with
    | nil => exact absurd hg List.not_mem_nil
    | cons b r =>
        rw [glyphs_cons] at hg
        rcases List.mem_cons.mp hg with rfl | hg
        · cases hb : isHigh b with
          | false =>
              rw [Glyph.first_low hb]
              exact Or.inl ⟨b, hb, rfl⟩
          | true =>
              refine Or.inr ⟨(Glyph.first_spans hb r).1, List.cons_ne_nil _ _, fun c hc => ?_⟩
              rcases List.mem_cons.mp hc with rfl | hc
              · exact hb
              · exact isHigh_of_mem_take hc
        · refine ih (r.drop ((Glyph.first b r).2 - 1)).length ?_ hg rfl
          rw [← hn, List.length_drop, List.length_cons]
          omega

end Text

end PocketScript
