import PocketScript.Proofs.Layout.Trimming
import PocketScript.Text.Space

/-!
# What a text starts with

A prompt trims what was typed and then asks two things: is anything left, and
does it start with a dot? Both are answered by one character, the first that is
no white space, and trimming can be left out of the matter.

That is what makes the answers the same for a line and for an input that starts
with the line. Trimming cuts off more or less at the other end depending on what
follows, but the leading character of an input is that of its first line, as
soon as there is one.

## Main definitions

* `Text.lead?`: The first character that is no white space.

## Theorems

* `Text.trim_isEmpty`, `Text.startsWith_trim`: What trimming leaves over is told
  by the leading character.
* `Text.lead?_unlines`: The leading character of lines is that of the first.
-/

namespace PocketScript

namespace Text

/-- The first character that is no white space, if there is one. -/
def lead? (t : Text) : Option Glyph := (t.glyphs.dropWhile Glyph.isSpace).head?

/-- The leading character is one of the characters of the text. -/
theorem mem_glyphs_of_lead? {t : Text} {g : Glyph} (h : t.lead? = some g) : g ∈ t.glyphs :=
  (List.dropWhile_sublist Glyph.isSpace).subset (List.mem_of_mem_head? h)

/-- Trimming leaves nothing, or a text that starts with the leading character. -/
theorem trim_cases (t : Text) : (t.lead? = none ∧ t.trim = []) ∨
    ∃ g more, t.lead? = some g ∧ t.trim = g.bytes ++ more := by
  rw [lead?, trim]
  cases hkept : t.glyphs.dropWhile Glyph.isSpace with
  | nil => exact Or.inl ⟨rfl, rfl⟩
  | cons g rest =>
      have hg : ¬ Glyph.isSpace g = true := by
        have hhead := List.head?_dropWhile_not Glyph.isSpace t.glyphs
        rw [hkept, List.head?_cons] at hhead
        rw [hhead]
        exact Bool.false_ne_true
      -- What is cut off at the other end does not reach the first character.
      have hlast : ∃ kept, (g :: rest).reverse.dropWhile Glyph.isSpace = kept ++ [g] := by
        rw [List.reverse_cons, List.dropWhile_append, List.dropWhile_cons_of_neg hg]
        split
        · exact ⟨[], rfl⟩
        · exact ⟨_, rfl⟩
      rcases hlast with ⟨kept, hlast⟩
      refine Or.inr ⟨g, ofGlyphs kept.reverse, rfl, ?_⟩
      rw [hlast, List.reverse_append, List.reverse_singleton]
      rfl

theorem bytes_ne_nil_of_lead? {t : Text} {g : Glyph} (h : t.lead? = some g) : g.bytes ≠ [] := by
  rcases proper_of_mem_glyphs (mem_glyphs_of_lead? h) with ⟨b, _, hg⟩ | ⟨_, hbytes, _⟩
  · rw [hg]
    exact List.cons_ne_nil b []
  · exact hbytes

/-- Trimming leaves nothing exactly if there is no leading character. -/
theorem trim_isEmpty (t : Text) : t.trim.isEmpty = t.lead?.isNone := by
  rcases t.trim_cases with ⟨hlead, htrim⟩ | ⟨g, more, hlead, htrim⟩
  · rw [hlead, htrim]
    rfl
  · have hne : g.bytes ++ more ≠ [] :=
      List.append_ne_nil_of_left_ne_nil (bytes_ne_nil_of_lead? hlead) more
    rw [hlead, htrim, List.isEmpty_eq_false_iff.mpr hne]
    rfl

/-- A trimmed text starts with a byte if the leading character does. -/
theorem startsWith_trim (b : UInt8) (t : Text) :
    startsWith [b] t.trim = t.lead?.any fun g => startsWith [b] g.bytes := by
  rcases t.trim_cases with ⟨hlead, htrim⟩ | ⟨g, more, hlead, htrim⟩
  · rw [hlead, htrim]
    rfl
  · rw [hlead, htrim, Option.any_some]
    cases hbytes : g.bytes with
    | nil => exact absurd hbytes (bytes_ne_nil_of_lead? hlead)
    | cons c bytes =>
        simp only [startsWith, List.cons_append, dropStart?]
        split <;> rfl

/-- The leading character of lines is that of the first, if there is one. -/
theorem lead?_unlines {first : Text} {g : Glyph} (h : first.lead? = some g) (rest : List Text) :
    (unlines (first :: rest)).lead? = some g := by
  have hclean : CutsClean (Layout.below rest) := by
    cases rest with
    | nil => exact fun b r hnil => nomatch hnil
    | cons line rest => exact cutsClean_cons rfl _
  rw [lead?, Layout.unlines_cons, glyphs_append first hclean, List.dropWhile_append]
  rw [lead?] at h
  cases hkept : first.glyphs.dropWhile Glyph.isSpace with
  | nil =>
      rw [hkept] at h
      cases h
  | cons f kept =>
      rw [hkept] at h
      exact h

end Text

end PocketScript
