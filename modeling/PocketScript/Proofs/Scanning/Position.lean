import Mathlib.Data.List.DropRight
import PocketScript.Proofs.Scanning.Gaps
import PocketScript.Proofs.Text.Whole

/-!
# Positions from the text before them

The scanner keeps its position by walking over characters one at a time. What
the position says can be read off the bytes in front of it without any walk:
the line is one more than the line feeds among them, and the column is one more
than the characters after the last line feed.

Counting line feeds as bytes and counting characters as the reader makes them
do not get in each other's way. A line feed is a character by itself wherever
it stands, so a text can be cut at each of them, and the characters of its last
line are the ones the reader makes when it reads the whole text
(`Position.start_afterAll`).

## Main definitions

* `Text.lastLine`: The bytes after the last line feed.
* `Position.behind`: The position behind a text.

## Theorems

* `Text.lastLine_cases`: A text is its last line, or ends with it after a line
  feed.
* `Position.start_afterAll`: Walking over a text leads to the position behind
  it.
* `Position.behind_append`: Walking on over what follows.
-/

namespace PocketScript

/-- The bytes of a text after its last line feed. -/
def Text.lastLine (t : Text) : Text := t.rtakeWhile (· != Text.lineFeed)

/-- The position of what stands right behind a text. -/
def Position.behind (t : Text) : Position :=
  ⟨1 + t.count Text.lineFeed, 1 + t.lastLine.runes.length⟩

theorem Text.not_mem_lastLine (t : Text) : Text.lineFeed ∉ t.lastLine := by
  intro hmem
  have hne := List.mem_rtakeWhile_imp hmem
  simp at hne

/-- A text is one line, or its last line stands after a line feed. -/
theorem Text.lastLine_cases (t : Text) :
    t.lastLine = t ∨ ∃ above, t = above ++ Text.lineFeed :: t.lastLine := by
  have hsplit : t.rdropWhile (· != Text.lineFeed) ++ t.lastLine = t :=
    List.rdropWhile_append_rtakeWhile
  by_cases hnil : t.rdropWhile (· != Text.lineFeed) = []
  · rw [hnil] at hsplit
    exact Or.inl hsplit
  · right
    have hlast := List.rdropWhile_last_not (· != Text.lineFeed) t hnil
    have hconcat := List.dropLast_append_getLast hnil
    refine ⟨(t.rdropWhile (· != Text.lineFeed)).dropLast, ?_⟩
    have hfeed : (t.rdropWhile (· != Text.lineFeed)).getLast hnil = Text.lineFeed := by
      simpa using hlast
    rw [hfeed] at hconcat
    rw [← List.singleton_append, ← List.append_assoc, hconcat, hsplit]

/-- No character of a line is a line feed. -/
theorem Text.code_ne_of_mem_line {t : Text} (ht : Text.lineFeed ∉ t) {g : Glyph}
    (hg : g ∈ t.glyphs) : g.code ≠ 10 := by
  intro hcode
  rcases Text.proper_of_mem_glyphs hg with ⟨b, _, rfl⟩ | ⟨hhigh, _⟩
  · have hb : b = Text.lineFeed := UInt8.toNat_inj.mp hcode
    have hmem : b ∈ Text.ofGlyphs t.glyphs :=
      List.mem_flatMap.mpr ⟨_, hg, List.mem_singleton_self b⟩
    rw [Text.glyphs_spell, hb] at hmem
    exact ht hmem
  · rw [hcode] at hhigh
    exact absurd hhigh (by decide)

/-- A text with a line feed in it is read line by line. -/
theorem Text.glyphs_append_lineFeed (above below : Text) :
    (above ++ Text.lineFeed :: below).glyphs =
      above.glyphs ++ ⟨10, [Text.lineFeed]⟩ :: below.glyphs := by
  rw [Text.glyphs_append above (Text.cutsClean_cons (by decide) below),
    Text.glyphs_cons_low (by decide)]
  rfl

namespace Position

/-- Within a line every character takes a column. -/
theorem afterAll_line (gs : List Glyph) : ∀ p : Position, (∀ g ∈ gs, g.code ≠ 10) →
    p.afterAll gs = ⟨p.line, p.column + gs.length⟩ := by
  induction gs with
  | nil => intro p _; simp [afterAll]
  | cons g gs ih =>
      intro p h
      have hafter : p.after g = ⟨p.line, p.column + 1⟩ := by
        rw [after, if_neg (h g List.mem_cons_self)]
      have hrest := ih (p.after g) fun c hc => h c (List.mem_cons_of_mem g hc)
      rw [hafter] at hrest
      rw [afterAll, List.foldl_cons, hafter, ← afterAll, hrest, List.length_cons]
      simp only [mk.injEq, true_and]
      omega

/-- Walking over a text from its start leads to the position behind it. The
    induction is on the number of bytes, one line at a time from the back. -/
theorem start_afterAll (t : Text) : start.afterAll t.glyphs = behind t := by
  induction hn : t.length using Nat.strong_induction_on generalizing t with
  | _ n ih =>
    have hline : ∀ p : Position, p.afterAll t.lastLine.glyphs =
        ⟨p.line, p.column + t.lastLine.runes.length⟩ := by
      intro p
      rw [afterAll_line _ p fun g hg => Text.code_ne_of_mem_line t.not_mem_lastLine hg,
        Text.runes, List.length_map]
    have hnone := List.count_eq_zero_of_not_mem t.not_mem_lastLine
    rcases t.lastLine_cases with honly | ⟨above, habove⟩
    · have hend := hline start
      rw [honly] at hend hnone
      rw [hend, behind, honly, hnone]
      rfl
    · have hshorter := congrArg List.length habove
      rw [List.length_append, List.length_cons] at hshorter
      have hup := ih above.length (by omega) above rfl
      have hcount : t.count Text.lineFeed = above.count Text.lineFeed + 1 := by
        have hcounts := congrArg (List.count Text.lineFeed) habove
        rw [List.count_append, List.count_cons_self, hnone] at hcounts
        exact hcounts
      have hglyphs : t.glyphs = above.glyphs ++ ⟨10, [Text.lineFeed]⟩ :: t.lastLine.glyphs := by
        have hread := congrArg Text.glyphs habove
        rw [Text.glyphs_append_lineFeed] at hread
        exact hread
      have hfeed : ∀ p : Position, p.after ⟨10, [Text.lineFeed]⟩ = ⟨p.line + 1, 1⟩ :=
        fun p => if_pos rfl
      rw [hglyphs, afterAll_append, hup, afterAll, List.foldl_cons, hfeed, ← afterAll, hline,
        behind, behind, hcount]
      simp only [mk.injEq, and_true]
      omega

/-- Walking on over what follows a whole text. -/
theorem behind_append {t : Text} (ht : t.Whole) (u : Text) :
    behind (t ++ u) = (behind t).afterAll u.glyphs := by
  rw [← start_afterAll, ht, afterAll_append, start_afterAll]

end Position

end PocketScript
