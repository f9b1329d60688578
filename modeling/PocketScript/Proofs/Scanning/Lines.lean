import PocketScript.Proofs.Layout.Trimming
import PocketScript.Proofs.Scanning.Position

/-!
# The line that a place is on

A report cuts its source into lines and picks one by number. The number comes
from a position, and a position was counted by the scanner, which never cut
anything. Here the two are brought together: the line that is picked is the one
that the place is on, and what of it stands in front of the place is as long as
the column says.

For the column this needs more than bytes. The scanner counted characters of the
whole source, and the report counts characters of one line. A place between two
characters of the source is also between two characters of its line, because a
line feed is a character by itself (`Text.Splits.line`).

A report also drops the carriage returns at the end of the line. They stand
behind every other character, so whatever is found at a column stays there
(`Text.runes_dropTrailingReturns`).

## Main definitions

* `Text.firstLine`: The bytes before the first line feed.
* `Text.Splits`: No character reaches across the place between two texts.

## Theorems

* `Text.getElem?_lines_count`: The line that a place is on.
* `Text.Splits.line`: The characters of that line.
* `Text.runes_dropTrailingReturns`: The same line as it is shown.
-/

namespace PocketScript

theorem Position.line_behind (t : Text) : (behind t).line = 1 + t.count Text.lineFeed := rfl

theorem Position.column_behind (t : Text) : (behind t).column = 1 + t.lastLine.runes.length := rfl

namespace Text

/-- The bytes of a text before its first line feed. -/
def firstLine (t : Text) : Text := t.takeWhile (· != lineFeed)

theorem lines_cons_lineFeed (t : Text) : lines (lineFeed :: t) = [] :: t.lines := by
  rw [lines, splitOn, if_pos rfl]
  rfl

theorem lines_append_lineFeed (above below : Text) :
    (above ++ lineFeed :: below).lines = above.lines ++ below.lines := by
  induction above with
  | nil => exact lines_cons_lineFeed below
  | cons b above ih =>
      by_cases hb : b = lineFeed
      · rw [hb, List.cons_append, lines_cons_lineFeed, lines_cons_lineFeed, ih]
        rfl
      · rcases Layout.lines_cases above with ⟨piece, more, hlines, _⟩
        rw [hlines, lines] at ih
        rw [lines] at hlines
        rw [List.cons_append, lines, lines, splitOn, splitOn, if_neg hb, if_neg hb, ih, hlines]
        rfl

/-- A text has one line more than line feeds. -/
theorem length_lines (t : Text) : t.lines.length = t.count lineFeed + 1 := by
  induction t with
  | nil => rfl
  | cons b t ih =>
      by_cases hb : b = lineFeed
      · rw [hb, lines_cons_lineFeed, List.length_cons, ih, List.count_cons_self]
      · rcases Layout.lines_cases t with ⟨piece, more, hlines, _⟩
        rw [hlines] at ih
        rw [lines] at hlines
        rw [lines, splitOn, if_neg hb, hlines, List.count_cons_of_ne hb]
        exact ih

theorem head?_lines (t : Text) : t.lines.head? = some t.firstLine := by
  induction t with
  | nil => rfl
  | cons b t ih =>
      by_cases hb : b = lineFeed
      · rw [hb, lines_cons_lineFeed, firstLine, List.takeWhile_cons]
        rfl
      · rcases Layout.lines_cases t with ⟨piece, more, hlines, _⟩
        rw [hlines, List.head?_cons, Option.some.injEq] at ih
        rw [lines] at hlines
        rw [lines, splitOn, if_neg hb, hlines, firstLine, List.takeWhile_cons,
          if_pos (bne_iff_ne.mpr hb), ih]
        rfl

/-- A text is its first line, or goes on with a line feed behind it. -/
theorem firstLine_cases (t : Text) :
    t.firstLine = t ∨ ∃ below, t = t.firstLine ++ lineFeed :: below := by
  have hsplit := List.takeWhile_append_dropWhile (p := (· != lineFeed)) (l := t)
  cases hrest : t.dropWhile (· != lineFeed) with
  | nil =>
      rw [hrest, List.append_nil] at hsplit
      exact Or.inl hsplit
  | cons b below =>
      have hhead := List.head?_dropWhile_not (· != lineFeed) t
      rw [hrest] at hhead hsplit
      have hb : b = lineFeed := by simpa using hhead
      rw [hb] at hsplit
      exact Or.inr ⟨below, hsplit.symm⟩

/-- The line that a place is on, by the number of line feeds in front of it. -/
theorem getElem?_lines_count (before rest : Text) :
    (before ++ rest).lines[before.count lineFeed]? = some (before.lastLine ++ rest.firstLine) := by
  have hnone := List.count_eq_zero_of_not_mem before.not_mem_lastLine
  have hfirst : (before.lastLine ++ rest).firstLine = before.lastLine ++ rest.firstLine := by
    refine List.takeWhile_append_of_pos fun b hb => bne_iff_ne.mpr ?_
    rintro rfl
    exact before.not_mem_lastLine hb
  rcases before.lastLine_cases with honly | ⟨above, habove⟩
  · rw [honly] at hnone hfirst
    rw [hnone, honly, ← List.head?_eq_getElem?, head?_lines, hfirst]
  · have hcount : before.count lineFeed = above.lines.length := by
      have hcounts := congrArg (List.count lineFeed) habove
      rw [List.count_append, List.count_cons_self, hnone] at hcounts
      rw [hcounts, length_lines]
    have hlines : (before ++ rest).lines = above.lines ++ (before.lastLine ++ rest).lines := by
      have hcut := congrArg (fun t => lines (t ++ rest)) habove
      rw [List.append_assoc, List.cons_append, lines_append_lineFeed] at hcut
      exact hcut
    rw [hlines, hcount, List.getElem?_append_right (Nat.le_refl _), Nat.sub_self,
      ← List.head?_eq_getElem?, head?_lines, hfirst]

/-- No character of the two texts in a row reaches across the place between
    them. -/
def Splits (before rest : Text) : Prop := (before ++ rest).glyphs = before.glyphs ++ rest.glyphs

theorem Whole.splits {t : Text} (h : t.Whole) (rest : Text) : t.Splits rest := h rest

/-- There is nothing behind the end. -/
theorem splits_nil (t : Text) : t.Splits [] := by
  rw [Splits, List.append_nil, glyphs_nil, List.append_nil]

/-- On the line that a place is on, no character reaches across it either. -/
theorem Splits.line {before rest : Text} (h : before.Splits rest) :
    before.lastLine.Splits rest.firstLine := by
  have hlast : before.lastLine.Splits rest := by
    rcases before.lastLine_cases with honly | ⟨above, habove⟩
    · rw [honly]
      exact h
    · have hglyphs : (above ++ lineFeed :: before.lastLine).Splits rest := habove ▸ h
      rw [Splits, List.append_assoc, List.cons_append, glyphs_append_lineFeed,
        glyphs_append_lineFeed, List.append_assoc, List.cons_append] at hglyphs
      exact (List.cons.inj (List.append_cancel_left hglyphs)).2
  rcases rest.firstLine_cases with honly | ⟨below, hbelow⟩
  · rw [honly]
    exact hlast
  · have hglyphs : before.lastLine.Splits (rest.firstLine ++ lineFeed :: below) := hbelow ▸ hlast
    rw [Splits, ← List.append_assoc, glyphs_append_lineFeed, glyphs_append_lineFeed,
      ← List.append_assoc] at hglyphs
    exact List.append_cancel_right hglyphs

theorem Splits.runes_line {before rest : Text} (h : before.Splits rest) :
    (before.lastLine ++ rest.firstLine).runes = before.lastLine.runes ++ rest.firstLine.runes := by
  rw [runes, h.line, List.map_append]
  rfl

theorem runes_append_lineFeed (above below : Text) :
    (above ++ lineFeed :: below).runes = above.runes ++ 10 :: below.runes := by
  rw [runes, glyphs_append_lineFeed, List.map_append, List.map_cons]
  rfl

/-- A text starts like its first line, if it does not start with a line feed. -/
theorem head?_runes_firstLine {t : Text} {c : Rune} (hc : t.runes.head? = some c) (hne : c ≠ 10) :
    t.firstLine.runes.head? = some c := by
  rcases t.firstLine_cases with honly | ⟨below, hbelow⟩
  · rw [honly]
    exact hc
  · rw [hbelow, runes_append_lineFeed] at hc
    cases hrunes : t.firstLine.runes with
    | nil =>
        rw [hrunes, List.nil_append, List.head?_cons, Option.some.injEq] at hc
        exact absurd hc.symm hne
    | cons d more =>
        rw [hrunes, List.cons_append, List.head?_cons] at hc
        rw [List.head?_cons]
        exact hc

theorem head?_runes_of_firstLine {t : Text} {c : Rune} (hc : t.firstLine.runes.head? = some c) :
    t.runes.head? = some c := by
  rcases t.firstLine_cases with honly | ⟨below, hbelow⟩
  · rwa [honly] at hc
  · rw [hbelow, runes_append_lineFeed, List.head?_append, hc]
    rfl

/-- Dropping the carriage returns at the end of a line drops that many
    characters. -/
theorem runes_dropTrailingReturns (t : Text) : ∃ n,
    t.runes = t.dropTrailingReturns.runes ++ List.replicate n 13 := by
  rcases Layout.dropTrailing_split carriageReturn t with ⟨tail, hsplit, htail⟩
  have hclean : CutsClean tail := by
    rintro b r rfl
    rw [htail b List.mem_cons_self]
    rfl
  have hlow : ∀ b ∈ tail, isHigh b = false := by
    intro b hb
    rw [htail b hb]
    rfl
  have hcodes : tail.runes = List.replicate tail.length 13 := by
    rw [runes, glyphs_of_low hlow, List.map_map, List.eq_replicate_iff]
    refine ⟨List.length_map _, ?_⟩
    intro c hc
    rcases List.mem_map.mp hc with ⟨b, hb, rfl⟩
    rw [htail b hb]
    rfl
  refine ⟨tail.length, ?_⟩
  rw [← hcodes, runes, runes, runes, ← List.map_append, dropTrailingReturns,
    ← glyphs_append _ hclean]
  exact congrArg (fun u => u.glyphs.map Glyph.code) hsplit

/-- Nothing in front of the last character that is no carriage return is
    dropped. -/
theorem dropTrailingReturns_of_append {t : Text} {left kept right : List Rune}
    (h : t.runes = left ++ kept ++ right) (hne : kept ≠ []) (hkept : 13 ∉ kept) :
    ∃ right' n, t.dropTrailingReturns.runes = left ++ kept ++ right' ∧
      right = right' ++ List.replicate n 13 := by
  rcases t.runes_dropTrailingReturns with ⟨n, hreturns⟩
  rw [h] at hreturns
  rcases List.append_eq_append_iff.mp hreturns with ⟨mid, hshown, hright⟩ | ⟨mid, hshown, hright⟩
  · exact ⟨mid, n, hshown, hright⟩
  · rcases List.eq_nil_or_concat mid with rfl | ⟨init, c, rfl⟩
    · rw [List.append_nil] at hshown
      exact ⟨[], n, by rw [← hshown, List.append_nil], hright.symm⟩
    · -- The last character that is kept is not among the carriage returns.
      rcases List.eq_nil_or_concat kept with hnil | ⟨front, d, rfl⟩
      · exact absurd hnil hne
      · rw [List.concat_eq_append] at hshown hright hkept
        have hlast := congrArg List.getLast? hshown
        simp only [← List.append_assoc, List.concat_eq_append, List.getLast?_concat,
          Option.some.injEq] at hlast
        have hmem : c ∈ List.replicate n 13 := by
          rw [hright]
          simp
        rw [hlast, List.eq_of_mem_replicate hmem] at hkept
        exact absurd (List.mem_append_right front (List.mem_singleton.mpr rfl)) hkept

end Text

end PocketScript
