import Mathlib.Data.List.DropRight
import PocketScript.Prompt.Screen
import PocketScript.Proofs.Scanning.Lines

/-!
# What is shown of the transcript

The picture has room for so many lines of the transcript, and the newest are shown.

They are collected backwards, an entry with all of its lines at a time, and only until
there are enough. The entry that was collected last can be cut through, and those before
it are never looked at. Neither shows: what is left in the end is the end of the whole
transcript. For this it does not matter how long the transcript is or how many lines an
entry has. What has been collected is always an end of the transcript, and as long as
something is cut off or left out, it is at least as long as the room there is.

That lines are shown, and not just texts one below the other, takes that no line of an
entry contains a line feed. They were cut out of texts at the line feeds, and what is
done to them afterwards puts none in.

## Theorems

* `Text.lines_unlines_append`: Texts without line feeds are the lines of what they are
  glued together to.
* `Styled.lineFeed_not_mem_render`: A line stays a line when it is shown.
* `Screen.rtake_collect`: Collecting backwards comes to an end of everything.
* `view_shows_newest_lines`: Which lines of the transcript are in the picture.
-/

namespace PocketScript

namespace Text

theorem lines_of_not_mem {t : Text} (h : lineFeed ∉ t) : t.lines = [t] := by
  induction t with
  | nil => rfl
  | cons b t ih =>
      have hrest := ih fun hmem => h (List.mem_cons_of_mem b hmem)
      have hb : b ≠ lineFeed := fun heq => h (heq ▸ List.mem_cons_self)
      rw [lines] at hrest
      rw [lines, splitOn, if_neg hb, hrest]

/-- A line of a text contains no line feed. -/
theorem lineFeed_not_mem_of_mem_lines {t line : Text} (h : line ∈ t.lines) : lineFeed ∉ line := by
  induction t generalizing line with
  | nil =>
      obtain rfl : line = [] := List.mem_singleton.mp h
      exact List.not_mem_nil
  | cons b t ih =>
      by_cases hb : b = lineFeed
      · rw [hb, lines_cons_lineFeed] at h
        rcases List.mem_cons.mp h with rfl | hmem
        · exact List.not_mem_nil
        · exact ih hmem
      · rcases Layout.lines_cases t with ⟨piece, more, hlines, _⟩
        rw [hlines] at ih
        rw [lines] at hlines
        rw [lines, splitOn, if_neg hb, hlines] at h
        rcases List.mem_cons.mp h with rfl | hmem
        · exact List.not_mem_cons_of_ne_of_not_mem (Ne.symm hb) (ih List.mem_cons_self)
        · exact ih (List.mem_cons_of_mem piece hmem)

/-- Texts without line feeds that are glued together in front of something are lines of
    what comes of it. -/
theorem lines_unlines_append {above : List Text} (h : ∀ line ∈ above, lineFeed ∉ line)
    {below : List Text} (hne : below ≠ []) :
    (unlines (above ++ below)).lines = above ++ (unlines below).lines := by
  induction above with
  | nil => rfl
  | cons line above ih =>
      rw [List.forall_mem_cons] at h
      have hrest : above ++ below ≠ [] := List.append_ne_nil_of_right_ne_nil above hne
      have hjoin : unlines (line :: (above ++ below)) =
          line ++ lineFeed :: unlines (above ++ below) := by
        rw [unlines, join, List.append_assoc]
        · rfl
        · exact hrest
      rw [List.cons_append, hjoin, lines_append_lineFeed, lines_of_not_mem h.1, ih h.2]
      rfl

end Text

namespace Styled

theorem plainLineEnds_subset (t : Text) : plainLineEnds t ⊆ t := by
  fun_induction plainLineEnds t with
  | case1 => exact List.Subset.refl _
  | case2 b => exact List.Subset.refl _
  | case3 a b rest _ ih => exact List.subset_cons_of_subset a ih
  | case4 a b rest _ ih => exact List.cons_subset_cons a ih

/-- A line stays a line when it is shown. -/
theorem lineFeed_not_mem_render {t : Text} (h : Text.lineFeed ∉ t) :
    Text.lineFeed ∉ render t := by
  have hplain : Text.lineFeed ∉ plainLineEnds (expandTabs t) := by
    intro hmem
    rcases List.mem_flatMap.mp (plainLineEnds_subset _ hmem) with ⟨b, hb, hexpanded⟩
    split at hexpanded
    · exact absurd (List.eq_of_mem_replicate hexpanded) (by decide)
    · exact h (List.mem_singleton.mp hexpanded ▸ hb)
  rw [render, Text.lines_of_not_mem hplain, rectangle, List.map_singleton, Text.unlines, Text.join,
    fill, List.mem_append]
  rintro (hmem | hmem)
  · exact hplain hmem
  · exact absurd (List.eq_of_mem_replicate hmem) (by decide)

end Styled

namespace Screen

/-- The lines of an entry are lines. -/
theorem lineFeed_not_mem_entryLines {e : Entry} {line : Text} (h : line ∈ entryLines e) :
    Text.lineFeed ∉ line := by
  have hmarked : ∀ (marker rest : Text), Text.lineFeed ∉ marker → Text.lineFeed ∉ rest →
      Text.lineFeed ∉ marker ++ rest := by
    intro marker rest hmarker hrest hmem
    exact (List.mem_append.mp hmem).elim hmarker hrest
  rcases List.mem_append.mp h with hinput | houtput
  · rw [inputLines] at hinput
    split at hinput
    · cases hinput
    · cases hlines : e.input.lines with
      | nil =>
          rw [hlines] at hinput
          cases hinput
      | cons first more =>
          have hline : ∀ l ∈ first :: more, Text.lineFeed ∉ l := fun l hl =>
            Text.lineFeed_not_mem_of_mem_lines (hlines ▸ hl)
          rw [List.forall_mem_cons] at hline
          rw [hlines] at hinput
          rcases List.mem_cons.mp hinput with rfl | hmem
          · exact hmarked _ _ (by decide) hline.1
          · rcases List.mem_map.mp hmem with ⟨l, hl, rfl⟩
            exact hmarked _ _ (by decide) (hline.2 l hl)
  · rcases List.mem_map.mp houtput with ⟨l, hl, rfl⟩
    exact hmarked _ _ (by decide)
      (Styled.lineFeed_not_mem_render (Text.lineFeed_not_mem_of_mem_lines hl))

theorem lineFeed_not_mem_ruler (s : Screen) : Text.lineFeed ∉ s.ruler := by
  rw [ruler, Text.times, List.mem_flatten]
  rintro ⟨bar, hbar, hmem⟩
  rw [List.eq_of_mem_replicate hbar] at hmem
  exact absurd hmem (by decide)

/-- What stands in front of enough lines does not show. -/
theorem rtake_append_of_le {older newer : List Text} {n : Nat} (h : n ≤ newer.length) :
    (older ++ newer).rtake n = newer.rtake n := by
  rw [List.rtake_eq_reverse_take_reverse, List.rtake_eq_reverse_take_reverse, List.reverse_append,
    List.take_append_of_le_length (by rwa [List.length_reverse])]

/-- Collecting backwards until there are enough lines and cutting is cutting all there
    are. The induction is on the entries that are left, for any lines collected so far. -/
theorem rtake_collect (budget : Nat) (older : List Entry) (lines : List Text) :
    (collect budget lines older).rtake budget =
      (older.reverse.flatMap entryLines ++ lines).rtake budget := by
  induction older generalizing lines with
  | nil => rfl
  | cons e older ih =>
      rw [collect]
      split
      · rw [ih, List.reverse_cons, List.flatMap_append, List.flatMap_singleton, List.append_assoc]
      · rename_i henough
        rw [rtake_append_of_le (Nat.not_lt.mp henough)]

/-- The pane is the end of all lines of the transcript. -/
theorem pane_eq_rtake (budget : Nat) (transcript : List Entry) :
    pane budget transcript = (transcript.flatMap entryLines).rtake budget := by
  have hcollect := rtake_collect budget transcript.reverse []
  rw [List.reverse_reverse, List.append_nil] at hcollect
  exact hcollect

theorem budget_eq (s : Screen) :
    (s.budget : Int) = max (s.height - 4 - Styled.height s.side) 1 := by
  rw [budget]
  omega

end Screen

/-- The picture of a screen whose window is known, from which nobody has quit. Below the
    title and a ruler stand the newest lines of the transcript, in order, as many as there
    are but no more than there is room for beside four other lines and the panels; there
    is room for one at least. Below them stand the panels, the field and the help. -/
theorem view_shows_newest_lines {s : Screen} (hready : s.ready = true)
    (hopen : s.quitting = false) :
    ∃ shown : List Text,
      s.view.lines = [utf8 "chonk 0.1.0", s.ruler] ++ shown ++
        (Text.unlines ((if s.side.isEmpty then [] else [s.side]) ++
          [s.field.view, Screen.footer])).lines ∧
      shown <:+ s.transcript.flatMap Screen.entryLines ∧
      shown.length = min s.budget (s.transcript.flatMap Screen.entryLines).length ∧
      (s.budget : Int) = max (s.height - 4 - Styled.height s.side) 1 := by
  have hall : ∀ line ∈ s.transcript.flatMap Screen.entryLines, Text.lineFeed ∉ line := by
    intro line hline
    rcases List.mem_flatMap.mp hline with ⟨e, _, he⟩
    exact Screen.lineFeed_not_mem_entryLines he
  have hshown : Screen.pane s.budget s.transcript <:+ s.transcript.flatMap Screen.entryLines := by
    rw [Screen.pane_eq_rtake]
    exact List.drop_suffix _ _
  refine ⟨Screen.pane s.budget s.transcript, ?_, hshown, ?_, s.budget_eq⟩
  · have habove : ∀ line ∈ [utf8 "chonk 0.1.0", s.ruler] ++ Screen.pane s.budget s.transcript,
        Text.lineFeed ∉ line := by
      simp only [List.cons_append, List.nil_append, List.forall_mem_cons]
      exact ⟨by decide, s.lineFeed_not_mem_ruler, fun line hline => hall line (hshown.subset hline)⟩
    rw [Screen.view, hopen, hready, ← Text.lines_unlines_append habove
      (List.append_ne_nil_of_right_ne_nil _ (List.cons_ne_nil _ _)), ← List.append_assoc]
    rfl
  · rw [Screen.pane_eq_rtake, List.rtake, List.length_drop]
    omega

/-- A window with room for three lines of the transcript, and two entries that have five. -/
def crowdedScreen : Screen :=
  { Screen.start {} with
    height := 8
    ready := true
    transcript := [{ input := "a\nb", output := "1" }, { input := "c", output := "2" }] }

/-- Only the last line is shown of the older entry. -/
theorem crowdedScreen_shows_last_three :
    (crowdedScreen.ready = true ∧ crowdedScreen.quitting = false) ∧
    ∃ more, crowdedScreen.view.lines = [utf8 "chonk 0.1.0", crowdedScreen.ruler] ++
      [utf8 "  1", utf8 "› c", utf8 "  2"] ++ more := by
  rcases view_shows_newest_lines (s := crowdedScreen) rfl rfl with ⟨shown, hview, hend, hlength, -⟩
  have hall : crowdedScreen.transcript.flatMap Screen.entryLines =
      [utf8 "› a", utf8 "  b", utf8 "  1", utf8 "› c", utf8 "  2"] := by
    decide
  have hbudget : crowdedScreen.budget = 3 := by decide
  rw [hall, hbudget] at hlength
  rw [hall, List.suffix_iff_eq_drop, hlength] at hend
  rw [hend] at hview
  exact ⟨⟨rfl, rfl⟩, _, hview⟩

end PocketScript
