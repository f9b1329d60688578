import Mathlib.Data.List.GetD
import Mathlib.Logic.Relation
import PocketScript.Proofs.Prompt.Inputs

/-!
# The screen stays consistent

The parts of the screen are kept in step by hand. The text in front of the field
says whether lines are held back, the lines held back are those that leave
something open, the walk through the history stays inside it, and nothing that
was echoed waits to be shown. All of this holds whatever happens, in whatever
order.

Most events leave these parts alone: `Screen.Undisturbed` says so once for all of
them, and only entering a line is looked at further. It holds the line back or
runs it, and either way it puts the parts back in step.

What the field does with keys of its own does not matter, as long as it keeps the
text in front. So `Screen.Moves` allows any other field with the same text there,
and any other time.

## Main definitions

* `Screen.Undisturbed`: Nothing has happened to the parts that are kept in step.
* `Screen.Consistent`: The parts are in step.
* `Screen.Moves`: What can happen to a screen.

## Theorems

* `History.previous_cases`, `History.next_cases`: What a step through the history
  shows.
* `Screen.update_cases`: What an event does to the parts.
* `Screen.Consistent.move`: The parts stay in step.
* `Screen.Moves.items_isPrefix`: The history only grows.
* `screen_stays_consistent`: All of this on every screen that can come about.
-/

namespace PocketScript

namespace Field

variable (f : Field)

@[simp] theorem prompt_scroll : f.scroll.prompt = f.prompt := by
  simp only [scroll]
  split_ifs <;> rfl

@[simp] theorem prompt_moveTo (n : Nat) : (f.moveTo n).prompt = f.prompt :=
  prompt_scroll _

@[simp] theorem prompt_replace (rs : List Rune) : (f.replace rs).prompt = f.prompt := by
  simp only [replace]
  split_ifs
  · exact prompt_moveTo _ _
  · exact prompt_scroll _

@[simp] theorem prompt_setValue (t : Text) : (f.setValue t).prompt = f.prompt :=
  prompt_replace f _

@[simp] theorem prompt_setEnding (t : Text) : (f.setEnding t).prompt = f.prompt := by
  rw [setEnding, prompt_moveTo, prompt_setValue]

@[simp] theorem prompt_insert (rs : List Rune) : (f.insert rs).prompt = f.prompt := by
  simp only [insert]
  split_ifs
  · exact prompt_scroll f
  · rw [prompt_scroll, prompt_replace]

@[simp] theorem prompt_backspace : f.backspace.prompt = f.prompt := by
  simp only [backspace]
  split_ifs
  · exact prompt_scroll f
  · rw [prompt_moveTo]

end Field

namespace History

/-- The history is at one of its entries, or past the newest. -/
def InRange (h : History) : Prop := h.pos ≤ h.items.length

variable {h : History}

/-- Going back shows the entry before, if there is one. -/
theorem previous_cases (hrange : h.InRange) :
    (h.pos = 0 ∧ h.previous = (none, h)) ∨
      ∃ i item, h.pos = i + 1 ∧ h.items[i]? = some item ∧
        h.previous = (some item, { h with pos := i }) := by
  rw [InRange] at hrange
  rw [previous]
  by_cases hstart : h.pos = 0
  · exact Or.inl ⟨hstart, if_pos hstart⟩
  · have hlt : h.pos - 1 < h.items.length := by omega
    refine Or.inr ⟨h.pos - 1, h.items[h.pos - 1], by omega, List.getElem?_eq_getElem hlt, ?_⟩
    rw [if_neg hstart, List.getD_eq_getElem _ _ hlt]

/-- Going forward shows the entry after, and an empty line after the newest. -/
theorem next_cases (hrange : h.InRange) :
    (h.pos = h.items.length ∧ h.next = (none, h)) ∨
      (h.pos + 1 = h.items.length ∧ h.next = (some [], { h with pos := h.items.length })) ∨
      ∃ item, h.items[h.pos + 1]? = some item ∧
        h.next = (some item, { h with pos := h.pos + 1 }) := by
  rw [InRange] at hrange
  rw [next]
  by_cases hend : h.items.length ≤ h.pos
  · exact Or.inl ⟨by omega, if_pos hend⟩
  · rw [if_neg hend]
    by_cases hnewest : h.pos + 1 = h.items.length
    · refine Or.inr (Or.inl ⟨hnewest, ?_⟩)
      rw [hnewest, List.getD_eq_default _ _ (Nat.le_refl _)]
    · have hlt : h.pos + 1 < h.items.length := by omega
      refine Or.inr (Or.inr ⟨h.items[h.pos + 1], List.getElem?_eq_getElem hlt, ?_⟩)
      rw [List.getD_eq_getElem _ _ hlt]

@[simp] theorem items_previous (h : History) : h.previous.2.items = h.items := by
  rw [previous]
  split_ifs <;> rfl

@[simp] theorem items_next (h : History) : h.next.2.items = h.items := by
  rw [next]
  split_ifs <;> rfl

theorem InRange.previous (hrange : h.InRange) : h.previous.2.InRange := by
  rcases previous_cases hrange with ⟨_, heq⟩ | ⟨i, _, hpos, _, heq⟩
  · rw [heq]
    exact hrange
  · rw [heq]
    rw [InRange, hpos] at hrange
    exact Nat.le_of_succ_le hrange

theorem InRange.next (hrange : h.InRange) : h.next.2.InRange := by
  rcases next_cases hrange with ⟨_, heq⟩ | ⟨_, heq⟩ | ⟨item, hitem, heq⟩
  · rw [heq]
    exact hrange
  · rw [heq]
    exact Nat.le_refl _
  · rw [heq]
    exact Nat.le_of_lt (List.getElem?_eq_some_iff.mp hitem).1

theorem inRange_add (item : Text) (h : History) : (h.add item).InRange := by
  simp only [InRange, add, List.length_append, List.length_singleton, Nat.le_refl]

end History

namespace Screen

theorem field_command (input : Text) (s : Screen) : (s.command input).field = s.field := by
  simp only [command]
  split <;> rfl

/-- Nothing has happened to the parts of a screen that are kept in step, but that
    the walk through the history may have gone on and what was echoed may be
    forgotten. -/
structure Undisturbed (s t : Screen) : Prop where
  settings : t.settings = s.settings
  prompt : t.field.prompt = s.field.prompt
  pending : t.pending = s.pending
  items : t.inputs.items = s.inputs.items
  range : s.inputs.InRange → t.inputs.InRange
  shown : s.session.output = [] → t.session.output = []

namespace Undisturbed

variable {s : Screen}

theorem refl (s : Screen) : s.Undisturbed s := ⟨rfl, rfl, rfl, rfl, id, id⟩

theorem trans {t u : Screen} (h : s.Undisturbed t) (h' : t.Undisturbed u) : s.Undisturbed u :=
  ⟨h'.settings.trans h.settings, h'.prompt.trans h.prompt, h'.pending.trans h.pending,
    h'.items.trans h.items, h'.range ∘ h.range, h'.shown ∘ h.shown⟩

theorem edit {f : Field} (h : f.prompt = s.field.prompt) : s.Undisturbed { s with field := f } :=
  ⟨rfl, h, rfl, rfl, id, id⟩

theorem record (e : Entry) : s.Undisturbed (s.record e) := ⟨rfl, rfl, rfl, rfl, id, id⟩

theorem command (input : Text) : s.Undisturbed (s.command input) := by
  simp only [Screen.command]
  -- Only a reset touches the session, and a fresh one has echoed nothing.
  split
  case h_4 => exact ⟨rfl, rfl, rfl, rfl, id, fun _ => rfl⟩
  all_goals exact ⟨rfl, rfl, rfl, rfl, id, id⟩

theorem complete : s.Undisturbed s.complete := by
  simp only [Screen.complete]
  split_ifs
  · exact refl s
  · split
    · exact refl s
    · exact edit (Field.prompt_setEnding _ _)
    · exact record _

theorem showInput {step : Option Text × History} (hitems : step.2.items = s.inputs.items)
    (hrange : s.inputs.InRange → step.2.InRange) : s.Undisturbed (s.showInput step) := by
  rcases step with ⟨_ | item, h⟩
  · exact ⟨rfl, rfl, rfl, hitems, hrange, id⟩
  · exact ⟨rfl, Field.prompt_setEnding _ _, rfl, hitems, hrange, id⟩

end Undisturbed

/-- A line was entered and is held back. -/
structure HeldBack (s t : Screen) : Prop where
  settings : t.settings = s.settings
  prompt : t.field.prompt = s.settings.continuation
  pending : t.pending ≠ []
  unfinished : isUnfinished (Text.unlines t.pending) = true
  inputs : t.inputs = s.inputs
  session : t.session = s.session

/-- A line was entered and run, with those that were held back. -/
structure RunAll (s t : Screen) : Prop where
  settings : t.settings = s.settings
  prompt : t.field.prompt = s.settings.prompt
  pending : t.pending = []
  inputs : ∃ item, t.inputs = s.inputs.add item
  shown : t.session.output = []

theorem isUnfinished_of_hold {s : Screen} (h : s.turn = .hold) :
    isUnfinished (Text.unlines (s.pending ++ [s.field.text])) = true := by
  rw [turn] at h
  by_contra hclosed
  simp only [hclosed, if_false] at h
  split_ifs at h

/-- What a line does that is entered. -/
theorem submit_cases (s : Screen) :
    s.Undisturbed s.submit ∨ s.HeldBack s.submit ∨ s.RunAll s.submit := by
  have hcleared : s.Undisturbed (s.typed []) := .edit (Field.prompt_setValue _ _)
  rw [submit_eq]
  cases hturn : s.turn with
  | ignore => exact Or.inl hcleared
  | command name => exact Or.inl (hcleared.trans (.command name))
  | hold =>
      exact Or.inr (Or.inl ⟨rfl, rfl, List.append_ne_nil_of_right_ne_nil _ (List.cons_ne_nil _ _),
        isUnfinished_of_hold hturn, rfl, rfl⟩)
  | run input => exact Or.inr (Or.inr ⟨rfl, rfl, rfl, ⟨_, rfl⟩, rfl⟩)

/-- Nothing but entering a line disturbs a screen. -/
theorem undisturbed_update {e : Event} (he : e ≠ .pressed .enter) (s : Screen) :
    s.Undisturbed (s.update e) := by
  cases e with
  | resized w h => exact ⟨rfl, rfl, rfl, rfl, id, id⟩
  | typed r => exact .edit (Field.prompt_insert _ _)
  | pressed k =>
      cases k with
      | enter => exact absurd rfl he
      | tab => exact .complete
      | up => exact .showInput (History.items_previous _) History.InRange.previous
      | down => exact .showInput (History.items_next _) History.InRange.next
      | left | right | home | finish => exact .edit (Field.prompt_moveTo _ _)
      | backspace => exact .edit (Field.prompt_backspace _)
      | _ => exact ⟨rfl, rfl, rfl, rfl, id, id⟩

/-- What an event does to the parts of a screen that are kept in step. -/
theorem update_cases (e : Event) (s : Screen) :
    s.Undisturbed (s.update e) ∨ s.HeldBack (s.update e) ∨ s.RunAll (s.update e) := by
  by_cases he : e = .pressed .enter
  · rw [he]
    exact submit_cases s
  · exact Or.inl (undisturbed_update he s)

/-- The parts of a screen are in step. -/
structure Consistent (chosen : Settings) (s : Screen) : Prop where
  settings : s.settings = chosen
  prompt : s.field.prompt = if s.pending = [] then chosen.prompt else chosen.continuation
  unfinished : s.pending ≠ [] → isUnfinished (Text.unlines s.pending) = true
  range : s.inputs.InRange
  shown : s.session.output = []

namespace Consistent

variable {settings : Settings} {s t : Screen}

theorem start (settings : Settings) : (Screen.start settings).Consistent settings :=
  ⟨rfl, rfl, fun h => absurd rfl h, Nat.le_refl 0, rfl⟩

theorem undisturbed (hs : s.Consistent settings) (h : s.Undisturbed t) :
    t.Consistent settings := by
  refine ⟨h.settings.trans hs.settings, ?_, ?_, h.range hs.range, h.shown hs.shown⟩
  · rw [h.prompt, h.pending, hs.prompt]
  · rw [h.pending]
    exact hs.unfinished

theorem heldBack (hs : s.Consistent settings) (h : s.HeldBack t) : t.Consistent settings := by
  refine ⟨h.settings.trans hs.settings, ?_, fun _ => h.unfinished, ?_, ?_⟩
  · rw [h.prompt, hs.settings, if_neg h.pending]
  · rw [h.inputs]
    exact hs.range
  · rw [h.session]
    exact hs.shown

theorem runAll (hs : s.Consistent settings) (h : s.RunAll t) : t.Consistent settings := by
  refine ⟨h.settings.trans hs.settings, ?_, fun hne => absurd h.pending hne, ?_, h.shown⟩
  · rw [h.prompt, hs.settings, if_pos h.pending]
  · rcases h.inputs with ⟨item, hinputs⟩
    rw [hinputs]
    exact History.inRange_add item s.inputs

end Consistent

/-- What can happen to a screen: an event, an edit of the field by keys of its own,
    which keeps the text in front, and the passing of time. -/
inductive Moves (s : Screen) : Screen → Prop where
  | event (e : Event) : Moves s (s.update e)
  | edit (f : Field) (h : f.prompt = s.field.prompt) : Moves s { s with field := f }
  | time (clock : Clock) : Moves s { s with session := { s.session with clock := clock } }

theorem Moves.cases {s t : Screen} (h : s.Moves t) :
    s.Undisturbed t ∨ s.HeldBack t ∨ s.RunAll t := by
  cases h with
  | event e => exact update_cases e s
  | edit f h => exact Or.inl (.edit h)
  | time clock => exact Or.inl ⟨rfl, rfl, rfl, rfl, id, id⟩

theorem Consistent.move {settings : Settings} {s t : Screen} (hs : s.Consistent settings)
    (h : s.Moves t) : t.Consistent settings := by
  rcases h.cases with h | h | h
  · exact hs.undisturbed h
  · exact hs.heldBack h
  · exact hs.runAll h

theorem Moves.items_isPrefix {s t : Screen} (h : s.Moves t) :
    s.inputs.items <+: t.inputs.items := by
  rcases h.cases with h | h | h
  · exact h.items ▸ List.prefix_refl _
  · exact h.inputs ▸ List.prefix_refl _
  · rcases h.inputs with ⟨item, hinputs⟩
    rw [hinputs]
    exact List.prefix_append _ _

/-- A screen that can come about from another one. -/
abbrev Reaches : Screen → Screen → Prop := Relation.ReflTransGen Moves

theorem Reaches.consistent {settings : Settings} {s : Screen}
    (h : (Screen.start settings).Reaches s) : s.Consistent settings := by
  induction h with
  | refl => exact .start settings
  | tail _ hmove ih => exact ih.move hmove

theorem Reaches.items_isPrefix {s t : Screen} (h : s.Reaches t) :
    s.inputs.items <+: t.inputs.items := by
  induction h with
  | refl => exact List.prefix_refl _
  | tail _ hmove ih => exact ih.trans hmove.items_isPrefix

theorem reaches_events (events : List Event) (s : Screen) :
    s.Reaches (events.foldl (fun s e => s.update e) s) := by
  induction events generalizing s with
  | nil => exact .refl
  | cons e rest ih => exact .head (.event e) (ih (s.update e))

end Screen

/-- **The screen stays consistent.** Let a screen `s` come about under some settings,
    by events, edits of the field and the passing of time in any order. The text in
    front of its field is the one for a new input if no lines are held back, and the
    other one if there are some; those leave something open. Its history is at one of
    the entries or past the newest, so going back and forth shows entries that are
    there. Nothing that was echoed waits to be shown. And all that comes about later
    keeps the entries of the history as they are. -/
theorem screen_stays_consistent (settings : Settings) {s t : Screen}
    (hs : (Screen.start settings).Reaches s) (ht : s.Reaches t) :
    s.field.prompt = (if s.pending = [] then settings.prompt else settings.continuation) ∧
      (s.pending ≠ [] → isUnfinished (Text.unlines s.pending) = true) ∧
      s.inputs.pos ≤ s.inputs.items.length ∧
      ((s.inputs.pos = 0 ∧ s.inputs.previous = (none, s.inputs)) ∨
        ∃ i item, s.inputs.pos = i + 1 ∧ s.inputs.items[i]? = some item ∧
          s.inputs.previous = (some item, { s.inputs with pos := i })) ∧
      ((s.inputs.pos = s.inputs.items.length ∧ s.inputs.next = (none, s.inputs)) ∨
        (s.inputs.pos + 1 = s.inputs.items.length ∧
          s.inputs.next = (some [], { s.inputs with pos := s.inputs.items.length })) ∨
        ∃ item, s.inputs.items[s.inputs.pos + 1]? = some item ∧
          s.inputs.next = (some item, { s.inputs with pos := s.inputs.pos + 1 })) ∧
      s.session.output = [] ∧
      s.inputs.items <+: t.inputs.items := by
  have h := hs.consistent
  exact ⟨h.prompt, h.unfinished, h.range, History.previous_cases h.range,
    History.next_cases h.range, h.shown, ht.items_isPrefix⟩

/-- Typing `1;`, entering it, and then entering `(`. -/
def bracketEvents : List Event :=
  [.typed 49, .typed 59, .pressed .enter, .typed 40, .pressed .enter]

/-- The screen after that, and after going back in its history. -/
theorem bracketEvents_stay_consistent :
    let s := bracketEvents.foldl (fun s e => s.update e) (Screen.start {})
    let t := s.update (.pressed .up)
    s.pending = [[40]] ∧ s.inputs.items = [[49, 59]] ∧
      s.field.prompt = utf8 ".. " ∧ isUnfinished (Text.unlines s.pending) = true ∧
      s.inputs.pos ≤ s.inputs.items.length ∧ s.session.output = [] ∧
      s.inputs.items <+: t.inputs.items := by
  intro s t
  have hpending : s.pending = [[40]] := by decide +kernel
  have hitems : s.inputs.items = [[49, 59]] := by decide +kernel
  have hne : s.pending ≠ [] := by
    rw [hpending]
    exact List.cons_ne_nil _ _
  rcases screen_stays_consistent {} (Screen.reaches_events bracketEvents _)
    (.single (.event (.pressed .up))) with ⟨hprompt, hopen, hpos, _, _, hshown, hgrows⟩
  exact ⟨hpending, hitems, hprompt.trans (if_neg hne), hopen hne, hpos, hshown, hgrows⟩

end PocketScript
