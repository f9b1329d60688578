import PocketScript.Proofs.Prompt.Consistent
import PocketScript.Proofs.Scanning.Flattened
import PocketScript.Proofs.Text.Encoding

/-!
# What the history gives back

Both prompts keep an input in their history with blanks for its line feeds, so
that it can be shown again on one line. What does such an entry stand for when it
is entered again?

An input of several lines was collected because every line but the last left
something open. If no comment stands in front of one of its tokens, the entry has
the same tokens, but for line feeds in strings, and is run like the input. If one
does, the entry has only the tokens in front of the comment. These are the tokens
of the lines up to there, which left something open. So the entry does too, and it
is held back instead of being run.

That every line but the last left something open is nothing that an input shows.
It is an invariant of the prompts (`LinePrompt.Gathers`, `Screen.Gathers`), which
needs that no line has a line feed in it. The line prompt is given such lines. On
the screen the field sees to it, whatever is typed or recalled.

## Main definitions

* `Collected`, `Runnable`: What is known of an input that a prompt runs.
* `LinePrompt.entries`: What the line prompt stores.
* `Field.OnOneLine`: A field without line feeds.
* `Screen.ran`: The inputs that events make a screen run.
* `LinePrompt.Gathers`, `Screen.Gathers`: The lines held back are collected.

## Theorems

* `Runnable.scan_flattened`: What an input scans to on one line, and when it then
  leaves something open.
* `LinePrompt.Gathers.feed`, `Screen.Gathers.update`: What a step keeps.
* `LinePrompt.runs_recorded`, `Screen.ran_recorded`: What is run is stored.
* `recalled_entry_is_kept_up_to_comment`: What a stored entry stands for.
-/

namespace PocketScript

/-! ### Inputs put together from lines -/

/-- Above every line feed of the text something was left open. -/
def Collected (t : Text) : Prop :=
  ∀ above below, t = above ++ Text.lineFeed :: below → isUnfinished above = true

/-- An input that a prompt runs: it is not blank and no command, it leaves nothing
    open, and it was collected. -/
structure Runnable (input : Text) : Prop where
  plain : input.Plain
  finished : isUnfinished input = false
  collected : Collected input

theorem collected_line {line : Text} (h : Text.lineFeed ∉ line) : Collected line := by
  rintro above below rfl
  exact absurd (List.mem_append_right _ List.mem_cons_self) h

/-- A line below a text that leaves something open. -/
theorem Collected.below {above line : Text} (h : Collected above)
    (hopen : isUnfinished above = true) (hline : Text.lineFeed ∉ line) :
    Collected (above ++ Text.lineFeed :: line) := by
  intro a b hsplit
  -- The line feed in question is the new one or stands further up.
  rcases List.append_eq_append_iff.mp hsplit with ⟨m, rfl, hm⟩ | ⟨m, rfl, hm⟩
  · cases m with
    | nil => rwa [List.append_nil]
    | cons c m =>
        refine absurd ?_ hline
        rw [(List.cons.inj hm).2]
        exact List.mem_append_right m List.mem_cons_self
  · cases m with
    | nil => rwa [List.append_nil] at hopen
    | cons c m =>
        rw [← (List.cons.inj hm).1] at h
        exact h a m rfl

/-- Only the kinds of the tokens decide whether something is left open. -/
theorem isUnfinished_congr {a b : Text} {ts us : List Token} (ha : Token.scan a = .ok ts)
    (hb : Token.scan b = .ok us) (hkinds : ts.map Token.kind = us.map Token.kind) :
    isUnfinished a = isUnfinished b := by
  have hdepth : ∀ vs : List Token,
      bracketDepth vs = (vs.map Token.kind).foldl (fun n k => n + k.bracket) 0 := by
    intro vs
    rw [List.foldl_map]
    rfl
  rw [isUnfinished, isUnfinished, ha, hb]
  simp only [hdepth, hkinds]

section

open Lexicon

variable {input : Text} {ts us : List Token} {kept dropped : List Piece}

/-- What a flattened input scans to, and when it leaves something open. -/
theorem Runnable.scan_flattened (h : Runnable input) (hscan : Token.scan input = .ok ts) :
    ∃ kept dropped last us, KeptUpToComment input kept dropped last ∧
      ts = (kept ++ dropped).map Piece.token ++ [Token.endAt (Position.behind input)] ∧
      Token.scan input.flattened = .ok us ∧
      us.map (Token.moved unplaced) =
        (kept.map fun x => x.token.flattenedAt .start) ++ [Token.endAt .start] ∧
      (isUnfinished input.flattened = true ↔ dropped ≠ []) := by
  rcases Lexicon.scan_flattened hscan with
    ⟨kept, dropped, last, us, hparted, rfl, hflat, hmap, habove⟩
  refine ⟨kept, dropped, last, us, hparted, rfl, hflat, hmap, ?_⟩
  have hkinds : us.map Token.kind =
      (kept.map Piece.token ++ [Token.endAt .start]).map Token.kind := by
    have hcongr := congrArg (List.map Token.kind) hmap
    rw [List.map_map] at hcongr
    simpa [Function.comp_def, Token.moved, Token.flattenedAt] using hcongr
  by_cases hdropped : dropped = []
  · subst hdropped
    have hsame : isUnfinished input.flattened = isUnfinished input := by
      refine isUnfinished_congr hflat hscan (hkinds.trans ?_)
      simp [Token.endAt]
    simp [hsame, h.finished]
  · rcases habove hdropped with ⟨above, below, hinput, hscan'⟩
    have hsame : isUnfinished input.flattened = isUnfinished above := by
      refine isUnfinished_congr hflat hscan' (hkinds.trans ?_)
      simp [Token.endAt]
    simp [hsame, h.collected above below hinput, hdropped]

/-- The tokens are the same exactly if none is dropped and none spans lines. -/
theorem same_tokens_iff
    (hscan : Token.scan input = .ok ts) (hflat : Token.scan input.flattened = .ok us)
    (hts : ts = (kept ++ dropped).map Piece.token ++ [Token.endAt (Position.behind input)])
    (hus : us.map (Token.moved unplaced) =
      (kept.map fun x => x.token.flattenedAt .start) ++ [Token.endAt .start]) :
    us.map (Token.moved unplaced) = ts.map (Token.moved unplaced) ↔
      dropped = [] ∧ ∀ x ∈ kept, Text.lineFeed ∉ x.token.lexeme := by
  constructor
  · intro hsame
    rw [hus, hts, List.map_append] at hsame
    have hbodies := (List.append_inj' hsame rfl).1
    have hlength := congrArg List.length hbodies
    simp only [List.length_map, List.length_append] at hlength
    have hdropped : dropped = [] := List.length_eq_zero_iff.mp (by omega)
    subst hdropped
    refine ⟨rfl, fun x hx => (Text.flattened_eq_self_iff _).mp ?_⟩
    rw [List.append_nil, List.map_map, List.map_inj_left] at hbodies
    exact congrArg Token.lexeme (hbodies x hx)
  · rintro ⟨rfl, hfree⟩
    refine map_unplaced_eq_of_spelling hflat hscan ?_
    have hspelled := congrArg (List.map Token.spelling) hus
    rw [List.map_map] at hspelled
    have hkept : ∀ x ∈ kept, (x.token.kind, x.token.lexeme.flattened) = x.token.spelling := by
      intro x hx
      rw [(Text.flattened_eq_self_iff _).mpr (hfree x hx)]
      rfl
    refine hspelled.trans ?_
    rw [hts, List.append_nil, List.map_append, List.map_append, List.map_map, List.map_map]
    exact congrArg (· ++ _) (List.map_congr_left hkept)

end

/-! ### Entering an entry again -/

/-- A text that starts with something plain still does on one line. -/
theorem Text.Plain.flattened {t : Text} (h : t.Plain) : t.flattened.Plain := by
  rcases h with ⟨g, hlead, hdot⟩
  have hspace : (Glyph.isSpace ∘ fun g : Glyph => if g.code = 10 then ⟨32, [32]⟩ else g) =
      Glyph.isSpace := by
    funext g
    simp only [Function.comp_apply, Glyph.isSpace]
    split
    · rename_i hcode
      rw [hcode]
      rfl
    · rfl
  have hg : g.code ≠ 10 := by
    intro hcode
    have hhead := List.head?_dropWhile_not Glyph.isSpace t.glyphs
    rw [Text.lead?] at hlead
    rw [hlead] at hhead
    simp only [Glyph.isSpace, hcode] at hhead
    exact absurd hhead (by decide)
  refine ⟨g, ?_, hdot⟩
  rw [Text.lead?] at hlead ⊢
  rw [Text.glyphs_flattened, List.dropWhile_map, hspace, List.head?_map, hlead, Option.map_some,
    if_neg hg]

/-- With nothing held back, a plain text is held back or run. -/
theorem turnOf_plain {t : Text} (h : t.Plain) :
    turnOf [] t = if isUnfinished t then .hold else .run t := by
  have ht : Text.unlines ([] ++ [t]) = t := rfl
  simp only [turnOf, ht, h.trim_isEmpty, Bool.false_eq_true, if_false]

theorem canHold_nil : CanHold [] := fun _ hline => nomatch hline

theorem LinePrompt.turn_plain {p : LinePrompt} {t : Text} (hp : p.pending = []) (h : t.Plain) :
    p.turn t = if isUnfinished t then .hold else .run t :=
  (LinePrompt.turn_eq canHold_nil (fun _ => h.startsWith_trim) hp).trans (turnOf_plain h)

theorem Screen.turn_plain {s : Screen} {t : Text} (hs : s.pending = []) (htext : s.field.text = t)
    (h : t.Plain) : s.turn = if isUnfinished t then .hold else .run t :=
  (Screen.turn_eq canHold_nil (fun _ => h.startsWith_trim) hs htext).trans (turnOf_plain h)

/-! ### The line prompt -/

namespace LinePrompt

/-- What is stored while lines are read. -/
def entries (p : LinePrompt) (lines : List Text) : List Text :=
  (p.converse lines).1.filterMap fun exchange => exchange.written.history

/-- The text that is held back was collected and leaves something open. -/
structure Gathers (p : LinePrompt) : Prop where
  collected : Collected p.pending
  unfinished : p.pending ≠ [] → isUnfinished p.pending = true

variable {p : LinePrompt} {line : Text}

theorem gathers_start (hp : p.pending = []) : p.Gathers := by
  refine ⟨?_, fun hne => absurd hp hne⟩
  rw [hp]
  exact collected_line List.not_mem_nil

theorem Gathers.gathered (hp : p.Gathers) (hline : Text.lineFeed ∉ line) :
    Collected (p.gathered line) := by
  rw [LinePrompt.gathered]
  split
  · exact collected_line hline
  · rename_i hpending
    rw [List.append_assoc, List.singleton_append]
    exact hp.collected.below (hp.unfinished fun hnil => hpending (hnil ▸ rfl)) hline

theorem turn_cases (line : Text) (p : LinePrompt) :
    (p.turn line = .hold ∧ isUnfinished (p.gathered line) = true) ∨
      p.turn line = .ignore ∨ (∃ name, p.turn line = .command name) ∨
      (p.turn line = .run (p.gathered line) ∧ isUnfinished (p.gathered line) = false ∧
        (p.gathered line).Plain) := by
  simp only [turn]
  split_ifs with hopen hblank hdot
  · exact Or.inl ⟨rfl, hopen⟩
  · exact Or.inr (Or.inl rfl)
  · exact Or.inr (Or.inr (Or.inl ⟨_, rfl⟩))
  · refine Or.inr (Or.inr (Or.inr ⟨rfl, Bool.not_eq_true _ ▸ hopen, ?_⟩))
    exact .of_trim (Bool.not_eq_true _ ▸ hblank) (Bool.not_eq_true _ ▸ hdot)

/-- A command leaves what is held back alone. -/
theorem pending_command (input : Text) (p : LinePrompt) :
    (p.command input).2.pending = p.pending := by
  simp only [command]
  split_ifs <;> rfl

/-- What a line does: what is held back stays collected, and an input that is run
    was collected and is stored. -/
theorem Gathers.feed (hp : p.Gathers) (hline : Text.lineFeed ∉ line) :
    (p.feed line).2.Gathers ∧ ∀ input ∈ (p.turn line).input?,
      Runnable input ∧ (p.feed line).1.history = some input.flattened := by
  have hgathered := hp.gathered hline
  rw [feed_eq]
  rcases turn_cases line p with ⟨hturn, hopen⟩ | hturn | ⟨name, hturn⟩ | ⟨hturn, hclosed, hplain⟩
  all_goals rw [hturn]
  · exact ⟨⟨hgathered, fun _ => hopen⟩, fun input hinput => nomatch hinput⟩
  · exact ⟨gathers_start rfl, fun input hinput => nomatch hinput⟩
  · exact ⟨gathers_start (pending_command name _), fun input hinput => nomatch hinput⟩
  · refine ⟨gathers_start rfl, fun input hinput => ?_⟩
    rw [← Option.some.inj hinput]
    exact ⟨⟨hplain, hclosed, hgathered⟩, rfl⟩

theorem entries_cons (line : Text) (rest : List Text) (p : LinePrompt) :
    p.entries (line :: rest) = (p.feed line).1.history.toList ++
      if (p.feed line).1.ends then [] else (p.feed line).2.entries rest := by
  rw [entries, converse]
  cases hends : (p.feed line).1.ends with
  | true => cases hhistory : (p.feed line).1.history <;> simp [hends, hhistory]
  | false => cases hhistory : (p.feed line).1.history <;> simp [hends, hhistory, entries]

/-- Every input that is run was collected and is stored. -/
theorem runs_recorded (lines : List Text) : ∀ {p : LinePrompt}, p.Gathers →
    (∀ line ∈ lines, Text.lineFeed ∉ line) →
    ((p.runs lines).map Text.flattened).Sublist (p.entries lines) ∧
      ∀ input ∈ p.runs lines, Runnable input := by
  induction lines with
  | nil => exact fun _ _ => ⟨List.nil_sublist _, List.forall_mem_nil _⟩
  | cons line rest ih =>
      intro p hp hlines
      rcases List.forall_mem_cons.mp hlines with ⟨hline, hrest⟩
      rcases hp.feed hline with ⟨hnext, hrun⟩
      rcases ih hnext hrest with ⟨hsublist, hruns⟩
      have hfirst : ((p.turn line).input?.toList.map Text.flattened).Sublist
          (p.feed line).1.history.toList := by
        cases hturn : (p.turn line).input? with
        | none => exact List.nil_sublist _
        | some input =>
            rw [(hrun input hturn).2]
            exact List.Sublist.refl _
      -- A command may end the conversation here, and then nothing more is run.
      let after := if (p.feed line).1.ends then [] else (p.feed line).2.runs rest
      let stored := if (p.feed line).1.ends then [] else (p.feed line).2.entries rest
      have hafter : (after.map Text.flattened).Sublist stored ∧
          ∀ input ∈ after, Runnable input := by
        simp only [after, stored]
        split
        · exact ⟨List.nil_sublist _, List.forall_mem_nil _⟩
        · exact ⟨hsublist, hruns⟩
      have hruns : p.runs (line :: rest) = (p.turn line).input?.toList ++ after := rfl
      rw [hruns, entries_cons, List.map_append]
      refine ⟨hfirst.append hafter.1, List.forall_mem_append.mpr ⟨fun input hinput => ?_, hafter.2⟩⟩
      exact (hrun input (Option.mem_toList.mp hinput)).1

end LinePrompt

/-! ### The screen -/

namespace Field

/-- The characters of the field are no line feeds. -/
def OnOneLine (f : Field) : Prop := 10 ∉ f.value

theorem not_mem_clean (rs : List Rune) : 10 ∉ clean rs := by
  intro hmem
  rcases List.mem_filterMap.mp hmem with ⟨r, _, hr⟩
  split_ifs at hr with _ hblank
  · cases hr
  · exact hblank (Or.inr (Or.inl (Option.some.inj hr)))

theorem onOneLine_setValue (t : Text) (f : Field) : (f.setValue t).OnOneLine := by
  rw [OnOneLine, setValue, value_replace]
  exact fun hmem => not_mem_clean _ (List.mem_of_mem_take hmem)

theorem onOneLine_setEnding (t : Text) (f : Field) : (f.setEnding t).OnOneLine := by
  rw [OnOneLine, setEnding, value_moveTo]
  exact onOneLine_setValue t f

namespace OnOneLine

variable {f : Field} (h : f.OnOneLine)
include h

theorem moveTo (n : Nat) : (f.moveTo n).OnOneLine := by
  rw [OnOneLine, value_moveTo]
  exact h

theorem insert (rs : List Rune) : (f.insert rs).OnOneLine := by
  rw [OnOneLine, Field.insert]
  split
  · rw [value_scroll]
    exact h
  · rw [value_scroll, value_replace]
    intro hmem
    rcases List.mem_append.mp (List.mem_of_mem_take hmem) with hmem | hmem
    · rcases List.mem_append.mp hmem with hmem | hmem
      · exact h (List.mem_of_mem_take hmem)
      · exact not_mem_clean _ (List.mem_of_mem_take hmem)
    · exact h (List.mem_of_mem_drop hmem)

theorem backspace : f.backspace.OnOneLine := by
  rw [OnOneLine, Field.backspace]
  split
  · rw [value_scroll]
    exact h
  · rw [value_moveTo]
    intro hmem
    rcases List.mem_append.mp hmem with hmem | hmem
    · exact h (List.mem_of_mem_take hmem)
    · exact h (List.mem_of_mem_drop hmem)

theorem lineFeed_not_mem : Text.lineFeed ∉ f.text := by
  intro hmem
  rcases List.mem_flatMap.mp hmem with ⟨r, hr, hbyte⟩
  exact Rune.lineFeed_not_mem_encode (ne_of_mem_of_not_mem hr h) hbyte

end OnOneLine

end Field

namespace Screen

/-- The input that an event makes the screen run, if it does. -/
def ranBy (e : Event) (s : Screen) : Option Text :=
  match e with
  | .pressed .enter => s.turn.input?
  | _ => none

/-- The inputs that events make the screen run. -/
def ran (s : Screen) : List Event → List Text
  | [] => []
  | e :: rest => (s.ranBy e).toList ++ (s.update e).ran rest

/-- The line in the field is one line, and the lines held back were collected. The
    first of them is plain, and they leave something open. -/
structure Gathers (s : Screen) : Prop where
  line : s.field.OnOneLine
  held : CanHold s.pending
  collected : Collected (Text.unlines s.pending)
  unfinished : s.pending ≠ [] → isUnfinished (Text.unlines s.pending) = true

variable {s : Screen}

theorem gathers_start (settings : Settings) (session : Session) :
    ({ start settings with session := session } : Screen).Gathers :=
  ⟨List.not_mem_nil, canHold_nil, collected_line List.not_mem_nil, fun hne => absurd rfl hne⟩

/-- What becomes of the line in the field, and what is known then. -/
theorem turn_cases (s : Screen) :
    (s.turn = .ignore ∨ ∃ name, s.turn = .command name) ∨
      (s.pending = [] → s.field.text.Plain) ∧
        let input := Text.unlines (s.pending ++ [s.field.text])
        (s.turn = .hold ∧ isUnfinished input = true ∨
          s.turn = .run input ∧ isUnfinished input = false) := by
  simp only [turn]
  split_ifs with hblank hdot hopen
  · exact Or.inl (Or.inl rfl)
  · exact Or.inl (Or.inr ⟨_, rfl⟩)
  all_goals
    have hplain : s.pending = [] → s.field.text.Plain := by
      intro hnil
      rw [hnil] at hblank hdot
      exact .of_trim (by simpa using hblank) (by simpa using hdot)
  · exact Or.inr ⟨hplain, Or.inl ⟨rfl, hopen⟩⟩
  · exact Or.inr ⟨hplain, Or.inr ⟨rfl, Bool.not_eq_true _ ▸ hopen⟩⟩

namespace Gathers

/-- A screen on which nothing was entered. -/
theorem undisturbed {t : Screen} (hs : s.Gathers) (h : s.Undisturbed t)
    (hline : t.field.OnOneLine) : t.Gathers := by
  refine ⟨hline, ?_, ?_, ?_⟩
  all_goals rw [h.pending]
  · exact hs.held
  · exact hs.collected
  · exact hs.unfinished

/-- The lines with the one in the field are collected. -/
theorem gathered (hs : s.Gathers) : Collected (Text.unlines (s.pending ++ [s.field.text])) := by
  by_cases hnil : s.pending = []
  · rw [hnil]
    exact collected_line hs.line.lineFeed_not_mem
  · rw [unlines_concat hnil, List.append_assoc, List.singleton_append]
    exact hs.collected.below (hs.unfinished hnil) hs.line.lineFeed_not_mem

/-- The first line is plain, be it held back or in the field. -/
theorem canHold (hs : s.Gathers) (hplain : s.pending = [] → s.field.text.Plain) :
    CanHold (s.pending ++ [s.field.text]) := by
  intro line hline
  cases hpending : s.pending with
  | nil =>
      rw [hpending] at hline
      rw [← Option.some.inj hline]
      exact hplain hpending
  | cons first rest =>
      rw [hpending] at hline
      exact hs.held line (hpending ▸ hline)

/-- What entering the line in the field does. -/
theorem submit (hs : s.Gathers) :
    s.submit.Gathers ∧
      s.submit.inputs.items =
        s.inputs.items ++ (s.turn.input?.map Text.flattened).toList ∧
      ∀ input ∈ s.turn.input?, Runnable input := by
  have hcleared : s.Undisturbed (s.typed []) := .edit (Field.prompt_setValue _ _)
  have hline : (s.typed []).field.OnOneLine := Field.onOneLine_setValue _ _
  rw [submit_eq]
  rcases s.turn_cases with (hturn | ⟨name, hturn⟩) | ⟨hplain, ⟨hturn, hopen⟩ | ⟨hturn, hclosed⟩⟩
  all_goals rw [hturn]
  · exact ⟨hs.undisturbed hcleared hline, (List.append_nil _).symm, fun input h => nomatch h⟩
  · have hdone := hcleared.trans (.command name)
    refine ⟨hs.undisturbed hdone ?_, ?_, fun input h => nomatch h⟩
    · rw [field_command]
      exact hline
    · exact hdone.items.trans (List.append_nil _).symm
  · exact ⟨⟨hline, hs.canHold hplain, hs.gathered, fun _ => hopen⟩, (List.append_nil _).symm,
      fun input h => nomatch h⟩
  · refine ⟨⟨Field.onOneLine_setValue _ _, canHold_nil, collected_line List.not_mem_nil,
      fun hne => absurd rfl hne⟩, rfl, fun input hinput => ?_⟩
    rw [← Option.some.inj hinput]
    refine ⟨?_, hclosed, hs.gathered⟩
    have hheld := hs.canHold hplain
    -- The input starts like its first line.
    cases hlines : s.pending ++ [s.field.text] with
    | nil => exact absurd hlines (List.append_ne_nil_of_right_ne_nil _ (List.cons_ne_nil _ _))
    | cons first rest =>
        rw [hlines] at hheld
        exact (hheld first rfl).unlines rest

end Gathers

theorem onOneLine_update {e : Event} (he : e ≠ .pressed .enter) (h : s.field.OnOneLine) :
    (s.update e).field.OnOneLine := by
  have hshown : ∀ step, (s.showInput step).field.OnOneLine := by
    rintro ⟨_ | item, _⟩
    · exact h
    · exact Field.onOneLine_setEnding _ _
  cases e with
  | resized w height => exact h
  | typed r => exact h.insert [r]
  | pressed k =>
      cases k with
      | enter => exact absurd rfl he
      | tab =>
          change s.complete.field.OnOneLine
          simp only [complete]
          split_ifs
          · exact h
          · split
            · exact h
            · exact Field.onOneLine_setEnding _ _
            · exact h
      | up | down => exact hshown _
      | left | right | home | finish => exact h.moveTo _
      | backspace => exact h.backspace
      | _ => exact h

/-- What an event does: the lines held back stay collected, and an input that is
    run was collected and is stored. -/
theorem Gathers.update (hs : s.Gathers) (e : Event) :
    (s.update e).Gathers ∧
      (s.update e).inputs.items =
        s.inputs.items ++ ((s.ranBy e).map Text.flattened).toList ∧
      ∀ input ∈ s.ranBy e, Runnable input := by
  by_cases he : e = .pressed .enter
  · rw [he]
    exact hs.submit
  · have hnone : s.ranBy e = none := by
      unfold ranBy
      split
      · exact absurd rfl he
      · rfl
    have hsame := undisturbed_update he s
    rw [hnone]
    exact ⟨hs.undisturbed hsame (onOneLine_update he hs.line),
      hsame.items.trans (List.append_nil _).symm, fun input h => nomatch h⟩

/-- The history is what was run, each input on one line. -/
theorem ran_recorded (events : List Event) : ∀ {s : Screen}, s.Gathers →
    (events.foldl (fun s e => s.update e) s).inputs.items =
        s.inputs.items ++ (s.ran events).map Text.flattened ∧
      ∀ input ∈ s.ran events, Runnable input := by
  induction events with
  | nil => exact fun _ => ⟨(List.append_nil _).symm, List.forall_mem_nil _⟩
  | cons e rest ih =>
      intro s hs
      rcases hs.update e with ⟨hnext, hitems, hrun⟩
      rcases ih hnext with ⟨hrest, hruns⟩
      refine ⟨?_, ?_⟩
      · rw [List.foldl_cons, hrest, hitems, ran, List.map_append, List.append_assoc]
        cases s.ranBy e <;> rfl
      · rw [ran, List.forall_mem_append]
        exact ⟨fun input hinput => hrun input (Option.mem_toList.mp hinput), hruns⟩

end Screen

open Lexicon in
/-- **An entry of the history is its input up to a comment.** Whatever lines the line
    prompt reads and whatever happens to a screen, each input that is run is stored
    with blanks for its line feeds, and the screen stores nothing else. Let such an
    input scan. The entry scans too, to the tokens in front of which there is no
    comment, up to the first in front of which there is one, with blanks for the line
    feeds inside strings. So its tokens are those of the input, up to positions,
    exactly if there is no such comment and no string spans lines. Entered again
    where nothing is held back, the entry is run if there is no such comment, and
    held back as unfinished if there is one. -/
theorem recalled_entry_is_kept_up_to_comment (settings : Settings) (session : Session)
    (lines : List Text) (events : List Event) (hlines : ∀ line ∈ lines, Text.lineFeed ∉ line) :
    let p : LinePrompt := { LinePrompt.start settings with session := session }
    let s : Screen := { Screen.start settings with session := session }
    ((p.runs lines).map Text.flattened).Sublist (p.entries lines) ∧
      (events.foldl (fun s e => s.update e) s).inputs.items =
        (s.ran events).map Text.flattened ∧
      ∀ input ts, input ∈ p.runs lines ∨ input ∈ s.ran events → Token.scan input = .ok ts →
        ∃ kept dropped last us, KeptUpToComment input kept dropped last ∧
          ts = (kept ++ dropped).map Piece.token ++ [Token.endAt (Position.behind input)] ∧
          Token.scan input.flattened = .ok us ∧
          us.map (Token.moved unplaced) =
            (kept.map fun x => x.token.flattenedAt .start) ++ [Token.endAt .start] ∧
          (us.map (Token.moved unplaced) = ts.map (Token.moved unplaced) ↔
            dropped = [] ∧ ∀ x ∈ kept, Text.lineFeed ∉ x.token.lexeme) ∧
          (∀ q : LinePrompt, q.pending = [] →
            q.turn input.flattened = if dropped = [] then .run input.flattened else .hold) ∧
          ∀ q : Screen, q.pending = [] → q.field.text = input.flattened →
            q.turn = if dropped = [] then .run input.flattened else .hold := by
  intro p s
  rcases LinePrompt.runs_recorded lines (LinePrompt.gathers_start rfl : p.Gathers) hlines with
    ⟨hentries, hruns⟩
  rcases Screen.ran_recorded events (Screen.gathers_start settings session) with ⟨hitems, hran⟩
  refine ⟨hentries, hitems, fun input ts hinput hscan => ?_⟩
  have hrunnable : Runnable input := hinput.elim (hruns input) (hran input)
  rcases hrunnable.scan_flattened hscan with
    ⟨kept, dropped, last, us, hparted, hts, hflat, hus, hopen⟩
  have hturn : (if isUnfinished input.flattened then Turn.hold else .run input.flattened) =
      if dropped = [] then .run input.flattened else .hold := by
    by_cases hdropped : dropped = [] <;> simp [hopen, hdropped]
  refine ⟨kept, dropped, last, us, hparted, hts, hflat, hus, same_tokens_iff hscan hflat hts hus,
    fun q hq => ?_, fun q hq htext => ?_⟩
  · rw [LinePrompt.turn_plain hq hrunnable.plain.flattened, hturn]
  · rw [Screen.turn_plain hq htext hrunnable.plain.flattened, hturn]

/-- The lines `echo (a` and `+ b);`. -/
def bracketLines : List Text := [utf8 "echo (a", utf8 "+ b);"]

def bracketTokens : List Token :=
  [⟨.echoWord, "echo", none, ⟨1, 1⟩⟩, ⟨.leftParen, "(", none, ⟨1, 6⟩⟩,
    ⟨.identifier, "a", none, ⟨1, 7⟩⟩, ⟨.plus, "+", none, ⟨2, 1⟩⟩,
    ⟨.identifier, "b", none, ⟨2, 3⟩⟩, ⟨.rightParen, ")", none, ⟨2, 4⟩⟩,
    ⟨.semicolon, ";", none, ⟨2, 5⟩⟩, Token.endAt ⟨2, 6⟩]

set_option maxRecDepth 4000 in
theorem bracketLines_are_run_again :
    let p := LinePrompt.start {}
    let input := Text.unlines bracketLines
    p.runs bracketLines = [input] ∧ Token.scan input = .ok bracketTokens ∧
      ((p.runs bracketLines).map Text.flattened).Sublist (p.entries bracketLines) ∧
      p.turn input.flattened = .run input.flattened := by
  intro p input
  have hlines : ∀ line ∈ bracketLines, Text.lineFeed ∉ line := by decide +kernel
  have hruns : p.runs bracketLines = [input] := by decide +kernel
  have hscan : Token.scan input = .ok bracketTokens := by cbv
  rcases recalled_entry_is_kept_up_to_comment {} (LinePrompt.freshSession {}) bracketLines []
    hlines with ⟨hentries, _, hrecalled⟩
  have hmem : input ∈ p.runs bracketLines := hruns ▸ List.mem_singleton_self input
  rcases hrecalled input bracketTokens (Or.inl hmem) hscan with
    ⟨kept, dropped, last, us, _, _, hflat, _, hsame, hturn, _⟩
  refine ⟨hruns, hscan, hentries, ?_⟩
  have hus : us.map (Token.moved unplaced) = bracketTokens.map (Token.moved unplaced) := by
    have htokens : (Token.scan input.flattened).map (List.map (Token.moved unplaced)) =
        .ok (bracketTokens.map (Token.moved unplaced)) := by
      cbv
    rw [hflat] at htokens
    exact Except.ok.inj htokens
  exact (hturn p rfl).trans (if_pos (hsame.mp hus).1)

/-- The lines `echo (1 # one` and `+ 2);`. -/
def commentedLines : List Text :=
  [utf8 "echo (1 # one", utf8 "+ 2);"]

theorem commentedLines_lose_their_end :
    let p := LinePrompt.start {}
    let s := (Screen.start {}).enteredAll commentedLines
    let input := Text.unlines commentedLines
    p.runs commentedLines = [input] ∧ p.entries commentedLines = [input.flattened] ∧
      s.inputs.items = [input.flattened] ∧
      isUnfinished input = false ∧ isUnfinished input.flattened = true ∧
      ∃ ts us, Token.scan input = .ok ts ∧ Token.scan input.flattened = .ok us ∧
        us.map (Token.moved unplaced) ≠ ts.map (Token.moved unplaced) := by
  intro p s input
  have hfinished : isUnfinished input = false := by decide +kernel
  have hopen : isUnfinished input.flattened = true := by decide +kernel
  have hscans : (Token.scan input).isOk = true ∧ (Token.scan input.flattened).isOk = true := by
    decide +kernel
  refine ⟨by decide +kernel, by decide +kernel, by decide +kernel, hfinished, hopen, ?_⟩
  cases hscan : Token.scan input with
  | error e =>
      rw [hscan] at hscans
      cases hscans.1
  | ok ts =>
      cases hflat : Token.scan input.flattened with
      | error e =>
          rw [hflat] at hscans
          cases hscans.2
      | ok us =>
          refine ⟨ts, us, rfl, rfl, fun hsame => ?_⟩
          have hkinds : us.map Token.kind = ts.map Token.kind := by
            have hcongr := congrArg (List.map Token.kind) hsame
            rw [List.map_map, List.map_map] at hcongr
            exact hcongr
          rw [isUnfinished_congr hflat hscan hkinds, hfinished] at hopen
          cases hopen

end PocketScript
