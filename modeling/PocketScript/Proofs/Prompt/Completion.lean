import PocketScript.Proofs.Evaluation.Names
import PocketScript.Proofs.Evaluation.Passage
import PocketScript.Proofs.Prompt.Consistent
import PocketScript.Proofs.Text.Decoding
import PocketScript.Proofs.Text.Order

/-!
# Completing a word

The tabulator looks at the word at the end of the line. If one name begins with it,
the name takes its place, and if several do they are listed.

That the line only ever grows, and that a second tabulator does nothing after the
first has completed a word, comes down to what names are made of. A name that begins
with the word byte by byte begins with its characters, and all characters of a name
are word characters, so the completed name is again the word at the end of the line.
Longer words have fewer names, so it is still the only one. Reserved words and native
functions are words as they stand. That global names are words is an invariant of the
session (`Session.Worded`), because anything at all could be bound otherwise.

The field does the rest: it takes every character of a name as it is, and cuts off
what it has no room for.

## Main definitions

* `Field.Takes`, `Field.Holdable`: What can stand in a field.
* `Screen.words`, `Screen.Matches`: The names, and those that a word is completed to.
* `Screen.Worded`: All names of the screen are words.
* `Screen.Completes`, `Screen.Ambiguous`: One name, or several, begin with the word.

## Theorems

* `Screen.holdable_of_events`: Whatever is typed, a field holds what it takes.
* `Screen.lastWord_append`: The word at the end of a line.
* `Screen.Reaches.worded`: Names are words on every screen that can come about.
* `Screen.mem_candidates`, `Screen.pairwise_candidates`: What is listed.
* `Screen.complete_cases`: What the tabulator does, by the number of names.
* `completion_only_extends`: What the tabulator does, once and twice.
* `empty_word_is_not_completed`: Nothing is listed where no word is.
-/

namespace PocketScript

/-- What is left after repetitions are taken out is repeated nowhere. -/
theorem nodup_eraseDups {α : Type} [BEq α] [LawfulBEq α] (as : List α) : as.eraseDups.Nodup := by
  induction hn : as.length using Nat.strong_induction_on generalizing as with
  | _ n ih =>
    cases as with
    | nil => exact List.nodup_nil
    | cons a rest =>
        rw [List.eraseDups_cons, List.nodup_cons]
        have hshorter : (rest.filter fun b => !b == a).length < n := by
          rw [← hn]
          exact Nat.lt_succ_of_le (List.length_filter_le _ rest)
        refine ⟨?_, ih _ hshorter _ rfl⟩
        simp

namespace Text

theorem startsWith_iff (start t : Text) : startsWith start t = true ↔ start <+: t := by
  rw [startsWith]
  induction start generalizing t with
  | nil => simp [dropStart?]
  | cons a as ih =>
      cases t with
      | nil => simp [dropStart?]
      | cons b bs =>
          rw [dropStart?, List.cons_prefix_cons]
          split
          · rename_i hab
            rw [ih, and_iff_right hab]
          · rename_i hab
            simp [hab]

end Text

namespace Field

/-- A character that a field takes as it is. -/
def Takes (r : Rune) : Prop :=
  r.isScalar = true ∧ r ≠ Rune.replacement ∧ isControl r = false

/-- A line that a field can hold. -/
structure Holdable (f : Field) : Prop where
  length : f.value.length ≤ limit
  taken : ∀ r ∈ f.value, Takes r

theorem clean_eq_self {rs : List Rune} (h : ∀ r ∈ rs, Takes r) : clean rs = rs := by
  induction rs with
  | nil => rfl
  | cons r rs ih =>
      rcases h r List.mem_cons_self with ⟨_, hread, hcontrol⟩
      have hblank : ¬ (r = 9 ∨ r = 10 ∨ r = 13) := by
        rintro (rfl | rfl | rfl) <;> exact absurd hcontrol (by decide)
      have hrest := ih fun s hs => h s (List.mem_cons_of_mem r hs)
      rw [clean] at hrest ⊢
      rw [List.filterMap_cons, if_neg hread, if_neg hblank, hcontrol, hrest]
      rfl

theorem takes_of_mem_clean {rs : List Rune} (h : ∀ r ∈ rs, r.isScalar = true) :
    ∀ r ∈ clean rs, Takes r := by
  intro r hr
  rcases List.mem_filterMap.mp hr with ⟨r', hr', hkept⟩
  split at hkept
  · cases hkept
  · rename_i hread
    split at hkept
    · cases hkept
      exact ⟨by decide, by decide, by decide⟩
    · split at hkept
      · cases hkept
      · rename_i hcontrol
        cases hkept
        exact ⟨h r hr', hread, Bool.not_eq_true _ ▸ hcontrol⟩

namespace Holdable

variable {f : Field}

theorem setValue (t : Text) (f : Field) : (f.setValue t).Holdable := by
  have hvalue : (f.setValue t).value = (clean t.runes).take limit := value_replace _ f
  refine ⟨?_, ?_⟩
  · rw [hvalue]
    exact List.length_take_le limit _
  · rw [hvalue]
    exact fun r hr => takes_of_mem_clean Text.isScalar_of_mem_runes r (List.mem_of_mem_take hr)

theorem of_value {g : Field} (h : f.Holdable) (hvalue : g.value = f.value) : g.Holdable :=
  ⟨hvalue ▸ h.length, hvalue ▸ h.taken⟩

theorem setEnding (t : Text) (f : Field) : (f.setEnding t).Holdable :=
  (setValue t f).of_value (value_moveTo _ _)

theorem insert (h : f.Holdable) {r : Rune} (hr : r.isScalar = true) : (f.insert [r]).Holdable := by
  rw [Field.insert]
  split
  · exact h.of_value (value_scroll f)
  · have hinserted : ∀ c ∈ f.value.take f.cursor ++
        (clean [r]).take (limit - f.value.length) ++ f.value.drop f.cursor, Takes c := by
      intro c hc
      rcases List.mem_append.mp hc with hc | hc
      · rcases List.mem_append.mp hc with hc | hc
        · exact h.taken c (List.mem_of_mem_take hc)
        · exact takes_of_mem_clean (List.forall_mem_singleton.mpr hr) c (List.mem_of_mem_take hc)
      · exact h.taken c (List.mem_of_mem_drop hc)
    refine ⟨?_, ?_⟩
    · rw [value_scroll, value_replace]
      exact List.length_take_le limit _
    · rw [value_scroll, value_replace]
      exact fun c hc => hinserted c (List.mem_of_mem_take hc)

theorem backspace (h : f.Holdable) : f.backspace.Holdable := by
  rw [Field.backspace]
  split
  · exact h.of_value (value_scroll f)
  · refine ⟨?_, ?_⟩
    · rw [value_moveTo]
      have hlength := h.length
      simp only [List.length_append, List.length_take, List.length_drop]
      omega
    · rw [value_moveTo]
      intro c hc
      rcases List.mem_append.mp hc with hc | hc
      · exact h.taken c (List.mem_of_mem_take hc)
      · exact h.taken c (List.mem_of_mem_drop hc)

end Holdable

end Field

namespace Screen

/-- One event leaves a line that a field can hold, if what was typed is a character. -/
theorem holdable_update {s : Screen} (h : s.field.Holdable) {e : Event}
    (he : ∀ r, e = .typed r → r.isScalar = true) : (s.update e).field.Holdable := by
  have hshow : ∀ step, (s.showInput step).field.Holdable := by
    rintro ⟨_ | item, history⟩
    · exact h
    · exact .setEnding item s.field
  have hcleared : (s.typed []).field.Holdable := .setValue [] s.field
  cases e with
  | resized width height => exact h.of_value rfl
  | typed r => exact h.insert (he r rfl)
  | pressed k =>
      cases k with
      | up => exact hshow _
      | down => exact hshow _
      | backspace => exact h.backspace
      | left | right | home | finish => exact h.of_value (Field.value_moveTo _ _)
      | enter =>
          have hsubmit : s.submit.field.Holdable := by
            rw [submit_eq]
            cases s.turn with
            | ignore => exact hcleared
            | command name => exact hcleared.of_value (congrArg Field.value (field_command name _))
            | hold => exact hcleared.of_value rfl
            | run input => exact hcleared.of_value rfl
          exact hsubmit
      | tab =>
          have hcomplete : s.complete.field.Holdable := by
            simp only [complete]
            split
            · exact h
            · split
              · exact h
              · exact .setEnding _ s.field
              · exact h
          exact hcomplete
      | _ => exact h

/-- Whatever characters are typed and keys are pressed, the field holds what it takes. -/
theorem holdable_of_events (settings : Settings) {events : List Event}
    (h : ∀ r, .typed r ∈ events → r.isScalar = true) :
    (events.foldl (fun s e => s.update e) (Screen.start settings)).field.Holdable := by
  have hstart : (Screen.start settings).field.Holdable :=
    ⟨Nat.zero_le _, List.forall_mem_nil _⟩
  generalize Screen.start settings = s at hstart
  induction events generalizing s with
  | nil => exact hstart
  | cons e rest ih =>
      refine ih (fun r hr => h r (List.mem_cons_of_mem e hr)) _ (holdable_update hstart ?_)
      rintro r rfl
      exact h r List.mem_cons_self

/-! ### The word at the end of a line -/

/-- A line is cut where its last run of word characters starts. -/
theorem lastWord_append {before word : List Rune} (hword : ∀ c ∈ word, c.continuesWord = true)
    (hbefore : ∀ c, before.getLast? = some c → c.continuesWord = false) :
    lastWord (before ++ word) = (before, word) := by
  have hstop : before.reverse.takeWhile Rune.continuesWord = [] := by
    cases hlast : before.reverse with
    | nil => rfl
    | cons c rest =>
        have hc : before.getLast? = some c := by
          rw [← List.head?_reverse, hlast, List.head?_cons]
        rw [List.takeWhile_cons, hbefore c hc]
        rfl
  have htaken : ((before ++ word).reverse.takeWhile Rune.continuesWord).reverse = word := by
    rw [List.reverse_append, List.takeWhile_append_of_pos
      (fun c hc => hword c (List.mem_reverse.mp hc)), hstop, List.append_nil, List.reverse_reverse]
  rw [lastWord, htaken]
  simp

/-- Every line ends with a word, which may be empty. -/
theorem exists_lastWord (rs : List Rune) : ∃ before word, rs = before ++ word ∧
    (∀ c ∈ word, c.continuesWord = true) ∧
    ∀ c, before.getLast? = some c → c.continuesWord = false := by
  refine ⟨(rs.reverse.dropWhile Rune.continuesWord).reverse,
    (rs.reverse.takeWhile Rune.continuesWord).reverse, ?_, ?_, ?_⟩
  · rw [← List.reverse_append, List.takeWhile_append_dropWhile, List.reverse_reverse]
  · intro c hc
    exact List.mem_takeWhile_imp (List.mem_reverse.mp hc)
  · intro c hc
    rw [List.getLast?_reverse] at hc
    have hstop := List.head?_dropWhile_not Rune.continuesWord rs.reverse
    rw [hc] at hstop
    simpa using hstop

/-! ### Names -/

/-- The reserved words, the native functions and the global names. -/
def words (s : Screen) : List Text :=
  Kind.keywordNames ++ s.session.builtins ++ Text.Dict.names s.session.globals

/-- A name that begins with the word. -/
def Matches (s : Screen) (word : List Rune) (name : Text) : Prop :=
  name ∈ s.words ∧ Text.ofRunes word <+: name

theorem builtins_freshSession (settings : Settings) :
    (LinePrompt.freshSession settings).builtins = [utf8 "clock"] := by
  cbv

/-- What a screen offers as names are words. -/
structure Worded (s : Screen) : Prop where
  session : s.session.Worded
  builtins : s.session.builtins = [utf8 "clock"]

end Screen

/-- Running a source offers no native functions. -/
theorem builtins_passage : Passage fun s t => t.builtins = s.builtins where
  refl s := rfl
  trans h k := k.trans h
  bind s _ _ _ := rfl
  remove _ := rfl
  openLevel s _ := rfl
  stamp s := rfl
  echo s line := by
    rw [Session.echo]
    split <;> rfl
  readClock s := rfl
  note s r := by
    rw [Session.note]
    split <;> rfl
  remarks s _ := rfl
  mute s _ := rfl
  remember s _ := rfl
  call h := h
  program h := h

namespace Screen

theorem Worded.attempt {s : Session} (h : s.Worded) (source : Text) :
    (s.attempt source).2.Worded ∧ (s.attempt source).2.builtins = s.builtins := by
  rw [Session.attempt, Session.run]
  have hbuiltins := (builtins_passage.holds ampleFuel).runSource source s
  cases hrun : runSource ampleFuel source s with
  | ok u t =>
      rw [hrun] at hbuiltins
      exact ⟨h.runSource (by rw [hrun]; rfl), hbuiltins⟩
  | fault e t =>
      rw [hrun] at hbuiltins
      exact ⟨h.runSource (by rw [hrun]; rfl), hbuiltins⟩
  | starved => exact ⟨h, rfl⟩

namespace Worded

variable {s t : Screen}

theorem same (h : s.Worded) (hstore : t.session.store = s.session.store)
    (hbuiltins : t.session.builtins = s.session.builtins) : t.Worded :=
  ⟨h.session.same hstore, hbuiltins.trans h.builtins⟩

theorem start (settings : Settings) : (Screen.start settings).Worded :=
  ⟨(Session.worded_fresh {} false false).same rfl, builtins_freshSession settings⟩

theorem command (h : s.Worded) (input : Text) : (s.command input).Worded := by
  simp only [Screen.command]
  -- Only a reset touches the session, and a fresh one offers what the first did.
  split
  case h_4 => exact ⟨(start s.settings).session, builtins_freshSession s.settings⟩
  all_goals exact h.same rfl rfl

theorem evaluate (h : s.Worded) (input : Text) : (s.evaluate input).2.Worded := by
  have hflushed : s.session.flushed.Worded := h.session.same rfl
  rcases Worded.attempt hflushed input with ⟨hsession, hbuiltins⟩
  exact ⟨hsession.same rfl, hbuiltins.trans h.builtins⟩

theorem submit (h : s.Worded) : s.submit.Worded := by
  have hcleared : (s.typed []).Worded := h.same rfl rfl
  rw [submit_eq]
  cases s.turn with
  | ignore => exact hcleared
  | command name => exact hcleared.command name
  | hold => exact h.same rfl rfl
  | run input => exact (hcleared.evaluate input).same rfl rfl

theorem update (h : s.Worded) (e : Event) : (s.update e).Worded := by
  cases e with
  | resized w height => exact h.same rfl rfl
  | typed r => exact h.same rfl rfl
  | pressed k =>
      cases k with
      | enter => exact h.submit
      | tab =>
          have hcomplete : s.complete.Worded := by
            simp only [complete]
            split
            · exact h
            · split
              · exact h
              · exact h.same rfl rfl
              · exact h.same rfl rfl
          exact hcomplete
      | up | down =>
          have hshow : ∀ step, (s.showInput step).Worded := by
            rintro ⟨_ | item, history⟩
            · exact h.same rfl rfl
            · exact h.same rfl rfl
          exact hshow _
      | _ => exact h.same rfl rfl

theorem move (h : s.Worded) (hmove : s.Moves t) : t.Worded := by
  cases hmove with
  | event e => exact h.update e
  | edit f _ => exact h.same rfl rfl
  | time clock => exact h.same rfl rfl

end Worded

/-- Names are words on every screen that can come about. -/
theorem Reaches.worded {settings : Settings} {s : Screen} (h : (Screen.start settings).Reaches s) :
    s.Worded := by
  induction h with
  | refl => exact .start settings
  | tail _ hmove ih => exact ih.move hmove

/-- What is offered is a word, wherever it comes from. -/
theorem Worded.isWord {s : Screen} (h : s.Worded) {name : Text} (hname : name ∈ s.words) :
    Lexicon.IsWord name := by
  rcases List.mem_append.mp hname with hname | hname
  · rcases List.mem_append.mp hname with hname | hname
    · rcases List.mem_map.mp hname with ⟨⟨w, k⟩, hmem, rfl⟩
      exact Lexicon.isWord_of_keyword hmem
    · rw [h.builtins] at hname
      rw [List.mem_singleton.mp hname]
      exact Lexicon.isWord_of_spellsWord (by decide +kernel)
  · rcases Option.isSome_iff_exists.mp (Text.Dict.mem_names_iff.mp hname) with ⟨v, hv⟩
    exact h.session.names.bound name v hv

theorem mem_candidates {s : Screen} {word : List Rune} {name : Text} :
    name ∈ s.candidates (Text.ofRunes word) ↔ s.Matches word name := by
  rw [candidates, Text.sort, List.mem_mergeSort, List.mem_eraseDups, List.mem_filter,
    Text.startsWith_iff]
  rfl

/-- Candidates are listed once, in byte order. -/
theorem pairwise_candidates (start : Text) (s : Screen) :
    (s.candidates start).Pairwise (· < ·) :=
  Text.pairwise_sort (nodup_eraseDups _)

/-! ### What the tabulator does -/

/-- One name begins with the word, and no other. -/
def Completes (s : Screen) (word : List Rune) (name : Text) : Prop :=
  word ≠ [] ∧ ∀ n, s.Matches word n ↔ n = name

/-- At least two names begin with the word. -/
def Ambiguous (s : Screen) (word : List Rune) : Prop :=
  word ≠ [] ∧ ∃ a b, a ≠ b ∧ s.Matches word a ∧ s.Matches word b

theorem complete_eq {s : Screen} {before word : List Rune}
    (hlast : lastWord s.field.value = (before, word)) (hword : word ≠ []) :
    s.complete =
      match s.candidates (Text.ofRunes word) with
      | [] => s
      | [only] => { s with field := s.field.setEnding (Text.ofRunes before ++ only) }
      | several => s.record { output := "Completions: " ++ Text.join ", " several } := by
  rw [complete, hlast]
  exact if_neg fun hempty => hword (List.isEmpty_iff.mp hempty)

theorem complete_of_nil {s : Screen} {before : List Rune}
    (hlast : lastWord s.field.value = (before, [])) : s.complete = s := by
  rw [complete, hlast]
  rfl

theorem Completes.candidates {s : Screen} {word : List Rune} {name : Text}
    (h : s.Completes word name) : s.candidates (Text.ofRunes word) = [name] := by
  have hnodup : (s.candidates (Text.ofRunes word)).Nodup :=
    (pairwise_candidates _ s).imp Text.ne_of_lt
  refine List.perm_singleton.mp ((List.perm_ext_iff_of_nodup hnodup (List.nodup_singleton _)).mpr ?_)
  intro n
  rw [mem_candidates, h.2, List.mem_singleton]

theorem completes_of_candidates {s : Screen} {word : List Rune} {name : Text} (hword : word ≠ [])
    (h : s.candidates (Text.ofRunes word) = [name]) : s.Completes word name := by
  refine ⟨hword, fun n => ?_⟩
  rw [← mem_candidates, h, List.mem_singleton]

/-- What the tabulator does to a line, by the number of names that begin with its word. -/
theorem complete_cases {s : Screen} {before word : List Rune}
    (hlast : lastWord s.field.value = (before, word)) :
    (∃ name, s.Completes word name ∧
      s.complete = { s with field := s.field.setEnding (Text.ofRunes before ++ name) }) ∨
    ((∀ name, ¬ s.Completes word name) ∧ s.Ambiguous word ∧
      s.complete = s.record
        { output := "Completions: " ++ Text.join ", " (s.candidates (Text.ofRunes word)) }) ∨
    ((∀ name, ¬ s.Completes word name) ∧ ¬ s.Ambiguous word ∧ s.complete = s) := by
  by_cases hword : word = []
  · rw [hword] at hlast ⊢
    exact Or.inr (Or.inr ⟨fun _ h => h.1 rfl, fun h => h.1 rfl, complete_of_nil hlast⟩)
  have hmem : ∀ n, s.Matches word n ↔ n ∈ s.candidates (Text.ofRunes word) :=
    fun n => mem_candidates.symm
  have heq := complete_eq hlast hword
  have hsorted := pairwise_candidates (Text.ofRunes word) s
  cases hlist : s.candidates (Text.ofRunes word) with
  | nil =>
      rw [hlist] at heq
      simp only [hlist, List.not_mem_nil, iff_false] at hmem
      exact Or.inr (Or.inr ⟨fun name h => hmem name ((h.2 name).mpr rfl),
        fun ⟨_, a, _, _, ha, _⟩ => hmem a ha, heq⟩)
  | cons a rest =>
      cases rest with
      | nil =>
          rw [hlist] at heq
          exact Or.inl ⟨a, completes_of_candidates hword hlist, heq⟩
      | cons b rest =>
          rw [hlist] at heq hsorted
          have ha : s.Matches word a := (hmem a).mpr (hlist ▸ List.mem_cons_self)
          have hb : s.Matches word b :=
            (hmem b).mpr (hlist ▸ List.mem_cons_of_mem a List.mem_cons_self)
          have hne : a ≠ b :=
            Text.ne_of_lt (List.rel_of_pairwise_cons hsorted List.mem_cons_self)
          refine Or.inr (Or.inl ⟨fun name h => hne ?_, ⟨hword, a, b, hne, ha, hb⟩, heq⟩)
          exact ((h.2 a).mp ha).trans ((h.2 b).mp hb).symm

/-! ### A completed word -/

theorem takes_of_continuesWord {r : Nat} (hscalar : Rune.isScalar r = true)
    (h : Rune.continuesWord r = true) : Field.Takes r := by
  refine ⟨hscalar, Rune.ne_replacement_of_continuesWord h, ?_⟩
  by_contra hcontrol
  have hall : ∀ c < 160, Field.isControl c = true → Rune.continuesWord c = false := by
    decide +kernel
  have hlow : r < 160 := by
    have hcases : Field.isControl r = true := Bool.not_eq_false _ ▸ hcontrol
    simp only [Field.isControl, Bool.or_eq_true, Bool.and_eq_true, decide_eq_true_eq] at hcases
    exact hcases.elim (fun hlow => Nat.lt_trans hlow (by decide)) And.right
  rw [hall r hlow (Bool.not_eq_false _ ▸ hcontrol)] at h
  cases h

/-- The characters of a name are all word characters, which a field takes, and spell it. -/
theorem Worded.runes {s : Screen} (h : s.Worded) {name : Text} (hname : name ∈ s.words) :
    (∀ r ∈ name.runes, r.continuesWord = true) ∧ (∀ r ∈ name.runes, Field.Takes r) ∧
      Text.ofRunes name.runes = name := by
  have hcontinues := (h.isWord hname).continuesWord
  refine ⟨hcontinues, fun r hr => takes_of_continuesWord (Text.isScalar_of_mem_runes r hr)
    (hcontinues r hr), Text.ofRunes_runes fun r hr => ?_⟩
  exact Rune.ne_replacement_of_continuesWord (hcontinues r hr)

theorem ofRunes_append (a b : List Rune) :
    Text.ofRunes (a ++ b) = Text.ofRunes a ++ Text.ofRunes b :=
  List.flatMap_append

/-- The line after a word was completed: it has the name where the word was. -/
theorem value_setEnding {f : Field} {before name : List Rune} (hbefore : ∀ r ∈ before, Field.Takes r)
    (hname : ∀ r ∈ name, Field.Takes r) :
    (f.setEnding (Text.ofRunes (before ++ name))).value = (before ++ name).take Field.limit := by
  have htakes : ∀ r ∈ before ++ name, Field.Takes r :=
    fun r hr => (List.mem_append.mp hr).elim (hbefore r) (hname r)
  have hset : (f.setEnding (Text.ofRunes (before ++ name))).value =
      (Field.clean (Text.ofRunes (before ++ name)).runes).take Field.limit :=
    (Field.value_moveTo _ _).trans (Field.value_replace _ f)
  rw [hset, Text.runes_ofRunes fun r hr => (htakes r hr).1, Field.clean_eq_self htakes]

/-- A name that begins with a word byte by byte begins with its characters. -/
theorem Matches.isPrefix {s : Screen} {word : List Rune} {name : Text} (h : s.Matches word name)
    (hword : ∀ r ∈ word, Field.Takes r) : word <+: name.runes := by
  have hruns : (Text.ofRunes word).runes = word := Text.runes_ofRunes fun r hr => (hword r hr).1
  have hstarts := Text.isPrefix_runes h.2 fun c hc => (hword c (hruns ▸ hc)).2.1
  rwa [hruns] at hstarts

/-- The more of the one name stands there, the same name completes it. -/
theorem Completes.of_longer {s t : Screen} {word longer : List Rune} {name : Text}
    (h : s.Completes word name) (hwords : t.words = s.words) (hlonger : word <+: longer)
    (hname : Text.ofRunes longer <+: name) : t.Completes longer name := by
  have hstarts : Text.ofRunes word <+: Text.ofRunes longer := by
    rcases hlonger with ⟨rest, rfl⟩
    exact ofRunes_append word rest ▸ List.prefix_append _ _
  have hmatches : s.Matches word name := (h.2 name).mpr rfl
  refine ⟨fun hnil => h.1 (List.prefix_nil.mp (hnil ▸ hlonger)), fun n => ⟨fun hn => ?_, ?_⟩⟩
  · exact (h.2 n).mp ⟨hwords ▸ hn.1, hstarts.trans hn.2⟩
  · rintro rfl
    exact ⟨hwords ▸ hmatches.1, hname⟩

/-- A word that one name begins with becomes that name, as far as there is room, and
    another tabulator leaves the line as it is. -/
theorem Completes.complete {s : Screen} {before word : List Rune} {name : Text}
    (h : s.Completes word name) (hs : s.Worded) (hf : s.field.Holdable)
    (hvalue : s.field.value = before ++ word) (hword : ∀ c ∈ word, c.continuesWord = true)
    (hbefore : ∀ c, before.getLast? = some c → c.continuesWord = false) :
    s.complete.field.value = (before ++ name.runes).take Field.limit ∧
      s.field.value <+: s.complete.field.value ∧
      s.complete.complete.field.value = s.complete.field.value ∧
      s.complete.complete.transcript = s.complete.transcript := by
  have hmatches : s.Matches word name := (h.2 name).mpr rfl
  rcases hs.runes hmatches.1 with ⟨hcontinues, htakes, hspells⟩
  have htakesBefore : ∀ r ∈ before, Field.Takes r :=
    fun r hr => hf.taken r (hvalue ▸ List.mem_append_left _ hr)
  have htakesWord : ∀ r ∈ word, Field.Takes r :=
    fun r hr => hf.taken r (hvalue ▸ List.mem_append_right _ hr)
  have hlength : before.length + word.length ≤ Field.limit := by
    rw [← List.length_append, ← hvalue]
    exact hf.length
  -- Completing a word that the name completes gives this line, whatever the word is.
  have hline : ∀ {t : Screen} {w : List Rune}, t.Completes w name →
      t.field.value = before ++ w → (∀ c ∈ w, c.continuesWord = true) →
      t.complete.field.value = (before ++ name.runes).take Field.limit ∧
        t.complete.transcript = t.transcript ∧ t.complete.words = t.words := by
    intro t w ht htvalue hw
    have hlast : lastWord t.field.value = (before, w) := htvalue ▸ lastWord_append hw hbefore
    have heq := complete_eq hlast ht.1
    rw [ht.candidates] at heq
    rw [heq]
    refine ⟨?_, rfl, rfl⟩
    have hset := value_setEnding (f := t.field) htakesBefore htakes
    rwa [ofRunes_append, hspells] at hset
  rcases hline h hvalue hword with ⟨hfirst, _, hwords⟩
  -- What there is room for begins with the word and is the word at the end again.
  have htaken : (before ++ name.runes).take Field.limit =
      before ++ name.runes.take (Field.limit - before.length) := by
    rw [List.take_append, List.take_of_length_le (by omega)]
  have hgrown : word <+: name.runes.take (Field.limit - before.length) :=
    List.prefix_take_iff.mpr ⟨hmatches.isPrefix htakesWord, by omega⟩
  have hpart : Text.ofRunes (name.runes.take (Field.limit - before.length)) <+: name := by
    have hsplit := ofRunes_append (name.runes.take (Field.limit - before.length))
      (name.runes.drop (Field.limit - before.length))
    rw [List.take_append_drop, hspells] at hsplit
    exact ⟨_, hsplit.symm⟩
  rcases hline (h.of_longer hwords hgrown hpart) (hfirst.trans htaken)
    (fun c hc => hcontinues c (List.mem_of_mem_take hc)) with ⟨hsecond, hkept, _⟩
  refine ⟨hfirst, ?_, hsecond.trans hfirst.symm, hkept⟩
  rw [hfirst, htaken, hvalue]
  exact (List.prefix_append_right_inj before).mpr hgrown

end Screen

/-- **Completion only extends.** On a screen `s` that can come about, whatever line its
    field holds, the line is `before ++ word` where `word` is the run of word characters
    at its end. The names are the reserved words, the native functions and the global
    names. If the word is not empty and one name begins with it, the tabulator makes the
    line `before` and that name, cut off at the thousandth character. The old line is the
    start of the new one, and another tabulator changes neither the line nor the
    transcript. In all other cases the line is left alone. Names are listed just when the
    word is not empty and at least two begin with it, each of them once and in byte
    order. -/
theorem completion_only_extends {settings : Settings} {s : Screen}
    (hs : (Screen.start settings).Reaches s) (hf : s.field.Holdable) :
    ∃ before word, s.field.value = before ++ word ∧
      (∀ c ∈ word, c.continuesWord = true) ∧
      (∀ c, before.getLast? = some c → c.continuesWord = false) ∧
      (∀ name, s.Completes word name →
        let t := s.update (.pressed .tab)
        t.field.value = (before ++ name.runes).take Field.limit ∧
          (before.length + name.runes.length ≤ Field.limit →
            t.field.value = before ++ name.runes) ∧
          s.field.value <+: t.field.value ∧
          (t.update (.pressed .tab)).field.value = t.field.value ∧
          (t.update (.pressed .tab)).transcript = t.transcript) ∧
      ((∀ name, ¬ s.Completes word name) →
        (s.update (.pressed .tab)).field.value = s.field.value) ∧
      (s.Ambiguous word → ∃ names, names.Pairwise (· < ·) ∧
        (∀ n, n ∈ names ↔ s.Matches word n) ∧
        (s.update (.pressed .tab)).transcript =
          s.transcript ++ [{ output := "Completions: " ++ Text.join ", " names }]) ∧
      (¬ s.Ambiguous word → (s.update (.pressed .tab)).transcript = s.transcript) := by
  rcases Screen.exists_lastWord s.field.value with ⟨before, word, hvalue, hword, hbefore⟩
  have hlast : Screen.lastWord s.field.value = (before, word) :=
    hvalue ▸ Screen.lastWord_append hword hbefore
  refine ⟨before, word, hvalue, hword, hbefore, fun name hname => ?_, fun hnone => ?_,
    fun hseveral => ?_, fun hfew => ?_⟩
  · rcases hname.complete hs.worded hf hvalue hword hbefore with ⟨hline, hgrows, hagain, hkept⟩
    refine ⟨hline, fun hroom => hline.trans (List.take_of_length_le ?_), hgrows, hagain, hkept⟩
    rwa [List.length_append]
  · change s.complete.field.value = s.field.value
    rcases Screen.complete_cases hlast with ⟨name, hname, _⟩ | ⟨_, _, heq⟩ | ⟨_, _, heq⟩
    · exact absurd hname (hnone name)
    · rw [heq]
      rfl
    · rw [heq]
  · refine ⟨s.candidates (Text.ofRunes word), Screen.pairwise_candidates _ s,
      fun n => Screen.mem_candidates, ?_⟩
    change s.complete.transcript = _
    rcases Screen.complete_cases hlast with ⟨name, hname, _⟩ | ⟨_, _, heq⟩ | ⟨_, hfew, _⟩
    · rcases hseveral.2 with ⟨a, b, hne, ha, hb⟩
      exact absurd (((hname.2 a).mp ha).trans ((hname.2 b).mp hb).symm) hne
    · rw [heq]
      rfl
    · exact absurd hseveral hfew
  · change s.complete.transcript = s.transcript
    rcases Screen.complete_cases hlast with ⟨_, _, heq⟩ | ⟨_, hseveral, _⟩ | ⟨_, _, heq⟩
    · rw [heq]
    · exact absurd hseveral hfew
    · rw [heq]

/-- Entering `wham=true;`, and then typing `x+wha`. -/
def whamEvents : List Event :=
  (utf8 "wham=true;").runes.map .typed ++ .pressed .enter :: (utf8 "x+wha").runes.map .typed

/-- The word is completed, and what stands in front of it stays. -/
theorem wham_is_completed :
    let s := whamEvents.foldl (fun s e => s.update e) (Screen.start {})
    let t := s.update (.pressed .tab)
    s.field.value = (utf8 "x+wha").runes ∧ t.field.value = (utf8 "x+wham").runes ∧
      (t.update (.pressed .tab)).field.value = t.field.value ∧
      (t.update (.pressed .tab)).transcript = t.transcript := by
  intro s t
  have hscalar : ∀ r, .typed r ∈ whamEvents → r.isScalar = true := by
    intro r hr
    simp only [whamEvents, List.mem_append, List.mem_cons, List.mem_map, Event.typed.injEq,
      exists_eq_right, reduceCtorEq, false_or] at hr
    exact hr.elim (Text.isScalar_of_mem_runes r) (Text.isScalar_of_mem_runes r)
  have hline : s.field.value = (utf8 "x+wha").runes := by decide +kernel
  have hlast : Screen.lastWord s.field.value = ((utf8 "x+").runes, (utf8 "wha").runes) := by
    decide +kernel
  have hcandidates : s.candidates (Text.ofRunes (utf8 "wha").runes) = [utf8 "wham"] := by
    decide +kernel
  rcases completion_only_extends (Screen.reaches_events whamEvents _)
    (Screen.holdable_of_events {} hscalar) with ⟨before, word, hvalue, hword, hbefore, hone, _⟩
  have hcut := Screen.lastWord_append hword hbefore
  rw [← hvalue, hlast, Prod.mk.injEq] at hcut
  rcases hcut with ⟨rfl, rfl⟩
  have hname := Screen.completes_of_candidates (List.cons_ne_nil _ _) hcandidates
  rcases hone (utf8 "wham") hname with ⟨_, hroom, _, hagain, hkept⟩
  exact ⟨hline, hroom (by decide +kernel), hagain, hkept⟩

/-- Nothing is listed where no word is, although every name begins with it. -/
theorem empty_word_is_not_completed :
    let s := Screen.start {}
    Screen.lastWord s.field.value = ([], []) ∧
      (∃ a b, a ≠ b ∧ s.Matches [] a ∧ s.Matches [] b) ∧
      (s.update (.pressed .tab)).transcript = s.transcript := by
  refine ⟨rfl, ⟨utf8 "if", utf8 "while", by decide +kernel, ?_, ?_⟩, rfl⟩
  · exact ⟨by decide +kernel, List.nil_prefix⟩
  · exact ⟨by decide +kernel, List.nil_prefix⟩

end PocketScript
