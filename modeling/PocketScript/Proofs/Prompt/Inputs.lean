import PocketScript.Prompt.Screen
import PocketScript.Proofs.Parser.Nesting
import PocketScript.Proofs.Scanning.Longest
import PocketScript.Proofs.Text.Lead

/-!
# Both prompts run the same inputs

Lines typed at the line prompt and the same lines entered on the screen are put
together to the same inputs, and leave the same session behind.

The two prompts are written differently. One collects a text and looks for
blanks and dots when the input is complete. The other collects lines and looks
for blanks and dots on the first of them. So both are compared with a third
thing: `turnOf` says what becomes of a line, given the lines held back, and
mentions neither prompt. Each prompt then comes with one lemma that says that its
own decision is that one, and what is left is the same walk over the lines twice.

The decisions agree because of what can be held back. A blank line leaves
nothing open, so the first line held back is never blank, and the leading
character of an input is found on its first line.

What a prompt runs does not show in what it writes. So the decisions are set
apart from what is done about them (`LinePrompt.feed_eq`, `Screen.submit_eq`),
and the inputs that are run are read off the decisions.

## Main definitions

* `Turn`: What becomes of a line.
* `LinePrompt.turn`, `Screen.turn`: What the prompts decide.
* `LinePrompt.runs`, `Screen.runs`: What the prompts run.
* `turnOf`, `inputsOf`: The inputs that lines make up.
* `openers`: The lines that start an input.
* `Session.runAll`: What comes of inputs that are run in a row.

## Theorems

* `exists_opener_of_isUnfinished`: Something opens what is left open.
* `LinePrompt.feed_eq`, `Screen.submit_eq`: Decisions, and what is done.
* `LinePrompt.turn_eq`, `Screen.turn_eq`: Both prompts decide alike.
* `LinePrompt.converse_eq`, `Screen.enteredAll_eq`: Both prompts run the inputs
  that the lines make up.
* `prompts_run_the_same_inputs`: Both prompts run the same inputs.
-/

namespace PocketScript

namespace Scanned.Spelled

variable {g : Glyph} {taken : List Glyph} {k : Kind}

theorem ofWord_not_opener (w : Text) : Kind.ofWord w ≠ .leftParen ∧ Kind.ofWord w ≠ .leftBrace := by
  rw [Kind.ofWord]
  cases hlook : Kind.keywords.lookup w with
  | none => exact ⟨Kind.noConfusion, Kind.noConfusion⟩
  | some kind =>
      rcases List.lookup_eq_some_iff.mp hlook with ⟨before, after, hsplit, _⟩
      have hall : ∀ entry ∈ Kind.keywords, entry.2 ≠ .leftParen ∧ entry.2 ≠ .leftBrace := by
        simp only [Kind.keywords]
        decide
      exact hall (w, kind) (by rw [hsplit]; exact List.mem_append_right _ List.mem_cons_self)

/-- A bracket that opens something is spelled by itself. -/
theorem opener (h : Spelled g taken k) (hk : k = .leftParen ∨ k = .leftBrace) :
    g.code = 40 ∨ g.code = 123 := by
  cases h with
  | single hsingle =>
      revert hsingle
      simp only [Kind.ofSingle?]
      split <;> rcases hk with rfl | rfl <;> simp_all
  | pair hpair =>
      revert hpair
      simp only [Kind.ofPair?]
      split <;> rcases hk with rfl | rfl <;> simp
  | quoted _ _ _ => rcases hk with hk | hk <;> cases hk
  | word _ _ =>
      rcases hk with hk | hk
      · exact absurd hk (ofWord_not_opener _).1
      · exact absurd hk (ofWord_not_opener _).2
  | whole _ _ => rcases hk with hk | hk <;> cases hk
  | fraction _ _ _ _ _ => rcases hk with hk | hk <;> cases hk

end Scanned.Spelled

/-- The characters that leave something open: the quotes and the brackets that
    open something. -/
def Rune.openers : List Rune := [34, 39, 40, 123]

/-- A token that opens something is spelled with a bracket of the source. -/
theorem Scans.exists_opener {p : Position} {gs : List Glyph} {ts : List Token} (h : Scans p gs ts)
    {t : Token} (ht : t ∈ ts) (hopens : t.opens = true) : ∃ g ∈ gs, g.code ∈ Rune.openers := by
  induction h with
  | stop _ =>
      rw [List.mem_singleton.mp ht] at hopens
      cases hopens
  | @token p gap taken rest g kind literal ts _ hread _ ih =>
      rcases List.mem_cons.mp ht with rfl | ht
      · simp only [Token.opens, Bool.or_eq_true, beq_iff_eq] at hopens
        refine ⟨g, List.mem_append_right _ List.mem_cons_self, ?_⟩
        rcases (Scanned.spelled_of_read hread).opener hopens with hg | hg <;> rw [hg] <;> decide
      · rcases ih ht with ⟨f, hf, hopener⟩
        exact ⟨f, List.mem_append_right _ (List.mem_cons_of_mem g (List.mem_append_right _ hf)),
          hopener⟩

/-- A string that is left open starts with a quote of the source. -/
theorem exists_opener_of_unterminated {gs : List Glyph} {e : LexicalFault} :
    ∀ {p : Position}, scanFrom p gs = .error e → e.cause = .unterminatedString →
      ∃ g ∈ gs, g.code ∈ Rune.openers := by
  induction gs using scan_induction with
  | stop gap c hgap =>
      intro p h
      rw [scanFrom_stop hgap] at h
      cases h
  | unexpected gap g rest hgap hg hread =>
      intro p h hcause
      rw [scanFrom_unexpected hgap hg hread] at h
      rw [← Except.error.inj h] at hcause
      cases hcause
  | unterminated gap g rest hgap hg hread =>
      intro p _ _
      have hquote := Scanned.quote_of_unterminated hread
      simp only [Rune.isQuote, Bool.or_eq_true, beq_iff_eq] at hquote
      refine ⟨g, List.mem_append_right _ List.mem_cons_self, ?_⟩
      rcases hquote with hg | hg <;> rw [hg] <;> decide
  | token gap g taken rest kind literal hgap hread ih =>
      intro p h hcause
      rw [scanFrom_gap hgap, scanFrom_token _ hread] at h
      cases hscan : scanFrom ((p.afterAll gap).afterAll (g :: taken)) rest with
      | ok ts =>
          rw [hscan] at h
          cases h
      | error e' =>
          rw [hscan] at h
          rw [← Except.error.inj h] at ih
          rcases ih hscan (Except.error.inj h ▸ hcause) with ⟨f, hf, hopener⟩
          exact ⟨f, List.mem_append_right _ (List.mem_cons_of_mem g (List.mem_append_right _ hf)),
            hopener⟩

/-- Something opens what is left open. -/
theorem exists_opener_of_isUnfinished {source : Text} (h : isUnfinished source = true) :
    ∃ g ∈ source.glyphs, g.code ∈ Rune.openers := by
  rw [isUnfinished, Token.scan] at h
  split at h
  · rename_i e hscan
    exact exists_opener_of_unterminated hscan (beq_iff_eq.mp h)
  · rename_i ts hscan
    have hdepth : 0 < bracketDepth ts := of_decide_eq_true h
    rw [bracketDepth_eq] at hdepth
    have hopens : 0 < ts.countP Token.opens := by omega
    rcases List.countP_pos_iff.mp hopens with ⟨t, ht, hopen⟩
    exact ((scanFrom_eq_ok_iff _ _ _).mp hscan).exists_opener ht hopen

/-- So a blank input leaves nothing open. -/
theorem not_blank_of_isUnfinished {source : Text} (h : isUnfinished source = true) :
    source.trim.isEmpty = false := by
  rcases exists_opener_of_isUnfinished h with ⟨f, hf, hopener⟩
  have hblank : ∀ r ∈ Rune.openers, Rune.isSpace r = false := by decide
  rw [Text.trim_isEmpty, Text.lead?]
  cases hkept : source.glyphs.dropWhile Glyph.isSpace with
  | cons g kept => rfl
  | nil =>
      have hspace : f.code.isSpace = true := List.dropWhile_eq_nil_iff.mp hkept f hf
      rw [hblank _ hopener] at hspace
      cases hspace

/-- What becomes of a line at a prompt: it is held back, or what has been collected
    is dropped, is a command, or is run. -/
inductive Turn where
  | hold
  | ignore
  | command (input : Text)
  | run (input : Text)
deriving Repr, DecidableEq

namespace Turn

/-- The input that is run, if one is. -/
def input? : Turn → Option Text
  | .run input => some input
  | _ => none

/-- What is echoed when a session takes a turn that is no command. -/
def echoed (session : Session) : Turn → Text
  | .run input => (session.attempt input).2.output
  | _ => []

/-- The session after a turn that is no command. -/
def after (session : Session) : Turn → Session
  | .run input => (session.attempt input).2.flushed
  | _ => session

end Turn

namespace LinePrompt

/-- What has been collected, with a line added to it. -/
def gathered (line : Text) (p : LinePrompt) : Text :=
  if p.pending.isEmpty then line else p.pending ++ [Text.lineFeed] ++ line

/-- What becomes of a line. -/
def turn (line : Text) (p : LinePrompt) : Turn :=
  let input := p.gathered line
  if isUnfinished input then .hold
  else if input.trim.isEmpty then .ignore
  else if Text.startsWith "." input.trim then .command input.trim
  else .run input

/-- Nothing is run but what the turn says. -/
theorem feed_eq (line : Text) (p : LinePrompt) :
    p.feed line =
      let fresh := { p with pending := [] }
      let recorded := fun (w : Written × LinePrompt) =>
        ({ w.1 with history := some (Text.replaceByte Text.lineFeed 32 (p.gathered line)) }, w.2)
      match p.turn line with
      | .hold => ({}, { p with pending := p.gathered line })
      | .ignore => ({}, fresh)
      | .command name => recorded (fresh.command name)
      | .run input => recorded (fresh.evaluate input) := by
  simp only [feed, submit, turn, gathered]
  split_ifs <;> rfl

/-- What the line prompt runs, given lines. -/
def runs (p : LinePrompt) : List Text → List Text
  | [] => []
  | line :: rest =>
    let (w, q) := p.feed line
    (p.turn line).input?.toList ++ if w.ends then [] else q.runs rest

end LinePrompt

namespace Screen

/-- The screen with a line in its field. -/
def typed (line : Text) (s : Screen) : Screen := { s with field := s.field.setValue line }

/-- The screen after a line is entered. -/
def entered (line : Text) (s : Screen) : Screen := (s.typed line).update (.pressed .enter)

/-- The screen after lines are entered one by one. -/
def enteredAll (lines : List Text) (s : Screen) : Screen :=
  lines.foldl (fun s line => s.entered line) s

/-- What becomes of the line in the field. -/
def turn (s : Screen) : Turn :=
  let trimmed := s.field.text.trim
  let input := Text.unlines (s.pending ++ [s.field.text])
  if s.pending.isEmpty ∧ trimmed.isEmpty then .ignore
  else if s.pending.isEmpty ∧ Text.startsWith "." trimmed then .command trimmed
  else if isUnfinished input then .hold
  else .run input

/-- Nothing is run but what the turn says. -/
theorem submit_eq (s : Screen) :
    s.submit =
      let cleared := s.typed []
      match s.turn with
      | .ignore => cleared
      | .command name => cleared.command name
      | .hold =>
        { cleared with
          pending := s.pending ++ [s.field.text]
          field := { cleared.field with prompt := s.settings.continuation } }
      | .run input =>
        let (entry, t) := cleared.evaluate input
        { t.record entry with
          pending := []
          field := { t.field with prompt := t.settings.prompt }
          inputs := t.inputs.add (Text.replaceByte Text.lineFeed 32 input) } := by
  simp only [submit, turn, typed]
  split_ifs <;> rfl

/-- What the screen runs, given lines. -/
def runs (s : Screen) : List Text → List Text
  | [] => []
  | line :: rest => (s.typed line).turn.input?.toList ++ (s.entered line).runs rest

/-- What is echoed on the screen, given lines. -/
def echoes (s : Screen) : List Text → Text
  | [] => []
  | line :: rest => (s.typed line).turn.echoed s.session.flushed ++ (s.entered line).echoes rest

end Screen

/-- What becomes of a line, given the lines held back before it. -/
def turnOf (held : List Text) (line : Text) : Turn :=
  let input := Text.unlines (held ++ [line])
  if isUnfinished input then .hold else if input.trim.isEmpty then .ignore else .run input

/-- The lines held back after a line. -/
def heldAfter (held : List Text) (line : Text) : List Text :=
  if isUnfinished (Text.unlines (held ++ [line])) then held ++ [line] else []

/-- The inputs that lines make up, blank ones left out. -/
def inputsOf (held : List Text) : List Text → List Text
  | [] => []
  | line :: rest => (turnOf held line).input?.toList ++ inputsOf (heldAfter held line) rest

/-- The lines that start an input. -/
def openers (held : List Text) : List Text → List Text
  | [] => []
  | line :: rest =>
    (if held.isEmpty then [line] else []) ++ openers (heldAfter held line) rest

/-- What inputs echo if they are run one after the other, and the session after
    them. -/
def Session.runAll (s : Session) : List Text → Text × Session
  | [] => ([], s)
  | input :: rest =>
    let t := (s.attempt input).2
    let (echoed, last) := t.flushed.runAll rest
    (t.output ++ echoed, last)

/-- A text that starts with something other than a dot. -/
def Text.Plain (t : Text) : Prop := ∃ g, t.lead? = some g ∧ Text.startsWith "." g.bytes = false

/-- Lines that can be held back: the first of them is plain. -/
def CanHold (held : List Text) : Prop := ∀ line ∈ held.head?, line.Plain

namespace Text.Plain

variable {t : Text}

theorem unlines (h : t.Plain) (rest : List Text) : (Text.unlines (t :: rest)).Plain := by
  rcases h with ⟨g, hlead, hdot⟩
  exact ⟨g, lead?_unlines hlead rest, hdot⟩

theorem trim_isEmpty (h : t.Plain) : t.trim.isEmpty = false := by
  rcases h with ⟨g, hlead, _⟩
  rw [Text.trim_isEmpty, hlead]
  rfl

theorem startsWith_trim (h : t.Plain) : Text.startsWith "." t.trim = false := by
  rcases h with ⟨g, hlead, hdot⟩
  have hstart := Text.startsWith_trim 46 t
  rw [hlead] at hstart
  exact hstart.trans hdot

/-- Plain lines are those that are not blank and no command. -/
theorem of_trim (hblank : t.trim.isEmpty = false) (hdot : Text.startsWith "." t.trim = false) :
    t.Plain := by
  have hstart := Text.startsWith_trim 46 t
  rw [Text.trim_isEmpty] at hblank
  cases hlead : t.lead? with
  | none =>
      rw [hlead] at hblank
      cases hblank
  | some g =>
      rw [hlead] at hstart
      exact ⟨g, hlead, hstart.symm.trans hdot⟩

theorem ne_nil (h : t.Plain) : t ≠ [] := by
  rintro rfl
  rcases h with ⟨g, hlead, _⟩
  cases hlead

end Text.Plain

theorem unlines_concat {held : List Text} (hne : held ≠ []) (line : Text) :
    Text.unlines (held ++ [line]) = Text.unlines held ++ [Text.lineFeed] ++ line := by
  cases held with
  | nil => exact absurd rfl hne
  | cons first rest =>
      rw [List.cons_append, Layout.unlines_cons, Layout.unlines_cons, Layout.below, Layout.below,
        List.flatMap_append, List.append_assoc, List.append_assoc]
      simp only [List.flatMap_cons, List.flatMap_nil, List.append_nil, List.singleton_append]

section

variable {held : List Text} {line : Text} (hheld : CanHold held)
include hheld

/-- With lines held back an input is never blank and no command. -/
theorem plain_unlines (hne : held ≠ []) : (Text.unlines (held ++ [line])).Plain := by
  cases held with
  | nil => exact absurd rfl hne
  | cons first rest => exact (hheld first rfl).unlines (rest ++ [line])

omit line in
/-- Lines are held back until nothing is open and are then let go. A line is
    ignored only if there are no others. -/
theorem turnOf_cases (line : Text) :
    (turnOf held line = .hold ∧ heldAfter held line = held ++ [line]) ∨
      (turnOf held line = .ignore ∧ heldAfter held line = [] ∧ held = []) ∨
      (turnOf held line = .run (Text.unlines (held ++ [line])) ∧ heldAfter held line = []) := by
  simp only [turnOf, heldAfter]
  split_ifs with hopen hblank
  · exact Or.inl ⟨rfl, rfl⟩
  · refine Or.inr (Or.inl ⟨rfl, rfl, ?_⟩)
    by_contra hne
    rw [(plain_unlines hheld hne).trim_isEmpty] at hblank
    cases hblank
  · exact Or.inr (Or.inr ⟨rfl, rfl⟩)

/-- The line prompt goes by the length of what it has collected. -/
theorem LinePrompt.gathered_eq {p : LinePrompt} (hp : p.pending = Text.unlines held) :
    p.gathered line = Text.unlines (held ++ [line]) := by
  rw [gathered, hp]
  cases held with
  | nil => rfl
  | cons first rest =>
      -- The text could be empty only if the first line were.
      have hne : Text.unlines (first :: rest) ≠ [] := ((hheld first rfl).unlines rest).ne_nil
      rw [List.isEmpty_eq_false_iff.mpr hne, unlines_concat (List.cons_ne_nil first rest)]
      rfl

variable (hline : held = [] → Text.startsWith "." line.trim = false)
include hline

/-- What is held back is never blank and no command. -/
theorem CanHold.heldAfter : CanHold (heldAfter held line) := by
  rw [PocketScript.heldAfter]
  split
  · rename_i hopen
    cases held with
    | cons first rest => exact hheld
    | nil =>
        intro first hfirst
        rw [← Option.some.inj hfirst]
        exact .of_trim (not_blank_of_isUnfinished hopen) (hline rfl)
  · exact fun first hfirst => nomatch hfirst

/-- The line prompt looks for a dot in what it has collected, and finds the dot of
    the first line. -/
theorem LinePrompt.turn_eq {p : LinePrompt} (hp : p.pending = Text.unlines held) :
    p.turn line = turnOf held line := by
  have hdot : Text.startsWith "." (Text.unlines (held ++ [line])).trim = false := by
    by_cases hnil : held = []
    · rw [hnil]
      exact hline hnil
    · exact (plain_unlines hheld hnil).startsWith_trim
  simp only [turn, gathered_eq hheld hp, turnOf, hdot, Bool.false_eq_true, if_false]

/-- The screen looks for blanks and dots on the first line only, and a blank line
    would not have been held back. -/
theorem Screen.turn_eq {s : Screen} (hs : s.pending = held) (htext : s.field.text = line) :
    s.turn = turnOf held line := by
  simp only [turn, turnOf, hs, htext]
  -- On a first line the questions come in another order, blank before unfinished.
  -- No line is both, so the order does not matter.
  by_cases hnil : held = []
  · have hsingle : Text.unlines (held ++ [line]) = line := by rw [hnil]; rfl
    rw [hsingle]
    simp only [hnil, List.isEmpty_nil, true_and, hline hnil, Bool.false_eq_true, if_false]
    by_cases hopen : isUnfinished line = true
    · simp only [hopen, not_blank_of_isUnfinished hopen, Bool.false_eq_true, if_false, if_true]
    · simp only [hopen, Bool.false_eq_true, if_false]
  · have hsome : held.isEmpty = false := List.isEmpty_eq_false_iff.mpr hnil
    simp only [hsome, (plain_unlines hheld hnil).trim_isEmpty, Bool.false_eq_true, false_and,
      if_false]

end

namespace LinePrompt

/-- The prompt has held these lines back, and has written everything out. -/
structure Holds (held : List Text) (p : LinePrompt) : Prop where
  pending : p.pending = Text.unlines held
  flushed : p.session.flushed = p.session

/-- What a line does to the line prompt. -/
theorem feed_turn {held : List Text} {line : Text} {p : LinePrompt} (hheld : CanHold held)
    (hline : held = [] → Text.startsWith "." line.trim = false) (hp : p.Holds held) :
    (p.feed line).1.ends = false ∧
      (p.feed line).1.out = (turnOf held line).echoed p.session ∧
      (p.feed line).2.session = (turnOf held line).after p.session ∧
      (p.feed line).2.Holds (heldAfter held line) := by
  rw [feed_eq, turn_eq hheld hline hp.pending]
  rcases turnOf_cases hheld line with ⟨hturn, hafter⟩ | ⟨hturn, hafter, _⟩ | ⟨hturn, hafter⟩
  · rw [hturn, hafter]
    exact ⟨rfl, rfl, rfl, gathered_eq hheld hp.pending, hp.flushed⟩
  · rw [hturn, hafter]
    exact ⟨rfl, rfl, rfl, rfl, hp.flushed⟩
  · rw [hturn, hafter]
    exact ⟨rfl, rfl, rfl, rfl, rfl⟩

end LinePrompt

namespace Field

@[simp] theorem value_scroll (f : Field) : f.scroll.value = f.value := by
  simp only [scroll]
  split_ifs <;> rfl

@[simp] theorem value_moveTo (n : Nat) (f : Field) : (f.moveTo n).value = f.value :=
  value_scroll _

@[simp] theorem value_replace (rs : List Rune) (f : Field) :
    (f.replace rs).value = rs.take limit := by
  simp only [replace]
  split_ifs
  · exact value_moveTo _ _
  · exact value_scroll _

theorem text_setValue (t : Text) (f : Field) :
    (f.setValue t).text = Text.ofRunes ((clean t.runes).take limit) := by
  rw [text, setValue, value_replace]

/-- A line that every field takes as it is. -/
def Accepts (line : Text) : Prop := ∀ f : Field, (f.setValue line).text = line

end Field

namespace Screen

/-- The screen has held these lines back, and shows everything that was echoed. -/
structure Holds (held : List Text) (s : Screen) : Prop where
  pending : s.pending = held
  flushed : s.session.flushed = s.session

/-- What a line does to the screen. -/
theorem entered_turn {held : List Text} {line : Text} {s : Screen} (hheld : CanHold held)
    (hline : held = [] → Text.startsWith "." line.trim = false) (hs : s.Holds held)
    (haccepts : Field.Accepts line) :
    (s.typed line).turn = turnOf held line ∧
      (s.entered line).session = (turnOf held line).after s.session ∧
      (s.entered line).Holds (heldAfter held line) := by
  have hturn : (s.typed line).turn = turnOf held line :=
    turn_eq hheld hline hs.pending (haccepts s.field)
  have hentered : s.entered line = (s.typed line).submit := rfl
  refine ⟨hturn, ?_⟩
  rw [hentered, submit_eq, hturn]
  -- An ignored line leaves what is held back alone here and clears it in the
  -- specification, so it counts that there was nothing.
  rcases turnOf_cases hheld line with ⟨hcase, hafter⟩ | ⟨hcase, hafter, hnil⟩ | ⟨hcase, hafter⟩
  · have htext : (s.typed line).field.text = line := haccepts s.field
    have hpending : (s.typed line).pending = held := hs.pending
    rw [hcase, hafter]
    exact ⟨rfl, congrArg₂ (fun lines line => lines ++ [line]) hpending htext, hs.flushed⟩
  · rw [hcase, hafter]
    exact ⟨rfl, hs.pending.trans hnil, hs.flushed⟩
  · rw [hcase, hafter]
    refine ⟨?_, rfl, rfl⟩
    change (s.session.flushed.attempt _).2.flushed = (s.session.attempt _).2.flushed
    rw [hs.flushed]

end Screen

theorem Session.runAll_turn (s : Session) (turn : Turn) (rest : List Text) :
    s.runAll (turn.input?.toList ++ rest) =
      (turn.echoed s ++ ((turn.after s).runAll rest).1, ((turn.after s).runAll rest).2) := by
  cases turn <;> rfl

theorem openers_cons {held : List Text} {line : Text} {rest : List Text}
    (h : ∀ first ∈ openers held (line :: rest), Text.startsWith "." first.trim = false) :
    (held = [] → Text.startsWith "." line.trim = false) ∧
      ∀ first ∈ openers (heldAfter held line) rest, Text.startsWith "." first.trim = false := by
  rw [openers] at h
  refine ⟨fun hnil => h line (List.mem_append_left _ ?_), fun first hfirst =>
    h first (List.mem_append_right _ hfirst)⟩
  rw [hnil]
  exact List.mem_singleton_self line

/-- The line prompt runs the inputs that the lines make up. -/
theorem LinePrompt.converse_eq (lines : List Text) : ∀ {held : List Text} {p : LinePrompt},
    CanHold held → (∀ line ∈ openers held lines, Text.startsWith "." line.trim = false) →
    p.Holds held →
    p.runs lines = inputsOf held lines ∧
      (p.converse lines).1.flatMap (fun exchange => exchange.written.out) =
        (p.session.runAll (inputsOf held lines)).1 ++ farewell ∧
      (p.converse lines).2.2.session = (p.session.runAll (inputsOf held lines)).2 := by
  induction lines with
  | nil => exact fun _ _ _ => ⟨rfl, rfl, rfl⟩
  | cons line rest ih =>
      intro held p hheld hopeners hp
      rcases openers_cons hopeners with ⟨hline, hrest⟩
      rcases feed_turn hheld hline hp with ⟨hends, hout, hsession, hnext⟩
      rcases ih (hheld.heldAfter hline) hrest hnext with ⟨hruns, houts, hlast⟩
      rw [hsession] at houts hlast
      simp only [runs, converse, inputsOf, hends, Bool.false_eq_true, if_false,
        turn_eq hheld hline hp.pending, Session.runAll_turn, List.flatMap_cons, hout, hruns, houts,
        hlast, List.append_assoc, and_self]

/-- So does the screen. -/
theorem Screen.enteredAll_eq (lines : List Text) : ∀ {held : List Text} {s : Screen},
    CanHold held → (∀ line ∈ openers held lines, Text.startsWith "." line.trim = false) →
    (∀ line ∈ lines, Field.Accepts line) → s.Holds held →
    s.runs lines = inputsOf held lines ∧
      s.echoes lines = (s.session.runAll (inputsOf held lines)).1 ∧
      (s.enteredAll lines).session = (s.session.runAll (inputsOf held lines)).2 := by
  induction lines with
  | nil => exact fun _ _ _ _ => ⟨rfl, rfl, rfl⟩
  | cons line rest ih =>
      intro held s hheld hopeners haccepts hs
      rcases openers_cons hopeners with ⟨hline, hrest⟩
      rcases List.forall_mem_cons.mp haccepts with ⟨haccepts, hothers⟩
      rcases entered_turn hheld hline hs haccepts with ⟨hturn, hsession, hnext⟩
      rcases ih (hheld.heldAfter hline) hrest hothers hnext with ⟨hruns, hechoes, hlast⟩
      rw [hsession] at hechoes hlast
      have hall : s.enteredAll (line :: rest) = (s.entered line).enteredAll rest := rfl
      simp only [runs, echoes, inputsOf, hall, hturn, hs.flushed, Session.runAll_turn, hruns,
        hechoes, hlast, and_self]

/-- **Both prompts run the same inputs.** Lines that a field takes as they are,
    none of which starts an input with a dot, are put together to the same inputs
    by both prompts, whatever the clock. The session is the same afterwards, its
    bindings included, and the line prompt has written what was echoed on the
    screen. -/
theorem prompts_run_the_same_inputs (settings : Settings) (clock : Clock) (lines : List Text)
    (haccepts : ∀ line ∈ lines, Field.Accepts line)
    (hopeners : ∀ line ∈ openers [] lines, Text.startsWith "." line.trim = false) :
    let session := { LinePrompt.freshSession settings with clock := clock }
    let p : LinePrompt := { LinePrompt.start settings with session := session }
    let s : Screen := { Screen.start settings with session := session }
    p.runs lines = s.runs lines ∧
      (p.converse lines).2.2.session = (s.enteredAll lines).session ∧
      (p.converse lines).1.flatMap (fun exchange => exchange.written.out) =
        s.echoes lines ++ LinePrompt.farewell := by
  intro session p s
  have hempty : CanHold [] := fun line hline => nomatch hline
  rcases LinePrompt.converse_eq lines (p := p) hempty hopeners ⟨rfl, rfl⟩ with
    ⟨hruns, hout, hsession⟩
  rcases Screen.enteredAll_eq lines (s := s) hempty hopeners haccepts ⟨rfl, rfl⟩ with
    ⟨hruns', hout', hsession'⟩
  exact ⟨hruns.trans hruns'.symm, hsession.trans hsession'.symm,
    hout.trans (congrArg (· ++ LinePrompt.farewell) hout'.symm)⟩

/-- The lines `s = "a`, an empty one, `.b";`, a blank one and `echo s;`. The dot
    stands inside a string. -/
def dottedLines : List Text :=
  [utf8 "s = \"a", [], utf8 ".b\";", utf8 "  ", utf8 "echo s;"]

theorem dottedLines_run_alike :
    openers [] dottedLines =
        [utf8 "s = \"a", utf8 "  ", utf8 "echo s;"] ∧
      let p := LinePrompt.start {}
      let s := Screen.start {}
      p.runs dottedLines = s.runs dottedLines ∧
        (p.converse dottedLines).2.2.session = (s.enteredAll dottedLines).session ∧
        (p.converse dottedLines).1.flatMap (fun exchange => exchange.written.out) =
          s.echoes dottedLines ++ LinePrompt.farewell := by
  have hopeners : openers [] dottedLines =
      [utf8 "s = \"a", utf8 "  ", utf8 "echo s;"] := by cbv
  have haccepts : ∀ line ∈ dottedLines,
      Text.ofRunes ((Field.clean line.runes).take Field.limit) = line := by decide
  refine ⟨hopeners, prompts_run_the_same_inputs {} {} dottedLines
    (fun line hline f => (Field.text_setValue line f).trans (haccepts line hline)) ?_⟩
  rw [hopeners]
  decide

end PocketScript
