import Mathlib.Data.List.Induction
import PocketScript.Proofs.Value.Store
import PocketScript.Server.Handle

/-!
# Answers and documents

What the server owes for its messages. Whoever asks gets one answer with the
identifier of the question, whoever does not ask gets none, and a message about a
document is followed by the diagnostics of that document and by nothing else.

Over a whole conversation this keeps three things in step: the text that a
document has, the last message that was about it, and the diagnostics that were
published for it last.

All of it is read off one lemma, `handled_handle`, which says what a message can
do: it is about a document, it is passed over, or it is a question. `Request.Tells`
states which messages are about a document and what they say, without a mention
of what the server does about them.

## Main definitions

* `Request.Tells`: What a message says about a document.
* `Outgoing.answered?`: The question that is answered.
* `Outgoing.publishedFor?`: The diagnostics published for a document.
* `Handled`: What a message can do.
* `handleAll`: A whole conversation.
* `StandsLast`: The last message about a document gives it a text.

## Theorems

* `Request.Tells.unique`: A message says one thing about one document.
* `handled_handle`: Every message does one of the things that it can do.
* `handleAll_append`: A conversation that goes on.
* `find?_handleAll`: A document has the text that the last message gave it.
* `eq_diagnosticsOf_of_published`: The last diagnostics are those of the text.
* `server_answers_and_publishes`: All of this over every conversation.
-/

namespace PocketScript

namespace Request

/-- The methods that ask for something. -/
def asking : List Text :=
  ["initialize", "shutdown", "textDocument/completion", "textDocument/hover"]

/-- The methods that tell something about a document. -/
def aboutDocuments : List Text :=
  ["textDocument/didOpen", "textDocument/didChange", "textDocument/didClose"]

/-- The methods that are known. -/
def known : List Text := asking ++ aboutDocuments ++ [utf8 "initialized", utf8 "exit"]

/-- What a readable message says about a document: the text that it has from now
    on, or that it has none. Of several changes the last one counts. -/
inductive Tells (decoder : Decoder) (r : Request) : Text → Option Text → Prop where
  | opens {d : DocumentText} (hmethod : r.method = utf8 "textDocument/didOpen")
      (hparams : r.params.bind decoder.opened = some d) : Tells decoder r d.uri (some d.text)
  | changes {d : DocumentChanges} {text : Text}
      (hmethod : r.method = utf8 "textDocument/didChange")
      (hparams : r.params.bind decoder.changed = some d)
      (hlast : d.texts.getLast? = some text) : Tells decoder r d.uri (some text)
  | closes {uri : Text} (hmethod : r.method = utf8 "textDocument/didClose")
      (hparams : r.params.bind decoder.closed = some uri) : Tells decoder r uri none

namespace Tells

variable {decoder : Decoder} {r : Request} {uri uri' : Text} {text? text?' : Option Text}

theorem method_mem (h : r.Tells decoder uri text?) : r.method ∈ aboutDocuments := by
  cases h with
  | opens hmethod _ => rw [hmethod]; decide
  | changes hmethod _ _ => rw [hmethod]; decide
  | closes hmethod _ => rw [hmethod]; decide

theorem opened (h : r.Tells decoder uri text?) (hopen : r.method = utf8 "textDocument/didOpen") :
    ∃ d, r.params.bind decoder.opened = some d ∧ d.uri = uri ∧ some d.text = text? := by
  cases h with
  | opens _ hparams => exact ⟨_, hparams, rfl, rfl⟩
  | changes hmethod _ _ => exact absurd (hopen.symm.trans hmethod) (by decide)
  | closes hmethod _ => exact absurd (hopen.symm.trans hmethod) (by decide)

theorem changed (h : r.Tells decoder uri text?)
    (hchange : r.method = utf8 "textDocument/didChange") :
    ∃ d, r.params.bind decoder.changed = some d ∧ d.uri = uri ∧
      d.texts.getLast? = text? ∧ text? ≠ none := by
  cases h with
  | opens hmethod _ => exact absurd (hchange.symm.trans hmethod) (by decide)
  | changes _ hparams hlast => exact ⟨_, hparams, rfl, hlast, Option.some_ne_none _⟩
  | closes hmethod _ => exact absurd (hchange.symm.trans hmethod) (by decide)

theorem closed (h : r.Tells decoder uri text?) (hclose : r.method = utf8 "textDocument/didClose") :
    r.params.bind decoder.closed = some uri ∧ text? = none := by
  cases h with
  | opens hmethod _ => exact absurd (hclose.symm.trans hmethod) (by decide)
  | changes hmethod _ _ => exact absurd (hclose.symm.trans hmethod) (by decide)
  | closes _ hparams => exact ⟨hparams, rfl⟩

/-- A message says one thing about one document. -/
theorem unique (h : r.Tells decoder uri text?) (h' : r.Tells decoder uri' text?') :
    uri = uri' ∧ text? = text?' := by
  cases h with
  | opens hmethod hparams =>
      rcases h'.opened hmethod with ⟨d, hparams', huri, htext⟩
      rw [Option.some.inj (hparams.symm.trans hparams')]
      exact ⟨huri, htext⟩
  | changes hmethod hparams hlast =>
      rcases h'.changed hmethod with ⟨d, hparams', huri, htext, _⟩
      rw [Option.some.inj (hparams.symm.trans hparams')] at hlast ⊢
      exact ⟨huri, hlast.symm.trans htext⟩
  | closes hmethod hparams =>
      rcases h'.closed hmethod with ⟨hparams', htext⟩
      exact ⟨Option.some.inj (hparams.symm.trans hparams'), htext.symm⟩

end Tells

end Request

namespace Outgoing

/-- The identifier of the question that a message answers. -/
def answered? : Outgoing → Option Json
  | .response id _ => some id
  | .refusal id _ _ => some id
  | .publish _ _ => none

/-- The diagnostics that a message publishes for a document. -/
def publishedFor? (uri : Text) : Outgoing → Option (List Diagnostic)
  | .publish u diagnostics => if u = uri then some diagnostics else none
  | _ => none

theorem publishedFor?_of_answered? {m : Outgoing} {i : Json} (h : m.answered? = some i)
    (uri : Text) : m.publishedFor? uri = none := by
  cases m with
  | response _ _ => rfl
  | refusal _ _ _ => rfl
  | publish _ _ => cases h

end Outgoing

/-- The documents once one of them has a text, or none. -/
def Documents.told (uri : Text) (text? : Option Text) (docs : Documents) : Documents :=
  match text? with
  | some text => Text.Dict.insert uri text docs
  | none => Text.Dict.erase uri docs

theorem Documents.find?_told (uri uri' : Text) (text? : Option Text) (docs : Documents) :
    Text.Dict.find? uri' (docs.told uri text?) =
      if uri' = uri then text? else Text.Dict.find? uri' docs := by
  cases text? with
  | some text => exact Text.Dict.find?_insert uri uri' text docs
  | none => exact Text.Dict.find?_erase uri uri' docs

/-- The diagnostics of a document that has a text or none. -/
def diagnosticsOf (text? : Option Text) : List Diagnostic := text?.elim [] diagnose

/-- What a message can do. If it says something about a document, the document is
    changed and its diagnostics follow. Else the documents stay as they are: a
    message that asks for nothing is passed over, and all others are answered if
    they have an identifier. -/
inductive Handled (decoder : Decoder) (docs : Documents) (r : Request) :
    Documents × List Outgoing → Prop where
  | told {uri : Text} {text? : Option Text} (htells : r.Tells decoder uri text?) :
      Handled decoder docs r (docs.told uri text?, [.publish uri (diagnosticsOf text?)])
  | passed (hmethod : r.method ∈ Request.known) (hasking : r.method ∉ Request.asking)
      (htells : ∀ uri text?, ¬ r.Tells decoder uri text?) : Handled decoder docs r (docs, [])
  | asked (answer : Json → Outgoing) (hanswer : ∀ i, (answer i).answered? = some i)
      (hmethod : r.method ∉ Request.aboutDocuments) :
      Handled decoder docs r (docs, (r.id.map answer).toList)

theorem handled_handle (decoder : Decoder) (docs : Documents) (r : Request) :
    Handled decoder docs r (handle decoder docs r) := by
  rw [handle]
  by_cases hinit : r.method = utf8 "initialize"
  · rw [if_pos hinit]
    exact .asked _ (fun i => rfl) (by rw [hinit]; decide)
  rw [if_neg hinit]
  by_cases hnotice : r.method = utf8 "initialized" ∨ r.method = utf8 "exit"
  · rw [if_pos hnotice]
    rcases hnotice with hmethod | hmethod
    · exact .passed (by rw [hmethod]; decide) (by rw [hmethod]; decide)
        (fun _ _ htells => absurd htells.method_mem (by rw [hmethod]; decide))
    · exact .passed (by rw [hmethod]; decide) (by rw [hmethod]; decide)
        (fun _ _ htells => absurd htells.method_mem (by rw [hmethod]; decide))
  rw [if_neg hnotice]
  by_cases hshut : r.method = utf8 "shutdown"
  · rw [if_pos hshut]
    exact .asked _ (fun i => rfl) (by rw [hshut]; decide)
  rw [if_neg hshut]
  by_cases hopen : r.method = utf8 "textDocument/didOpen"
  · rw [if_pos hopen]
    cases hparams : r.params.bind decoder.opened with
    | some d => exact .told (.opens hopen hparams)
    | none =>
        refine .passed (by rw [hopen]; decide) (by rw [hopen]; decide) fun uri text? htells => ?_
        rcases htells.opened hopen with ⟨d, hparams', _⟩
        cases hparams.symm.trans hparams'
  rw [if_neg hopen]
  by_cases hchange : r.method = utf8 "textDocument/didChange"
  · rw [if_pos hchange]
    have hnothing :
        (∀ uri text?, ¬ r.Tells decoder uri text?) → Handled decoder docs r (docs, []) :=
      .passed (by rw [hchange]; decide) (by rw [hchange]; decide)
    cases hparams : r.params.bind decoder.changed with
    | none =>
        refine hnothing fun uri text? htells => ?_
        rcases htells.changed hchange with ⟨d, hparams', _⟩
        cases hparams.symm.trans hparams'
    | some d =>
        simp only []
        cases hlast : d.texts.getLast? with
        | some text => exact .told (.changes hchange hparams hlast)
        | none =>
            -- The parameters are readable, but they list no change.
            refine hnothing fun uri text? htells => ?_
            rcases htells.changed hchange with ⟨d', hparams', _, htext, hne⟩
            rw [← Option.some.inj (hparams.symm.trans hparams'), hlast] at htext
            exact hne htext.symm
  rw [if_neg hchange]
  by_cases hclose : r.method = utf8 "textDocument/didClose"
  · rw [if_pos hclose]
    cases hparams : r.params.bind decoder.closed with
    | some uri => exact .told (.closes hclose hparams)
    | none =>
        refine .passed (by rw [hclose]; decide) (by rw [hclose]; decide) fun uri text? htells => ?_
        cases hparams.symm.trans (htells.closed hclose).1
  rw [if_neg hclose]
  have habout : r.method ∉ Request.aboutDocuments := by
    simp only [Request.aboutDocuments, List.mem_cons, List.not_mem_nil, hopen, hchange, hclose,
      or_self, not_false_iff]
  by_cases hcompletion : r.method = utf8 "textDocument/completion"
  · rw [if_pos hcompletion]
    exact .asked _ (fun i => rfl) habout
  rw [if_neg hcompletion]
  by_cases hhover : r.method = utf8 "textDocument/hover"
  · rw [if_pos hhover]
    cases r.params.bind decoder.cursor with
    | some c => exact .asked _ (fun i => rfl) habout
    | none => exact .asked _ (fun i => rfl) habout
  rw [if_neg hhover]
  exact .asked _ (fun i => rfl) habout

section

variable {decoder : Decoder} (docs : Documents) {r : Request}

/-- A message about a document is followed by the diagnostics of that document. -/
theorem handle_of_tells {uri : Text} {text? : Option Text} (h : r.Tells decoder uri text?) :
    handle decoder docs r = (docs.told uri text?, [.publish uri (diagnosticsOf text?)]) := by
  have hhandled := handled_handle decoder docs r
  generalize handle decoder docs r = result at hhandled ⊢
  cases hhandled with
  | told htells =>
      rcases h.unique htells with ⟨rfl, rfl⟩
      rfl
  | passed _ _ htells => exact absurd h (htells uri text?)
  | asked _ _ hmethod => exact absurd h.method_mem hmethod

/-- A message that should be about a document, but cannot be read, does nothing. -/
theorem handle_of_unreadable (hmethod : r.method ∈ Request.aboutDocuments)
    (htells : ∀ uri text?, ¬ r.Tells decoder uri text?) : handle decoder docs r = (docs, []) := by
  have hhandled := handled_handle decoder docs r
  generalize handle decoder docs r = result at hhandled ⊢
  cases hhandled with
  | told htells' => exact absurd htells' (htells _ _)
  | passed _ _ _ => rfl
  | asked _ _ hmethod' => exact absurd hmethod hmethod'

theorem exists_answer {i : Json} (hid : r.id = some i)
    (hmethod : r.method ∈ Request.asking ∨ r.method ∉ Request.known) :
    ∃ m, (handle decoder docs r).2 = [m] ∧ m.answered? = some i := by
  have hhandled := handled_handle decoder docs r
  generalize handle decoder docs r = result at hhandled ⊢
  cases hhandled with
  | told htells =>
      have hasking : ∀ method ∈ Request.aboutDocuments,
          method ∉ Request.asking ∧ method ∈ Request.known := by decide
      rcases hmethod with hmethod | hmethod
      · exact absurd hmethod (hasking _ htells.method_mem).1
      · exact absurd (hasking _ htells.method_mem).2 hmethod
  | passed hknown hasking _ =>
      rcases hmethod with hmethod | hmethod
      · exact absurd hmethod hasking
      · exact absurd hknown hmethod
  | asked answer hanswer _ =>
      rw [hid]
      exact ⟨answer i, rfl, hanswer i⟩

theorem answered?_eq_none (hid : r.id = none) :
    ∀ m ∈ (handle decoder docs r).2, m.answered? = none := by
  have hhandled := handled_handle decoder docs r
  generalize handle decoder docs r = result at hhandled ⊢
  cases hhandled with
  | told _ =>
      intro m hm
      rw [List.mem_singleton.mp hm]
      rfl
  | passed _ _ _ => exact List.forall_mem_nil _
  | asked answer _ _ =>
      rw [hid]
      exact List.forall_mem_nil _

/-- What is shown for a word depends on the text of its document, and on nothing
    else that the server knows. -/
theorem handle_hover_congr {docs docs' : Documents}
    (hmethod : r.method = utf8 "textDocument/hover")
    (hdocs : ∀ c, r.params.bind decoder.cursor = some c →
      Text.Dict.find? c.uri docs = Text.Dict.find? c.uri docs') :
    (handle decoder docs r).2 = (handle decoder docs' r).2 := by
  have hhandle : ∀ docs : Documents, (handle decoder docs r).2 =
      (r.params.bind decoder.cursor).elim (refuse r.id (-32602) "invalid hover params")
        fun c => respond r.id (hover docs c) := by
    intro docs
    rw [handle, hmethod]
    iterate 7 rw [if_neg (by decide)]
    rw [if_pos rfl]
    cases r.params.bind decoder.cursor <;> rfl
  rw [hhandle, hhandle]
  cases hparams : r.params.bind decoder.cursor with
  | none => rfl
  | some c => simp only [Option.elim_some, hover, hdocs c hparams]

end

/-- A conversation, from given documents: the documents at its end, and what was
    sent. -/
def handleAll (decoder : Decoder) (docs : Documents) : List Request → Documents × List Outgoing
  | [] => (docs, [])
  | r :: rest =>
    let (docs, sent) := handle decoder docs r
    let (docs, more) := handleAll decoder docs rest
    (docs, sent ++ more)

theorem handleAll_append (decoder : Decoder) (docs : Documents) (history later : List Request) :
    handleAll decoder docs (history ++ later) =
      ((handleAll decoder (handleAll decoder docs history).1 later).1,
        (handleAll decoder docs history).2 ++
          (handleAll decoder (handleAll decoder docs history).1 later).2) := by
  induction history generalizing docs with
  | nil => rfl
  | cons first rest ih => simp only [List.cons_append, handleAll, ih, List.append_assoc]

theorem handleAll_concat (decoder : Decoder) (docs : Documents) (history : List Request)
    (r : Request) :
    handleAll decoder docs (history ++ [r]) =
      ((handle decoder (handleAll decoder docs history).1 r).1,
        (handleAll decoder docs history).2 ++
          (handle decoder (handleAll decoder docs history).1 r).2) := by
  simp only [handleAll_append, handleAll, List.append_nil]

/-- The last message about a document gives it a text. -/
def StandsLast (decoder : Decoder) (uri text : Text) (history : List Request) : Prop :=
  ∃ before r after, history = before ++ r :: after ∧ r.Tells decoder uri (some text) ∧
    ∀ later ∈ after, ∀ text?, ¬ later.Tells decoder uri text?

theorem standsLast_concat {decoder : Decoder} {uri text : Text} {history : List Request}
    {r : Request} :
    StandsLast decoder uri text (history ++ [r]) ↔
      r.Tells decoder uri (some text) ∨
        ((∀ text?, ¬ r.Tells decoder uri text?) ∧ StandsLast decoder uri text history) := by
  constructor
  · rintro ⟨before, m, after, hsplit, htells, hafter⟩
    rcases List.eq_nil_or_concat after with rfl | ⟨others, last, rfl⟩
    · rw [(List.append_singleton_inj.mp hsplit).2]
      exact Or.inl htells
    · rw [List.concat_eq_append] at hsplit hafter
      rw [← List.cons_append, ← List.append_assoc] at hsplit
      rcases List.append_singleton_inj.mp hsplit with ⟨hhistory, rfl⟩
      refine Or.inr ⟨hafter r (List.mem_append_right _ (List.mem_singleton_self r)), before, m,
        others, hhistory, htells, fun later hlater => ?_⟩
      exact hafter later (List.mem_append_left _ hlater)
  · rintro (htells | ⟨hother, before, m, after, rfl, htells, hafter⟩)
    · exact ⟨history, r, [], rfl, htells, List.forall_mem_nil _⟩
    · refine ⟨before, m, after ++ [r], by simp only [List.append_assoc, List.cons_append], htells,
        fun later hlater => ?_⟩
      rcases List.mem_append.mp hlater with hlater | hlater
      · exact hafter later hlater
      · rw [List.mem_singleton.mp hlater]
        exact hother

/-- A message about something else changes nothing about that. -/
theorem standsLast_concat_of_not_tells {decoder : Decoder} {uri text : Text}
    {history : List Request} {r : Request}
    (h : ∀ text?, ¬ r.Tells decoder uri text?) :
    StandsLast decoder uri text (history ++ [r]) ↔ StandsLast decoder uri text history := by
  rw [standsLast_concat]
  constructor
  · rintro (htells | ⟨_, hstands⟩)
    · exact absurd htells (h _)
    · exact hstands
  · exact fun hstands => Or.inr ⟨h, hstands⟩

/-- A document has the text that the last message about it gave it. -/
theorem find?_handleAll (decoder : Decoder) (history : List Request) (uri text : Text) :
    Text.Dict.find? uri (handleAll decoder [] history).1 = some text ↔
      StandsLast decoder uri text history := by
  induction history using List.reverseRecOn with
  | nil =>
      constructor
      · intro h
        cases h
      · rintro ⟨before, r, after, hsplit, _⟩
        cases before <;> cases hsplit
  | append_singleton history r ih =>
      rw [handleAll_concat]
      have hhandled := handled_handle decoder (handleAll decoder [] history).1 r
      generalize handle decoder (handleAll decoder [] history).1 r = result at hhandled ⊢
      cases hhandled with
      | @told uri' text? htells =>
          rw [Documents.find?_told]
          by_cases huri : uri = uri'
          · subst huri
            rw [if_pos rfl, standsLast_concat]
            constructor
            · rintro rfl
              exact Or.inl htells
            · rintro (htells' | ⟨hother, _⟩)
              · exact (htells.unique htells').2
              · exact absurd htells (hother text?)
          · rw [if_neg huri, ih]
            exact (standsLast_concat_of_not_tells fun _ h => huri (h.unique htells).1).symm
      | passed _ _ htells =>
          rw [ih]
          exact (standsLast_concat_of_not_tells (htells uri)).symm
      | asked _ _ hmethod =>
          rw [ih]
          exact (standsLast_concat_of_not_tells fun _ h => hmethod h.method_mem).symm

/-- The diagnostics that were published last for a document are those of its text. -/
theorem eq_diagnosticsOf_of_published (decoder : Decoder) (history : List Request) (uri : Text) :
    ∀ diagnostics ∈
        ((handleAll decoder [] history).2.filterMap (Outgoing.publishedFor? uri)).getLast?,
      diagnostics = diagnosticsOf (Text.Dict.find? uri (handleAll decoder [] history).1) := by
  induction history using List.reverseRecOn with
  | nil =>
      intro diagnostics h
      cases h
  | append_singleton history r ih =>
      rw [handleAll_concat, List.filterMap_append]
      have hhandled := handled_handle decoder (handleAll decoder [] history).1 r
      generalize handle decoder (handleAll decoder [] history).1 r = result at hhandled ⊢
      cases hhandled with
      | @told uri' text? htells =>
          rw [Documents.find?_told]
          by_cases huri : uri = uri'
          · subst huri
            simp [Outgoing.publishedFor?]
          · simpa [Outgoing.publishedFor?, huri, Ne.symm huri] using ih
      | passed _ _ _ => simpa using ih
      | asked answer hanswer _ =>
          have hnone : (r.id.map answer).toList.filterMap (Outgoing.publishedFor? uri) = [] := by
            cases r.id with
            | none => rfl
            | some i => simp [Outgoing.publishedFor?_of_answered? (hanswer i)]
          rw [hnone, List.append_nil]
          exact ih

/-- **The server answers what it is asked and publishes what it knows.** However its
    messages are read, after any conversation, with `docs` the documents at its end:

    * a message with an identifier that asks for something, or that is unknown, is
      answered once, under its identifier, and nothing else is sent;
    * a message without one is never answered;
    * a readable message about a document is followed by the diagnostics of that
      document and by nothing else, and an unreadable one does nothing;
    * a document has a text exactly if the last message about it gave it that text;
    * the diagnostics that were published last for a document are those of its text,
      or none if it has no text;
    * what is shown for a word is the same after another conversation that leaves the
      same text for its document. -/
theorem server_answers_and_publishes (decoder : Decoder) (history : List Request) :
    let docs := (handleAll decoder [] history).1
    let sent := (handleAll decoder [] history).2
    (∀ r i, r.id = some i → (r.method ∈ Request.asking ∨ r.method ∉ Request.known) →
        ∃ m, (handle decoder docs r).2 = [m] ∧ m.answered? = some i) ∧
      (∀ r, r.id = none → ∀ m ∈ (handle decoder docs r).2, m.answered? = none) ∧
      (∀ r uri text?, r.Tells decoder uri text? →
        (handle decoder docs r).2 = [.publish uri (diagnosticsOf text?)]) ∧
      (∀ r, r.method ∈ Request.aboutDocuments → (∀ uri text?, ¬ r.Tells decoder uri text?) →
        handle decoder docs r = (docs, [])) ∧
      (∀ uri text, Text.Dict.find? uri docs = some text ↔
        ∃ before r after, history = before ++ r :: after ∧ r.Tells decoder uri (some text) ∧
          ∀ later ∈ after, ∀ text?, ¬ later.Tells decoder uri text?) ∧
      (∀ uri diagnostics, (sent.filterMap (Outgoing.publishedFor? uri)).getLast? =
        some diagnostics → diagnostics = diagnosticsOf (Text.Dict.find? uri docs)) ∧
      (∀ other r, r.method = utf8 "textDocument/hover" →
        (∀ c, r.params.bind decoder.cursor = some c →
          Text.Dict.find? c.uri docs = Text.Dict.find? c.uri (handleAll decoder [] other).1) →
        (handle decoder docs r).2 = (handle decoder (handleAll decoder [] other).1 r).2) :=
  ⟨fun _ _ hid hmethod => exists_answer _ hid hmethod, fun _ hid => answered?_eq_none _ hid,
    fun _ _ _ htells => congrArg Prod.snd (handle_of_tells _ htells),
    fun _ hmethod htells => handle_of_unreadable _ hmethod htells,
    fun uri text => find?_handleAll decoder history uri text,
    fun uri diagnostics => eq_diagnosticsOf_of_published decoder history uri diagnostics,
    fun _ _ hmethod hdocs => handle_hover_congr hmethod hdocs⟩

/-- A message that opens a document with a character in it that starts no token. -/
def openingMessage : Request where
  method := utf8 "textDocument/didOpen"
  params := some (Json.record
    [("textDocument", Json.record [("uri", Json.ofText "u"), ("text", Json.ofText "@")])])

theorem openingMessage_is_followed_by_diagnostics :
    openingMessage.Tells .json (utf8 "u") (some (utf8 "@")) ∧
      (handle .json [] openingMessage).2 = [.publish (utf8 "u") (diagnosticsOf (some (utf8 "@")))] ∧
      Text.Dict.find? (utf8 "u") (handleAll .json [] [openingMessage]).1 = some (utf8 "@") := by
  have htells : openingMessage.Tells .json (utf8 "u") (some (utf8 "@")) :=
    .opens (d := ⟨utf8 "u", utf8 "@"⟩) rfl (by decide +kernel)
  rcases server_answers_and_publishes .json [] with ⟨_, _, hpublish, _⟩
  rcases server_answers_and_publishes .json [openingMessage] with ⟨_, _, _, _, hdocument, _⟩
  exact ⟨htells, hpublish _ _ _ htells, (hdocument _ _).mpr
    ⟨[], openingMessage, [], rfl, htells, List.forall_mem_nil _⟩⟩

end PocketScript
