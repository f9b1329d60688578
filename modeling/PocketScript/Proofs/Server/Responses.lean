import PocketScript.Proofs.Json.RoundTrip
import PocketScript.Proofs.Server.Framing

/-!
# Responses on the wire

What somebody who asked finds in the answer that the server wrote: the version of the
protocol, the identifier of the question, and the outcome.

The identifier is any value that the question held, and it is written into the answer.
It was read from a document, so it fits into one, with one level to spare for the object
around it; everything else in an answer nests a few levels only. So answers can be read
back (`Json.read_compact`), and the identifier in them means what it meant in the
question.

The outcome is a result or an error, never both. There is neither if the server had
nothing to say: a result that is nothing is left out and not written as null. That
happens for two kinds of questions, and `outcome?_eq_none_iff` says for which.

## Main definitions

* `Outgoing.outcome?`: The outcome that a message reports.
* `IsResponseTo`: A response to a question, as the receiver reads it.
* `outcomes`: The outcomes that a response reports, as the receiver reads it.
* `Request.AsksForNothing`: The questions that are answered without an outcome.

## Theorems

* `Json.readOver_keeps`: What reading a message member by member keeps.
* `Wire.fits_id_of_heard`: The identifier of a message can be written.
* `Outgoing.fits_json`: An outgoing message can be written.
* `outcome?_eq_none_iff`: Which answers report no outcome.
* `responses_report_at_most_one_outcome`: All of this on the wire.
-/

namespace PocketScript

namespace Json

@[simp] theorem fits_bool (levels : Nat) (b : Bool) : Fits levels (.bool b) := .bool

@[simp] theorem fits_ofText (levels : Nat) (t : Text) : Fits levels (ofText t) :=
  .string (inside_escape t)

@[simp] theorem fits_ofInt (levels : Nat) (n : Int) : Fits levels (ofInt n) :=
  .number (isNumeral_decimal n)

@[simp] theorem fits_array {levels : Nat} {vs : List Json} :
    Fits (levels + 1) (.array vs) ↔ ∀ v ∈ vs, Fits levels v := by
  constructor
  · rintro (_ | _)
    assumption
  · exact .array

@[simp] theorem fits_record {levels : Nat} {ms : List (String × Json)} :
    Fits (levels + 1) (record ms) ↔ ∀ m ∈ ms, Fits levels m.2 := by
  constructor
  · rintro (_ | _) m hm
    rename_i hvalues
    exact hvalues _ (List.mem_map_of_mem hm)
  · intro h
    refine .object ?_ ?_
    · rintro m hm
      rcases List.mem_map.mp hm with ⟨⟨k, v⟩, _, rfl⟩
      exact inside_escape _
    · rintro m hm
      rcases List.mem_map.mp hm with ⟨⟨k, v⟩, hkv, rfl⟩
      exact h _ hkv

/-- A member of an object that was written and read back. -/
theorem member?_spelled_record (ms : List (String × Json)) (name : Text) :
    (record ms).spelled.member? name =
      (ms.reverse.find? fun m => unescape (escape (utf8 m.1)) == name).map
        fun m => m.2.spelled := by
  have hname : ∀ k : String, unescape (guarded (escape (utf8 k))) = unescape (escape (utf8 k)) :=
    fun k => unescape_guarded (inside_escape _)
  simp only [record, spelled, mapStrings, mapMembers_eq_map, member?, members?, List.map_map,
    ← List.map_reverse, List.find?_map, Option.map_map, Function.comp_def, hname]

theorem foldlM_keeps {α β : Type} {P : α → Prop} {f : α → β → Option α} {l : List β} {start a : α}
    (hstart : P start) (hstep : ∀ x ∈ l, ∀ a b, P a → f a x = some b → P b)
    (h : l.foldlM f start = some a) : P a := by
  induction l generalizing start with
  | nil =>
      cases h
      exact hstart
  | cons x l ih =>
      rcases List.forall_mem_cons.mp hstep with ⟨hx, hl⟩
      rw [List.foldlM_cons] at h
      rcases Option.bind_eq_some_iff.mp h with ⟨b, hb, h⟩
      exact ih (hx start b hstart hb) hl h

/-- What holds of a value and is kept by every member that is read over it holds of what
    was read. -/
theorem readOver_keeps {α : Type} {P : α → Prop} {fields : List Text}
    {read : Text → Json → α → Option α} {start a : α} {j : Json} (hstart : P start)
    (hstep : ∀ ms, j = .object ms → ∀ m ∈ ms, ∀ f a b, P a → read f m.2 a = some b → P b)
    (h : readOver fields read start j = some a) : P a := by
  cases j with
  | null =>
      cases h
      exact hstart
  | object ms =>
      refine foldlM_keeps hstart ?_ h
      rintro _ hx a b ha hb
      rcases List.mem_map.mp hx with ⟨⟨k, v⟩, hm, rfl⟩
      simp only at hb
      split at hb
      · exact hstep ms rfl _ hm _ a b ha hb
      · cases hb
        exact ha
  | _ => cases h

end Json

/-- The identifier of a message is part of its document. -/
theorem Request.fits_id {levels : Nat} {j i : Json} {r : Request} (hj : Json.Fits (levels + 1) j)
    (h : Request.read? j = some r) (hid : r.id = some i) : Json.Fits levels i := by
  suffices hkept : ∀ i, r.id = some i → Json.Fits levels i from hkept i hid
  refine Json.readOver_keeps (P := fun r => ∀ i, r.id = some i → Json.Fits levels i)
    (fun i hi => by cases hi) ?_ h
  rintro ms rfl ⟨k, v⟩ hm f r r' hr hread
  have hv : Json.Fits levels v := by
    cases hj with
    | object _ hvalues => exact hvalues _ hm
  by_cases hversion : f = utf8 "jsonrpc"
  · rw [if_pos hversion] at hread
    rcases Option.map_eq_some_iff.mp hread with ⟨_, _, rfl⟩
    exact hr
  rw [if_neg hversion] at hread
  -- Of the fields only this one changes the identifier; null takes it away.
  by_cases hfield : f = utf8 "id"
  · rw [if_pos hfield] at hread
    cases v <;> cases hread <;> intro i hi <;> cases hi <;> exact hv
  rw [if_neg hfield] at hread
  by_cases hmethod : f = utf8 "method"
  · rw [if_pos hmethod] at hread
    rcases Option.map_eq_some_iff.mp hread with ⟨_, _, rfl⟩
    exact hr
  · rw [if_neg hmethod] at hread
    cases hread
    exact hr

theorem Wire.mem_of_mem_untilExit {r : Request} {rs : List Request} (h : r ∈ untilExit rs) :
    r ∈ rs := by
  induction rs with
  | nil => exact h
  | cons first rest ih =>
      rw [untilExit] at h
      split at h
      · rw [List.mem_singleton.mp h]
        exact List.mem_cons_self
      · rcases List.mem_cons.mp h with rfl | h
        · exact List.mem_cons_self
        · exact List.mem_cons_of_mem _ (ih h)

/-- A message that is heard has an identifier that can be sent back. -/
theorem Wire.fits_id_of_heard {payloads : List Text} {r : Request} {i : Json}
    (h : r ∈ untilExit (payloads.filterMap Decoder.json.message)) (hid : r.id = some i) :
    Json.Fits 9999 i := by
  rcases List.mem_filterMap.mp (mem_of_mem_untilExit h) with ⟨payload, _, hmessage⟩
  rcases Option.bind_eq_some_iff.mp hmessage with ⟨j, hread, hrequest⟩
  exact Request.fits_id (Json.fits_of_read_document hread) hrequest hid

theorem Suggestion.fits_json (levels : Nat) (s : Suggestion) : Json.Fits (levels + 1) s.json := by
  simp [Suggestion.json]

theorem Diagnostic.fits_json (levels : Nat) (d : Diagnostic) : Json.Fits (levels + 3) d.json := by
  simp [Diagnostic.json, placeJson]

/-- Results nest only a few levels. -/
theorem Answer.fits_json? (levels : Nat) {a : Answer} {j : Json} (h : a.json? = some j) :
    Json.Fits (levels + 3) j := by
  cases a with
  | nothing => cases h
  | capabilities =>
      cases h
      simp
  | suggestions items =>
      cases h
      simp [Suggestion.fits_json]
  | hover markdown =>
      cases h
      simp

/-- A message can be written if the identifier that it answers can. -/
theorem Outgoing.fits_json {m : Outgoing} (h : ∀ i, m.answered? = some i → Json.Fits 9999 i) :
    Json.Fits Json.deepest m.json := by
  rw [Json.deepest]
  cases m with
  | response i a =>
      have hi := h i rfl
      cases ha : a.json? with
      | none => simp [json, ha, hi]
      | some j => simp [json, ha, hi, a.fits_json? 9996 ha]
  | refusal i code message => simp [json, h i rfl]
  | publish uri diagnostics => simp [json, Diagnostic.fits_json]

namespace Outgoing

/-- The outcome that a message reports: a result or an error. -/
def outcome? : Outgoing → Option (String × Json)
  | .response _ answer => answer.json?.map fun result => ("result", result)
  | .refusal _ code message =>
    some ("error", Json.record [("code", Json.ofInt code), ("message", Json.ofText message)])
  | .publish _ _ => none

theorem json_of_answered? {m : Outgoing} {i : Json} (h : m.answered? = some i) :
    m.json = Json.record
      (("jsonrpc", Json.ofText "2.0") :: ("id", i) :: m.outcome?.toList) := by
  cases m with
  | response j a =>
      cases h
      cases ha : a.json? with
      | none => simp [json, outcome?, ha]
      | some result => simp [json, outcome?, ha]
  | refusal j code message =>
      cases h
      rfl
  | publish uri diagnostics => cases h

theorem outcome?_name {m : Outgoing} {name : String} {j : Json} (h : m.outcome? = some (name, j)) :
    name = "result" ∨ name = "error" := by
  cases m with
  | response i a =>
      rcases Option.map_eq_some_iff.mp h with ⟨result, _, heq⟩
      cases heq
      exact Or.inl rfl
  | refusal i code message =>
      cases h
      exact Or.inr rfl
  | publish uri diagnostics => cases h

end Outgoing

/-- A response to a question with a given identifier, as the receiver reads it. -/
structure IsResponseTo (id j : Json) : Prop where
  version : (j.member? (utf8 "jsonrpc")).bind Json.text? = some (utf8 "2.0")
  identifier : (j.member? (utf8 "id")).map Json.meaning = some id.meaning

/-- Which of the two members that report an outcome a response has. -/
def outcomes (j : Json) : List Text :=
  [utf8 "result", utf8 "error"].filter fun name => (j.member? name).isSome

theorem outcomes_record (ms : List (String × Json)) :
    outcomes (Json.record ms).spelled = [utf8 "result", utf8 "error"].filter fun name =>
      (ms.map Prod.fst).any fun k => Json.unescape (Json.escape (utf8 k)) == name := by
  simp only [outcomes, Json.member?_spelled_record, Option.isSome_map, List.isSome_find?,
    List.any_reverse, List.any_map, Function.comp_def]

theorem outcomes_of_answered? {m : Outgoing} {i : Json} (h : m.answered? = some i) :
    outcomes m.json.spelled = (m.outcome?.map fun o => utf8 o.1).toList := by
  rw [Outgoing.json_of_answered? h, outcomes_record]
  cases houtcome : m.outcome? with
  | none =>
      simp only [Option.toList_none, List.map_cons, List.map_nil, Option.map_none]
      decide +kernel
  | some o =>
      rcases o with ⟨name, j⟩
      simp only [Option.toList_some, List.map_cons, List.map_nil, Option.map_some]
      rcases Outgoing.outcome?_name houtcome with rfl | rfl <;> decide +kernel

/-- The two members that every response has, whatever its outcome. -/
theorem member?_of_answered? {m : Outgoing} {i : Json} (h : m.answered? = some i) :
    m.json.spelled.member? (utf8 "jsonrpc") = some (Json.ofText (utf8 "2.0")).spelled ∧
      m.json.spelled.member? (utf8 "id") = some i.spelled := by
  rw [Outgoing.json_of_answered? h, Json.member?_spelled_record, Json.member?_spelled_record]
  cases houtcome : m.outcome? with
  | none => exact ⟨rfl, rfl⟩
  | some o =>
      rcases o with ⟨name, j⟩
      rcases Outgoing.outcome?_name houtcome with rfl | rfl
      · exact ⟨rfl, rfl⟩
      · exact ⟨rfl, rfl⟩

theorem isResponseTo_of_answered? {m : Outgoing} {i : Json} {levels : Nat}
    (hi : Json.Fits levels i) (h : m.answered? = some i) : IsResponseTo i m.json.spelled := by
  rcases member?_of_answered? h with ⟨hversion, hid⟩
  constructor
  · rw [hversion, Option.bind_some]
    decide +kernel
  · rw [hid, Option.map_some, Json.meaning_spelled hi]

/-- A message that is answered with nothing to report: one to shut down, or one about a
    place where no word stands. -/
def Request.AsksForNothing (docs : Documents) (r : Request) : Prop :=
  r.method = utf8 "shutdown" ∨
    r.method = utf8 "textDocument/hover" ∧ ∃ c, r.params.bind Decoder.json.cursor = some c ∧
      wordAt ((Text.Dict.find? c.uri docs).getD []) c.line c.character = []

theorem mem_respond {i : Json} {a : Answer} {m : Outgoing} (h : m ∈ respond (some i) a) :
    m = .response i a := List.mem_singleton.mp h

theorem mem_refuse {i : Json} {code : Int} {message : Text} {m : Outgoing}
    (h : m ∈ refuse (some i) code message) : m = .refusal i code message := List.mem_singleton.mp h

theorem outcome?_hover (docs : Documents) (c : Cursor) (i : Json) :
    (Outgoing.response i (hover docs c)).outcome? = none ↔
      wordAt ((Text.Dict.find? c.uri docs).getD []) c.line c.character = [] := by
  rw [hover]
  split
  · rename_i hempty
    exact iff_of_true rfl (List.isEmpty_iff.mp hempty)
  · rename_i hword
    exact iff_of_false (Option.some_ne_none _) fun h => hword (List.isEmpty_iff.mpr h)

theorem not_asksForNothing {docs : Documents} {r : Request} (hshut : r.method ≠ utf8 "shutdown")
    (hhover : r.method ≠ utf8 "textDocument/hover") : ¬ r.AsksForNothing docs := by
  rintro (h | ⟨h, _⟩)
  · exact hshut h
  · exact hhover h

/-- An answer has the identifier of its question, and messages about documents have no
    answer. -/
theorem answered?_of_mem {docs : Documents} {r : Request} {i : Json} {m : Outgoing}
    (hid : r.id = some i) (hm : m ∈ (handle .json docs r).2) (hanswered : m.answered? ≠ none) :
    m.answered? = some i ∧ r.method ∉ Request.aboutDocuments := by
  have hhandled := handled_handle .json docs r
  generalize handle .json docs r = result at hhandled hm
  cases hhandled with
  | told _ =>
      rw [List.mem_singleton.mp hm] at hanswered
      exact absurd rfl hanswered
  | passed _ _ _ => cases hm
  | asked answer hanswer hmethod =>
      rw [hid] at hm
      rw [List.mem_singleton.mp hm]
      exact ⟨hanswer i, hmethod⟩

/-- An answer reports no outcome exactly if nothing was asked for. -/
theorem outcome?_eq_none_iff {docs : Documents} {r : Request} {i : Json} {m : Outgoing}
    (hid : r.id = some i) (hm : m ∈ (handle .json docs r).2) (hanswered : m.answered? ≠ none) :
    m.outcome? = none ↔ r.AsksForNothing docs := by
  have habout := (answered?_of_mem hid hm hanswered).2
  simp only [Request.aboutDocuments, List.mem_cons, List.not_mem_nil, or_false, not_or] at habout
  -- What is left are the questions, one after the other as the server tells them apart.
  rw [handle, hid, if_neg habout.1, if_neg habout.2.1, if_neg habout.2.2] at hm
  by_cases hinit : r.method = utf8 "initialize"
  · rw [if_pos hinit] at hm
    rw [mem_respond hm]
    exact iff_of_false (Option.some_ne_none _)
      (not_asksForNothing (by rw [hinit]; decide) (by rw [hinit]; decide))
  rw [if_neg hinit] at hm
  by_cases hnotice : r.method = utf8 "initialized" ∨ r.method = utf8 "exit"
  · rw [if_pos hnotice] at hm
    cases hm
  rw [if_neg hnotice] at hm
  by_cases hshut : r.method = utf8 "shutdown"
  · rw [if_pos hshut] at hm
    rw [mem_respond hm]
    exact iff_of_true rfl (Or.inl hshut)
  rw [if_neg hshut] at hm
  by_cases hcompletion : r.method = utf8 "textDocument/completion"
  · rw [if_pos hcompletion] at hm
    rw [mem_respond hm]
    exact iff_of_false (Option.some_ne_none _)
      (not_asksForNothing hshut (by rw [hcompletion]; decide))
  rw [if_neg hcompletion] at hm
  by_cases hhover : r.method = utf8 "textDocument/hover"
  · rw [if_pos hhover] at hm
    cases hparams : r.params.bind Decoder.json.cursor with
    | some c =>
        rw [hparams] at hm
        rw [mem_respond hm, outcome?_hover]
        constructor
        · exact fun hword => Or.inr ⟨hhover, c, hparams, hword⟩
        · rintro (h | ⟨_, c', hparams', hword⟩)
          · exact absurd h hshut
          · rwa [Option.some.inj (hparams.symm.trans hparams')]
    | none =>
        rw [hparams] at hm
        rw [mem_refuse hm]
        refine iff_of_false (Option.some_ne_none _) ?_
        rintro (h | ⟨_, c, hparams', _⟩)
        · exact hshut h
        · cases hparams.symm.trans hparams'
  · rw [if_neg hhover] at hm
    rw [mem_refuse hm]
    exact iff_of_false (Option.some_ne_none _) (not_asksForNothing hshut hhover)

/-- **Responses name their questions and report at most one outcome.** Whatever bodies are
    sent to the server in frames, what it writes for a message with an identifier stands
    in its output after what it wrote for the messages before. If it answers, the answer
    can be read back as an object with the version of the protocol and the identifier of
    the question, which may be spelled in another way. It has not both a result and an
    error. It has neither exactly if the message was one to shut down, or asked about a
    place where no word stands. -/
theorem responses_report_at_most_one_outcome (payloads : List Text)
    (hsize : ∀ p ∈ payloads, p.length < 0x8000000000000000) (before after : List Request)
    (r : Request) (i : Json)
    (hheard : Wire.untilExit (payloads.filterMap Decoder.json.message) = before ++ r :: after)
    (hid : r.id = some i) :
    let docs := (handleAll .json [] before).1
    (∃ rest, (Wire.serve .json (payloads.flatMap Wire.frame)).1 =
        Wire.sentFrames (handleAll .json [] before).2 ++
          (Wire.sentFrames (handle .json docs r).2 ++ rest)) ∧
      ∀ m ∈ (handle .json docs r).2, m.answered? ≠ none →
        ∃ j, Json.read m.json.compact = some j ∧ IsResponseTo i j ∧ (outcomes j).length ≤ 1 ∧
          (outcomes j = [] ↔ r.AsksForNothing docs) := by
  intro docs
  constructor
  · refine ⟨Wire.sentFrames (handleAll .json (handle .json docs r).1 after).2, ?_⟩
    rw [Wire.serve_frames .json hsize, hheard, handleAll_append]
    simp only [Wire.sentFrames, handleAll, List.flatMap_append]
    rfl
  · intro m hm hanswered
    have hheard' : r ∈ Wire.untilExit (payloads.filterMap Decoder.json.message) := by
      rw [hheard]
      exact List.mem_append_right _ List.mem_cons_self
    have hi : Json.Fits 9999 i := Wire.fits_id_of_heard hheard' hid
    have hm' := (answered?_of_mem hid hm hanswered).1
    -- The identifier was read from a document, and an answer is one object around it.
    have hfits : Json.Fits Json.deepest m.json := by
      refine m.fits_json fun k hk => ?_
      rw [← Option.some.inj (hm'.symm.trans hk)]
      exact hi
    refine ⟨m.json.spelled, Json.read_compact hfits, isResponseTo_of_answered? hi hm', ?_⟩
    rw [outcomes_of_answered? hm', ← outcome?_eq_none_iff hid hm hanswered]
    cases m.outcome? with
    | none => exact ⟨Nat.zero_le 1, iff_of_true rfl rfl⟩
    | some o => exact ⟨Nat.le_refl 1, iff_of_false (List.cons_ne_nil _ _) (Option.some_ne_none o)⟩

/-- A message that no server knows, with an identifier that is not written as it came. -/
def strangeMessage : Request where
  id := some (.string (utf8 "<7>"))
  method := utf8 "x"

/-- The body that it comes in. -/
def strangeBody : Text := utf8 "\x7b\"id\":\"<7>\",\"method\":\"x\"\x7d"

theorem strangeMessage_is_refused :
    (∀ p ∈ [strangeBody], p.length < 0x8000000000000000) ∧
      Wire.untilExit ([strangeBody].filterMap Decoder.json.message) = [] ++ strangeMessage :: [] ∧
      ∃ m j, (handle .json [] strangeMessage).2 = [m] ∧ Json.read m.json.compact = some j ∧
        IsResponseTo (.string (utf8 "<7>")) j ∧ (outcomes j).length ≤ 1 ∧
        (outcomes j = [] ↔ strangeMessage.AsksForNothing []) := by
  have hsize : ∀ p ∈ [strangeBody], p.length < 0x8000000000000000 := by decide
  have hheard : Wire.untilExit ([strangeBody].filterMap Decoder.json.message) =
      [] ++ strangeMessage :: [] := rfl
  rcases (responses_report_at_most_one_outcome _ hsize [] [] strangeMessage _ hheard rfl).2
    (.refusal (.string (utf8 "<7>")) (-32601) (utf8 "method not found")) List.mem_cons_self
    (Option.some_ne_none _) with ⟨j, hj⟩
  exact ⟨hsize, hheard, _, j, rfl, hj⟩

/-- The answer to a message to shut down has neither a result nor an error. -/
theorem shutdown_is_answered_without_outcome :
    Wire.serve .json (Wire.frame (utf8 "\x7b\"id\":1,\"method\":\"shutdown\"\x7d")) =
        (Wire.frame (utf8 "\x7b\"jsonrpc\":\"2.0\",\"id\":1\x7d"), none) ∧
      (Json.read (utf8 "\x7b\"jsonrpc\":\"2.0\",\"id\":1\x7d")).map outcomes = some [] :=
  ⟨by decide +kernel, by decide +kernel⟩

end PocketScript
