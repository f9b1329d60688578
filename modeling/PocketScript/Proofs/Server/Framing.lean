import PocketScript.Proofs.Json.Numerals
import PocketScript.Proofs.Server.Documents
import PocketScript.Server.Wire

/-!
# Frames

Bodies that are put into frames, one after the other, are cut from the stream again as
they were. A body may hold anything, lines that look like a header included, because
nothing in it is looked at: the header says how many bytes to take.

The header is one line of one form, so reading it comes down to a line that has no line
feed in it and does not start or end with a blank, and to a length that reads back from
its digits.

`Wire.Reads` says what a stream holds without a mention of fuel. The conversation of
the server is then a matter of the bodies alone: those that are messages are handled in
order, up to the one that ends it (`Wire.converse_eq`).

## Main definitions

* `Wire.lengthLine`: The header line of a frame.
* `Wire.Reads`: The bodies of a stream and how it ends.
* `Wire.untilExit`: Messages up to the one that ends the conversation.
* `Wire.sentFrames`: What goes out for messages.

## Theorems

* `Wire.header_lengthLine`: The header of a frame is read as far as its body.
* `Wire.cut_frame`: A frame is cut where it ends.
* `Wire.Reads.unique`: Reading leaves no choice.
* `Wire.converse_eq`: A conversation handles the messages of its frames.
* `frames_keep_bodies`: Frames keep their bodies.
-/

namespace PocketScript

namespace Wire

/-- A line that ends with a carriage return and a line feed. -/
theorem takeLine_append {line : Text} (hline : Text.lineFeed ∉ line) (rest : Text) :
    takeLine (line ++ 13 :: 10 :: rest) = some (line, rest) := by
  have hsplit : line ++ 13 :: 10 :: rest = (line ++ [13]) ++ 10 :: rest := by
    rw [List.append_assoc]
    rfl
  have hline' : ∀ b ∈ line ++ [13], (b != Text.lineFeed) = true := by
    intro b hb
    rcases List.mem_append.mp hb with hb | hb
    · exact bne_iff_ne.mpr fun h => hline (h ▸ hb)
    · rw [List.mem_singleton.mp hb]
      rfl
  have htake : ((line ++ [13]) ++ 10 :: rest).takeWhile (· != Text.lineFeed) = line ++ [13] := by
    rw [List.takeWhile_append_of_pos hline']
    exact List.append_nil _
  rw [takeLine, hsplit, htake, if_neg (by simp)]
  simp only [List.drop_left, List.reverse_append, List.reverse_singleton, List.singleton_append,
    List.reverse_reverse]

/-- A header line with nothing that goes on with it. -/
theorem continued_of_not_blank (fuel : Nat) (line : Text) {b : UInt8} (hb : isBlank b = false)
    (stream : Text) : continued (fuel + 1) line (b :: stream) = (line, b :: stream) := by
  rw [continued, List.dropWhile_cons_of_neg (by rw [hb]; exact Bool.false_ne_true), if_pos rfl]

/-- A header goes on after a line that says something. -/
theorem headerLines_field {line : Text} (hline : Text.lineFeed ∉ line) (hne : line ≠ [])
    (hcolon : line.contains 58 = true) {b : UInt8} (hb : isBlank b = false) {f : Field}
    (hfield : field? (trim line) = some f) (fuel : Nat) (before : List Field) (rest : Text) :
    headerLines (fuel + 1) before (line ++ 13 :: 10 :: b :: rest) =
      headerLines fuel (f :: before) (b :: rest) := by
  rw [headerLines, takeLine_append hline]
  cases line with
  | nil => exact absurd rfl hne
  | cons c line => simp only [hcolon, if_true, continued_of_not_blank _ _ hb, hfield]

/-- A blank line ends it. -/
theorem headerLines_blank (fuel : Nat) (before : List Field) (rest : Text) :
    headerLines (fuel + 1) before (13 :: 10 :: rest) = .fields before.reverse rest := by
  have hline : takeLine (13 :: 10 :: rest) = some ([], rest) :=
    takeLine_append List.not_mem_nil rest
  rw [headerLines, hline]

/-- The header line of a frame. -/
def lengthLine (n : Nat) : Text := utf8 "Content-Length" ++ 58 :: 32 :: Text.natural n

theorem frame_eq (payload rest : Text) :
    frame payload ++ rest =
      lengthLine payload.length ++ 13 :: 10 :: 13 :: 10 :: (payload ++ rest) := by
  have hname : utf8 "Content-Length: " = utf8 "Content-Length" ++ [58, 32] := by decide
  have hend : utf8 "\r\n\r\n" = [13, 10, 13, 10] := by decide
  simp only [frame, lengthLine, hname, hend, List.append_assoc, List.cons_append, List.nil_append]

theorem not_isBlank_of_digit {n : Nat} {b : UInt8} (h : b ∈ Text.natural n) :
    isBlank b = false := by
  have hdigit := (Text.digit_of_mem_natural h).1
  rw [isBlank, Bool.or_eq_false_iff, beq_eq_false_iff_ne, beq_eq_false_iff_ne]
  constructor <;> rintro rfl <;> exact absurd hdigit (by decide)

theorem not_mem_lengthLine (n : Nat) : Text.lineFeed ∉ lengthLine n := by
  intro h
  rcases List.mem_append.mp h with h | h
  · exact absurd h (by decide)
  · rcases List.mem_cons.mp h with h | h
    · exact absurd h (by decide)
    · rcases List.mem_cons.mp h with h | h
      · exact absurd h (by decide)
      · exact absurd (Text.digit_of_mem_natural h).1 (by decide)

/-- A header line neither starts nor ends with a blank. -/
theorem trim_lengthLine (n : Nat) : trim (lengthLine n) = lengthLine n := by
  have hstart : (lengthLine n).dropWhile isBlank = lengthLine n := rfl
  rcases List.eq_nil_or_concat (Text.natural n) with hnil | ⟨digits, last, hdigits⟩
  · exact absurd hnil (Text.natural_ne_nil n)
  · have hlast : isBlank last = false := by
      refine not_isBlank_of_digit (n := n) ?_
      rw [hdigits, List.concat_eq_append]
      exact List.mem_append_right _ (List.mem_singleton_self last)
    have hreverse : (lengthLine n).reverse =
        last :: (digits.reverse ++ (utf8 "Content-Length" ++ [58, 32]).reverse) := by
      rw [lengthLine, hdigits, List.concat_eq_append]
      simp only [List.reverse_append, List.reverse_cons, List.reverse_nil, List.append_assoc,
        List.nil_append, List.cons_append]
    rw [trim, hstart, Text.dropTrailing, hreverse,
      List.dropWhile_cons_of_neg (by rw [hlast]; exact Bool.false_ne_true), ← hreverse,
      List.reverse_reverse]

theorem field?_lengthLine (n : Nat) :
    field? (lengthLine n) = some (utf8 "Content-Length", Text.natural n) := by
  have hname : (lengthLine n).takeWhile (· != 58) = utf8 "Content-Length" := by
    rw [lengthLine, List.takeWhile_append_of_pos (List.all_eq_true.mp (by decide))]
    exact List.append_nil _
  have hvalue : (lengthLine n).drop ((utf8 "Content-Length").length + 1) =
      32 :: Text.natural n := rfl
  have hbytes : (32 :: Text.natural n).all isValueByte = true := by
    rw [List.all_eq_true]
    intro b hb
    rcases List.mem_cons.mp hb with rfl | hb
    · decide
    · have hdigit := Text.digit_of_mem_natural hb
      simp only [isValueByte, Bool.or_eq_true, Bool.and_eq_true, decide_eq_true_eq, bne_iff_ne]
      refine Or.inr ⟨UInt8.le_trans (by decide) hdigit.1, ?_⟩
      rintro rfl
      exact absurd hdigit.2 (by decide)
  have hdigits : (32 :: Text.natural n).dropWhile isBlank = Text.natural n := by
    rw [List.dropWhile_cons_of_pos rfl]
    cases hnatural : Text.natural n with
    | nil => rfl
    | cons b digits =>
        have hb : isBlank b = false :=
          not_isBlank_of_digit (n := n) (by rw [hnatural]; exact List.mem_cons_self)
        rw [List.dropWhile_cons_of_neg (by rw [hb]; exact Bool.false_ne_true)]
  simp only [field?, hname, hvalue, hbytes, hdigits]
  rw [if_neg (by decide)]

/-- The header of a frame is read as far as its body. -/
theorem header_lengthLine (n : Nat) (rest : Text) :
    header (lengthLine n ++ 13 :: 10 :: 13 :: 10 :: rest) =
      .fields [(utf8 "Content-Length", Text.natural n)] rest := by
  have hcolon : (lengthLine n).contains 58 = true := by
    rw [List.contains_iff_mem, lengthLine]
    exact List.mem_append_right _ List.mem_cons_self
  have hne : lengthLine n ≠ [] := by
    rintro hnil
    rw [hnil] at hcolon
    cases hcolon
  have hfield : field? (trim (lengthLine n)) = some (utf8 "Content-Length", Text.natural n) := by
    rw [trim_lengthLine, field?_lengthLine]
  have hlines : ∀ fuel, headerLines (fuel + 2) [] (lengthLine n ++ 13 :: 10 :: 13 :: 10 :: rest) =
      .fields [(utf8 "Content-Length", Text.natural n)] rest := by
    intro fuel
    rw [headerLines_field (not_mem_lengthLine n) hne hcolon rfl hfield, headerLines_blank]
    rfl
  -- Two lines are read, so the length of the stream is fuel enough.
  have hlength : (lengthLine n ++ 13 :: 10 :: 13 :: 10 :: rest).length + 1 =
      (lengthLine n ++ 13 :: 10 :: rest).length + 1 + 2 := by
    simp only [List.length_append, List.length_cons]
    omega
  exact (congrArg (headerLines · [] _) hlength).trans (hlines _)

theorem filter_signed?_natural {n : Nat} (h : n < 0x8000000000000000) :
    ((Json.signed? (Text.natural n)).filter fun n => 0 ≤ n && Json.isWord64 n) =
      some (n : Int) := by
  have hword : Json.isWord64 (n : Int) = true := by
    rw [Json.isWord64, Bool.and_eq_true, decide_eq_true_eq, decide_eq_true_eq]
    omega
  rw [Json.signed?_natural, Option.filter_some, if_pos]
  rw [hword, Bool.and_true, decide_eq_true_eq]
  exact Int.natCast_nonneg n

/-- A frame is cut where it ends, whatever its body and whatever follows. -/
theorem cut_frame {payload : Text} (hsize : payload.length < 0x8000000000000000) (rest : Text) :
    cut (frame payload ++ rest) = .body payload rest := by
  have hlength : announced [(utf8 "Content-Length", Text.natural payload.length)] =
      Text.natural payload.length := by
    have hname : (utf8 "Content-Length").map Text.lowerByte = utf8 "content-length" := by decide
    simp [announced, hname]
  have hsome : (Text.natural payload.length).isEmpty = false :=
    List.isEmpty_eq_false_iff.mpr (Text.natural_ne_nil _)
  rw [cut, frame_eq, header_lengthLine]
  simp only [hlength, hsome, Bool.false_eq_true, if_false]
  rw [filter_signed?_natural hsize]
  simp only [Int.toNat_natCast, List.length_append, Nat.le_add_right, if_true, List.take_left,
    List.drop_left]

/-- What is read from a stream: the bodies of its frames, and what comes when there
    are no more. -/
inductive Reads : Text → List Text → Framed → Prop where
  | stop {stream : Text} {last : Framed} (hcut : cut stream = last)
      (hlast : ∀ payload rest, last ≠ .body payload rest) : Reads stream [] last
  | frame {stream payload rest : Text} {payloads : List Text} {last : Framed}
      (hcut : cut stream = .body payload rest) (hreads : Reads rest payloads last) :
      Reads stream (payload :: payloads) last

/-- Reading leaves no choice. -/
theorem Reads.unique {stream : Text} {payloads payloads' : List Text} {last last' : Framed}
    (h : Reads stream payloads last) (h' : Reads stream payloads' last') :
    payloads = payloads' ∧ last = last' := by
  induction h generalizing payloads' with
  | stop hcut hlast =>
      cases h' with
      | stop hcut' _ => exact ⟨rfl, hcut.symm.trans hcut'⟩
      | frame hcut' _ => exact absurd (hcut.symm.trans hcut') (hlast _ _)
  | frame hcut _ ih =>
      cases h' with
      | stop hcut' hlast' => exact absurd (hcut'.symm.trans hcut) (hlast' _ _)
      | frame hcut' hreads' =>
          cases hcut.symm.trans hcut'
          rcases ih hreads' with ⟨rfl, rfl⟩
          exact ⟨rfl, rfl⟩

theorem reads_frames {payloads : List Text}
    (hsize : ∀ p ∈ payloads, p.length < 0x8000000000000000) :
    Reads (payloads.flatMap frame) payloads .ended := by
  induction payloads with
  | nil => exact .stop rfl fun payload rest h => by cases h
  | cons payload payloads ih =>
      rcases List.forall_mem_cons.mp hsize with ⟨hpayload, hothers⟩
      rw [List.flatMap_cons]
      exact .frame (cut_frame hpayload _) (ih hothers)

/-- Every frame takes at least one byte. -/
theorem length_le_of_frames (payloads : List Text) :
    payloads.length ≤ (payloads.flatMap frame).length := by
  induction payloads with
  | nil => exact Nat.le_refl 0
  | cons payload payloads ih =>
      have hframe : 0 < (frame payload).length := by
        rw [← List.append_nil (frame payload), frame_eq]
        simp only [List.length_append, List.length_cons]
        omega
      rw [List.flatMap_cons, List.length_append, List.length_cons]
      omega

/-- Messages up to the one that ends the conversation. -/
def untilExit : List Request → List Request
  | [] => []
  | r :: rest => if r.method = utf8 "exit" then [r] else r :: untilExit rest

/-- What goes out for messages. -/
def sentFrames (sent : List Outgoing) : Text := sent.flatMap fun m => frame m.json.compact

/-- A conversation handles the messages of its frames in order, up to the one that
    ends it. -/
theorem converse_eq {decoder : Decoder} {stream : Text} {payloads : List Text} {last : Framed}
    (h : Reads stream payloads last) (hlast : last = .ended) :
    ∀ {fuel : Nat} (docs : Documents), payloads.length < fuel →
      converse decoder fuel docs stream =
        (sentFrames
          (handleAll decoder docs (untilExit (payloads.filterMap decoder.message))).2, none) := by
  induction h with
  | stop hcut _ =>
      intro fuel docs hfuel
      cases fuel with
      | zero => exact absurd hfuel (Nat.not_lt_zero _)
      | succ fuel =>
          rw [converse, hcut, hlast]
          rfl
  | @frame stream payload rest payloads last hcut _ ih =>
      intro fuel docs hfuel
      cases fuel with
      | zero => exact absurd hfuel (Nat.not_lt_zero _)
      | succ fuel =>
          have hrest : payloads.length < fuel := Nat.lt_of_succ_lt_succ hfuel
          rw [converse, hcut]
          cases hmessage : decoder.message payload with
          | none =>
              rw [List.filterMap_cons_none hmessage]
              simp only [hmessage]
              exact ih hlast docs hrest
          | some r =>
              rw [List.filterMap_cons_some hmessage]
              simp only [hmessage, untilExit]
              by_cases hexit : r.method = utf8 "exit"
              · rw [if_pos hexit, if_pos hexit]
                simp only [handleAll, List.append_nil]
                rfl
              · rw [if_neg hexit, if_neg hexit, ih hlast _ hrest]
                simp only [handleAll, sentFrames, List.flatMap_append]

/-- The server hears what the frames hold. -/
theorem serve_frames (decoder : Decoder) {payloads : List Text}
    (hsize : ∀ p ∈ payloads, p.length < 0x8000000000000000) :
    serve decoder (payloads.flatMap frame) =
      (sentFrames
        (handleAll decoder [] (untilExit (payloads.filterMap decoder.message))).2, none) :=
  converse_eq (reads_frames hsize) rfl [] (Nat.lt_succ_of_le (length_le_of_frames payloads))

end Wire

/-- **Frames keep their bodies.** Bodies that are framed and put one after the other
    are read back in order, and then the stream is at its end, whatever the bodies
    hold. However the server reads bodies, it handles the messages among them in that
    order, passing over bodies that are no messages, up to the first one to exit and no
    further; what it sends is framed in turn. A body is as long as a length of 64 bits
    can say. -/
theorem frames_keep_bodies (decoder : Decoder) (payloads : List Text)
    (hsize : ∀ p ∈ payloads, p.length < 0x8000000000000000) :
    (∀ read last, Wire.Reads (payloads.flatMap Wire.frame) read last ↔
        read = payloads ∧ last = .ended) ∧
      Wire.serve decoder (payloads.flatMap Wire.frame) =
        (Wire.sentFrames
          (handleAll decoder []
            (Wire.untilExit (payloads.filterMap decoder.message))).2, none) := by
  have hreads := Wire.reads_frames hsize
  refine ⟨fun read last => ⟨fun h => h.unique hreads, ?_⟩, Wire.serve_frames decoder hsize⟩
  rintro ⟨rfl, rfl⟩
  exact hreads

/-- A body that looks like a header, an empty one, bytes that are no text, and
    requests before and after one to exit. -/
def mixedPayloads : List Text :=
  [utf8 "\r\n\r\nContent-Length: 9\r\n\r\n", [], [255, 0, 10],
    utf8 "\x7b\"id\":1,\"method\":\"shutdown\"\x7d", utf8 "\x7b\"method\":\"exit\"\x7d",
    utf8 "\x7b\"id\":2,\"method\":\"shutdown\"\x7d"]

theorem mixedPayloads_are_kept :
    (∀ p ∈ mixedPayloads, p.length < 0x8000000000000000) ∧
      (mixedPayloads.filterMap Decoder.json.message).map Request.method =
        [utf8 "shutdown", utf8 "exit", utf8 "shutdown"] ∧
      (Wire.untilExit (mixedPayloads.filterMap Decoder.json.message)).map Request.method =
        [utf8 "shutdown", utf8 "exit"] ∧
      Wire.Reads (mixedPayloads.flatMap Wire.frame) mixedPayloads .ended ∧
      Wire.serve .json (mixedPayloads.flatMap Wire.frame) =
        (Wire.sentFrames
          (handleAll .json []
            (Wire.untilExit (mixedPayloads.filterMap Decoder.json.message))).2, none) := by
  have hsize : ∀ p ∈ mixedPayloads, p.length < 0x8000000000000000 := by decide
  rcases frames_keep_bodies .json mixedPayloads hsize with ⟨hreads, hserve⟩
  exact ⟨hsize, by decide +kernel, by decide +kernel, (hreads _ _).mpr ⟨rfl, rfl⟩, hserve⟩

end PocketScript
