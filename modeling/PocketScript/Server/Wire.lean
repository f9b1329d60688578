import PocketScript.Json.Write
import PocketScript.Server.Handle

/-!
# On the wire

Messages travel in frames: header lines, a blank line, and as many bytes as
the header announced. Here frames are cut from a stream of bytes and written
to one.

A header line ends with a line feed, which a carriage return may precede. A
line that starts with a blank goes on with the one before. The stream may end
anywhere in a header, or right before a body, without that being a fault.

## Main definitions

* `Wire.header`: The header of a frame.
* `Wire.Framed`: What came of cutting a frame.
* `Wire.cut`: Cutting a frame off the front of a stream.
* `Wire.serve`: A whole conversation.
-/

namespace PocketScript

namespace Wire

/-- A blank inside a header line. -/
def isBlank (b : UInt8) : Bool := b == 32 || b == 9

/-- A text without blanks at its ends. -/
def trim (t : Text) : Text := Text.dropTrailing isBlank (t.dropWhile isBlank)

/-- The first line of a stream without its end, and what follows. There is
    none at the end of the stream. A last line may lack its line feed, and
    then keeps a carriage return. -/
def takeLine (t : Text) : Option (Text × Text) :=
  if t.isEmpty then none
  else
    let line := t.takeWhile (· != Text.lineFeed)
    match t.drop line.length with
    | [] => some (line, [])
    | _ :: rest =>
      match line.reverse with
      | 13 :: r => some (r.reverse, rest)
      | _ => some (line, rest)

/-- A header line with the lines that go on with it, joined by single blanks,
    and what follows. The length of the stream bounds the number of lines. -/
def continued : (fuel : Nat) → (line stream : Text) → Text × Text
  | 0, line, stream => (line, stream)
  | n + 1, line, stream =>
    let inner := stream.dropWhile isBlank
    if inner.length = stream.length then (line, stream)
    else match takeLine inner with
      | none => (line ++ [32], [])
      | some (more, rest) => continued n (line ++ [32] ++ trim more) rest

/-- A character of a header name. -/
def isNameByte (b : UInt8) : Bool :=
  (48 ≤ b && b ≤ 57) || (65 ≤ b && b ≤ 90) || (94 ≤ b && b ≤ 122) || b == 33 ||
    (35 ≤ b && b ≤ 39) || b == 42 || b == 43 || b == 45 || b == 46 || b == 124 || b == 126

/-- A character of a header value. -/
def isValueByte (b : UInt8) : Bool := b == 9 || (32 ≤ b && b != 127)

/-- A header name and its value. -/
abbrev Field := Text × Text

/-- The name and value of a header line. -/
def field? (line : Text) : Option Field :=
  let name := line.takeWhile (· != 58)
  let value := line.drop (name.length + 1)
  if name.isEmpty ∨ ¬ name.all (fun b => isNameByte b || b == 32) ∨ ¬ value.all isValueByte then
    none
  else some (name, value.dropWhile isBlank)

/-- What came of reading a header: its fields and the rest of the stream, the
    end of the stream, or a fault in words. -/
inductive Header where
  | fields (fs : List Field) (rest : Text)
  | ended
  | broken (message : Text)
deriving Repr, DecidableEq

/-- Reads header lines up to a blank one. -/
def headerLines : (fuel : Nat) → (before : List Field) → Text → Header
  | 0, _, _ => .ended
  | n + 1, before, stream =>
    match takeLine stream with
    | none => .ended
    | some ([], rest) => .fields before.reverse rest
    | some (line, rest) =>
      if line.contains 58 then
        let (whole, rest) := continued (rest.length + 1) (trim line) rest
        match field? whole with
        | some f => headerLines n (f :: before) rest
        | none => .broken ("malformed MIME header line: " ++ whole)
      else .broken ("malformed MIME header: missing colon: " ++ line.quoted)

/-- Reads a header, whose first line may not start with a blank. -/
def header (stream : Text) : Header :=
  match stream with
  | b :: _ =>
    if isBlank b then
      match takeLine stream with
      | some (line, _) => .broken ("malformed MIME header initial line: " ++ line)
      | none => .ended
    else headerLines (stream.length + 1) [] stream
  | [] => .ended

/-- The value of the field that announces the length of the body: the first of
    that name, whatever its case, or nothing. -/
def announced (fs : List Field) : Text :=
  let isLength (f : Field) : Bool := f.1.map Text.lowerByte == utf8 "content-length"
  ((fs.find? isLength).map Prod.snd).getD []

/-- What came of cutting a frame: its body and the rest of the stream, the end
    of the stream, or a fault in words. -/
inductive Framed where
  | body (payload rest : Text)
  | ended
  | broken (message : Text)
deriving Repr, DecidableEq

/-- Cuts a frame off the front of a stream. Any length of 64 bits can be announced
    here. One that no memory holds makes a server fail as it sets room aside for the
    body, where this reads the stream to its end. -/
def cut (stream : Text) : Framed :=
  match header stream with
  | .ended => .ended
  | .broken message => .broken message
  | .fields fs rest =>
    let length := announced fs
    if length.isEmpty then .broken "missing Content-Length header"
    else match (Json.signed? length).filter (fun n => 0 ≤ n && Json.isWord64 n) with
      | none => .broken ("invalid Content-Length " ++ length.quoted)
      | some n =>
        let n := n.toNat
        if n ≤ rest.length then .body (rest.take n) (rest.drop n)
        else if rest.isEmpty then .ended
        else .broken "unexpected EOF"

/-- A body with its header. -/
def frame (payload : Text) : Text :=
  "Content-Length: " ++ Text.natural payload.length ++ "\r\n\r\n" ++ payload

/-- A conversation with a stream of frames: what was sent, and the fault that
    ended it, if one did. Bodies that are no messages are passed over, and a
    message to exit ends the conversation. -/
def converse (decoder : Decoder) : (fuel : Nat) → Documents → Text → Text × Option Text
  | 0, _, _ => ([], none)
  | n + 1, docs, stream =>
    match cut stream with
    | .ended => ([], none)
    | .broken message => ([], some message)
    | .body payload rest =>
      match decoder.message payload with
      | none => converse decoder n docs rest
      | some request =>
        let (docs, outgoing) := handle decoder docs request
        let sent := outgoing.flatMap fun m => frame m.json.compact
        if request.method = utf8 "exit" then (sent, none)
        else
          let (more, fault) := converse decoder n docs rest
          (sent ++ more, fault)

/-- A whole conversation. A frame takes at least one byte of the stream, so
    its length bounds their number. -/
def serve (decoder : Decoder) (stream : Text) : Text × Option Text :=
  converse decoder (stream.length + 1) [] stream

end Wire

end PocketScript
