import PocketScript.Text.Cluster.Width

/-!
# Sequences that steer a terminal

An escape character, or one of the control bytes above the letters of ASCII,
starts a sequence that a terminal carries out instead of showing it. What ends
it depends on how it starts: a single byte, a final letter after numbers and
marks, or an end mark after a string of any length.

Sequences are made of bytes. Where one is waiting for a byte that it can use,
the first byte of a character from outside ASCII ends it, and the character is
shown. Only inside the two kinds of strings that carry text are such
characters part of the sequence.

## Main definitions

* `Steering`: Where a reading stands with respect to sequences.
* `Steering.next`: Where it stands after a byte.
* `Line`: Where the measuring of a line stands.
* `Text.columns`: The columns of a line.
-/

namespace PocketScript

/-- Where a reading stands with respect to sequences: outside of one, after
    the escape character, in a sequence of numbers that a letter ends, in a
    device string or before its text, in a text for the operating system, or
    in a string that is passed over. -/
inductive Steering where
  | outside
  | escape
  | escapeMarks
  | sequence
  | sequenceNumbers
  | sequenceMarks
  | device
  | deviceNumbers
  | deviceMarks
  | deviceText
  | systemText
  | message
deriving Repr, DecidableEq

namespace Steering

/-- What a byte starts wherever it stands outside of a text. Those that start
    nothing end what there is. -/
def opened (b : UInt8) : Steering :=
  if b = 0x1B then escape
  else if b = 0x90 then device
  else if b = 0x9B then sequence
  else if b = 0x9D then systemText
  else if b = 0x98 ∨ b = 0x9E ∨ b = 0x9F then message
  else outside

/-- Does the byte break off any sequence? -/
def breaksOff (b : UInt8) : Bool := b == 0x18 || b == 0x1A || b == 0x1B || 0x80 ≤ b

/-- What follows the escape character. -/
def afterEscape (b : UInt8) : Steering :=
  if b = 91 then sequence
  else if b = 93 then systemText
  else if b = 80 then device
  else if b = 88 ∨ b = 94 ∨ b = 95 then message
  else outside

/-- Where a sequence goes at one of its own bytes: it stays at a control
    byte, and marks, numbers and letters lead on. -/
def onward (stay marks numbers letters : Steering) (b : UInt8) : Steering :=
  if b < 0x20 ∨ b = 0x7F then stay
  else if b < 0x30 then marks
  else if b < 0x40 then numbers
  else letters

/-- Where a reading stands after a byte. -/
def next (s : Steering) (b : UInt8) : Steering :=
  match s with
  | deviceText =>
    if b = 0x1B then escape else if b = 0x18 ∨ b = 0x1A ∨ b = 0x9C then outside else deviceText
  | systemText =>
    if b = 0x1B then escape
    else if b = 0x07 ∨ b = 0x18 ∨ b = 0x1A ∨ b = 0x9C then outside
    else systemText
  | device =>
    if b = 0x1B ∨ (8 ≤ b ∧ b ≤ 13) then deviceText
    else if breaksOff b then opened b
    else onward device deviceMarks deviceNumbers deviceText b
  | s =>
    if breaksOff b then opened b
    else match s with
      | outside => outside
      | escape =>
        if b < 0x20 ∨ b = 0x7F then escape
        else if b < 0x30 then escapeMarks
        else afterEscape b
      | escapeMarks => onward escapeMarks escapeMarks outside outside b
      | sequence => onward sequence sequenceMarks sequenceNumbers outside b
      | sequenceNumbers => onward sequenceNumbers sequenceMarks sequenceNumbers outside b
      | sequenceMarks => onward sequenceMarks sequenceMarks outside outside b
      | deviceNumbers => onward deviceNumbers deviceMarks deviceNumbers deviceText b
      | deviceMarks => onward deviceMarks deviceMarks deviceText deviceText b
      | _ => message

/-- Is the byte shown? -/
def shows (s : Steering) (b : UInt8) : Bool := s == outside && 0x20 ≤ b && b < 0x7F

/-- Does the byte start a character from outside ASCII that is shown? -/
def admits (s : Steering) (b : UInt8) : Bool :=
  s != deviceText && s != systemText && 0xC2 ≤ b && b ≤ 0xF4

/-- The columns that bytes of ASCII and stray bytes take, and where the
    reading stands after them. -/
def readBytes : Text → Steering → Nat × Steering
  | [], s => (0, s)
  | b :: bs, s =>
    let (n, t) := readBytes bs (s.next b)
    ((if s.shows b then 1 else 0) + n, t)

end Steering

/-- Where the measuring of a line stands: with respect to sequences, or in a
    cluster. A cluster starts with a character from outside ASCII. -/
inductive Line where
  | steered (s : Steering)
  | clustered (p : Cluster.Part)
deriving Repr, DecidableEq

namespace Line

/-- Measures a character that belongs to no cluster before it. -/
def start (s : Steering) (g : Glyph) : Nat × Line :=
  match g.bytes with
  | b :: _ =>
    if s.admits b then (0, clustered (.start g.code))
    else
      let (n, t) := s.readBytes g.bytes
      (n, steered t)
  | [] => (0, steered s)

/-- Measures a character: the columns that are certain now, and where the
    measuring stands after it. -/
def step (g : Glyph) : Line → Nat × Line
  | steered s => start s g
  | clustered p =>
    match p.join? g.code with
    | some q => (0, clustered q)
    | none =>
      let (n, l) := start .outside g
      (p.columns + n, l)

/-- The columns of what is left of a line. -/
def columns : List Glyph → Line → Nat
  | [], steered _ => 0
  | [], clustered p => p.columns
  | g :: gs, l => (l.step g).1 + columns gs (l.step g).2

end Line

/-- The columns that a line takes on a terminal. -/
def Text.columns (t : Text) : Nat := Line.columns t.glyphs (.steered .outside)

end PocketScript
