import PocketScript.Json.Basic

/-!
# Reading JSON

A reader for whole documents. It accepts exactly the format and keeps strings
and numbers as written.

The reader descends into arrays and objects, and every step of the descent
passes at least one byte, so the length of the document bounds how deep it
can go. That length is the fuel of `value`; `Json.read` supplies it. Apart
from the fuel, a document may nest at most `deepest` arrays and objects.

## Main definitions

* `Json.stringInside`: The inside of a string, up to its closing quote.
* `Json.numeral`: The longest number at the start of a text.
* `Json.deepest`: How many arrays and objects may stand open at once.
* `Json.read`: The value that a document writes.
-/

namespace PocketScript.Json

/-- White space between the parts of a document. -/
def isBlank (b : UInt8) : Bool := b == 32 || b == 9 || b == 10 || b == 13

/-- The text without white space at its start. -/
def skip (t : Text) : Text := t.dropWhile isBlank

/-- A letter that may follow a backslash by itself. -/
def isEscapeLetter (b : UInt8) : Bool :=
  b == 34 || b == 92 || b == 47 || b == 98 || b == 102 || b == 110 || b == 114 || b == 116

/-- The inside of a string up to its closing quote, and what follows it.
    `pending` counts the hexadecimal digits an escape still needs. -/
def stringInside : (pending : Nat) → Text → Option (Text × Text)
  | _, [] => none
  | n + 1, b :: r =>
    if (hexValue? b).isSome then (stringInside n r).map fun (s, rest) => (b :: s, rest) else none
  | 0, b :: r =>
    if b = 34 then some ([], r)
    else if b < 32 then none
    else if b = 92 then
      match r with
      | e :: r' =>
        if e = 117 then (stringInside 4 r').map fun (s, rest) => (b :: e :: s, rest)
        else if isEscapeLetter e then
          (stringInside 0 r').map fun (s, rest) => (b :: e :: s, rest)
        else none
      | [] => none
    else (stringInside 0 r).map fun (s, rest) => (b :: s, rest)

/-- A decimal digit. -/
def isDigit (b : UInt8) : Bool := 48 ≤ b && b ≤ 57

/-- The digits at the start of a text, at least one. -/
def digitRun (t : Text) : Option (Text × Text) :=
  let ds := t.takeWhile isDigit
  if ds.isEmpty then none else some (ds, t.drop ds.length)

/-- The digits before the point: a zero by itself, or a run that does not
    start with one. -/
def wholePart : Text → Option (Text × Text)
  | 48 :: r => some ([48], r)
  | t => digitRun t

/-- A point with digits after it, if there is a point. -/
def fractionPart : Text → Option (Text × Text)
  | 46 :: r => (digitRun r).map fun (ds, rest) => (46 :: ds, rest)
  | t => some ([], t)

/-- A power of ten, if there is the letter for it. -/
def exponentPart : Text → Option (Text × Text)
  | e :: r =>
    if e = 101 ∨ e = 69 then
      match r with
      | s :: r' =>
        if s = 43 ∨ s = 45 then (digitRun r').map fun (ds, rest) => (e :: s :: ds, rest)
        else (digitRun r).map fun (ds, rest) => (e :: ds, rest)
      | [] => none
    else some ([], e :: r)
  | [] => some ([], [])

/-- The number at the start of a text, and what follows it. -/
def numeral (t : Text) : Option (Text × Text) := do
  let (sign, t) := match t with
    | 45 :: r => ([45], r)
    | t => (([] : Text), t)
  let (whole, t) ← wholePart t
  let (fraction, t) ← fractionPart t
  let (exponent, t) ← exponentPart t
  pure (sign ++ whole ++ fraction ++ exponent, t)

/-- How many arrays and objects may stand open at once. A document that opens
    one more is refused. -/
def deepest : Nat := 10000

mutual

/-- The value at the start of a text, and what follows it. `levels` counts the
    arrays and objects that may still be opened inside each other. -/
def value : (fuel : Nat) → (levels : Nat) → Text → Option (Json × Text)
  | 0, _, _ => none
  | fuel + 1, levels, t =>
    match skip t with
    | [] => none
    | b :: r =>
      if b = 123 then
        match levels with
        | 0 => none
        | inside + 1 =>
          match skip r with
          | 125 :: rest => some (.object [], rest)
          | r => (members fuel inside r).map fun (ms, rest) => (.object ms, rest)
      else if b = 91 then
        match levels with
        | 0 => none
        | inside + 1 =>
          match skip r with
          | 93 :: rest => some (.array [], rest)
          | r => (items fuel inside r).map fun (vs, rest) => (.array vs, rest)
      else if b = 34 then (stringInside 0 r).map fun (s, rest) => (.string s, rest)
      else if b = 45 ∨ isDigit b then
        (numeral (b :: r)).map fun (n, rest) => (.number n, rest)
      else
        match Text.dropStart? "true" (b :: r), Text.dropStart? "false" (b :: r),
          Text.dropStart? "null" (b :: r) with
        | some rest, _, _ => some (.bool true, rest)
        | none, some rest, _ => some (.bool false, rest)
        | none, none, some rest => some (.null, rest)
        | none, none, none => none

/-- The items of an array after its bracket, at least one, and what follows
    the closing bracket. -/
def items : (fuel : Nat) → (levels : Nat) → Text → Option (List Json × Text)
  | 0, _, _ => none
  | fuel + 1, levels, t =>
    match value fuel levels t with
    | none => none
    | some (v, rest) =>
      match skip rest with
      | 44 :: more => (items fuel levels more).map fun (vs, rest) => (v :: vs, rest)
      | 93 :: rest => some ([v], rest)
      | _ => none

/-- The members of an object after its brace, at least one, and what follows
    the closing brace. -/
def members : (fuel : Nat) → (levels : Nat) → Text → Option (List (Text × Json) × Text)
  | 0, _, _ => none
  | fuel + 1, levels, t =>
    match skip t with
    | 34 :: r =>
      match stringInside 0 r with
      | none => none
      | some (name, rest) =>
        match skip rest with
        | 58 :: r =>
          match value fuel levels r with
          | none => none
          | some (v, rest) =>
            match skip rest with
            | 44 :: more =>
              (members fuel levels more).map fun (ms, rest) => ((name, v) :: ms, rest)
            | 125 :: rest => some ([(name, v)], rest)
            | _ => none
        | _ => none
    | _ => none

end

/-- The value that a document writes, with nothing but white space around
    it. -/
def read (t : Text) : Option Json :=
  match value (t.length + 1) deepest t with
  | some (v, rest) => if (skip rest).isEmpty then some v else none
  | none => none

end PocketScript.Json
