import PocketScript.Text.Quoted

/-!
# JSON values

The exchange format that editors speak and that listings are written in.

Strings and numbers are kept the way they were written: a string as the text
between its quotes, escapes and all, and a number as its digits. A request's
identifier has to be sent back exactly as it came, and a number that is too
long for any machine type is still a perfectly good identifier; so the reader
does not interpret, and the accessors here do.

## Main definitions

* `Json`: A value.
* `Json.unescape`: The text that the inside of a string stands for.
* `Json.escape`: The inside of a string that stands for a text.
* `Json.text?`, `Json.integer?`, `Json.members?`: Typed access.
-/

namespace PocketScript

/-- A JSON value. `string` holds what stands between the quotes and `number`
    holds the digits, both as written; so do the names of an object. -/
inductive Json where
  | null
  | bool (b : Bool)
  | number (written : Text)
  | string (inside : Text)
  | array (items : List Json)
  | object (members : List (Text × Json))
deriving Repr, Inhabited

namespace Json

/-- The value of a hexadecimal digit. -/
def hexValue? (b : UInt8) : Option Nat :=
  if 48 ≤ b ∧ b ≤ 57 then some (b.toNat - 48)
  else if 97 ≤ b ∧ b ≤ 102 then some (b.toNat - 87)
  else if 65 ≤ b ∧ b ≤ 70 then some (b.toNat - 55)
  else none

/-- The number that four hexadecimal digits at the start of a text name. -/
def hexQuad? : Text → Option Nat
  | a :: b :: c :: d :: _ => do
    let a ← hexValue? a
    let b ← hexValue? b
    let c ← hexValue? c
    let d ← hexValue? d
    pure (((a * 16 + b) * 16 + c) * 16 + d)
  | _ => none

/-- Half of a surrogate pair. -/
def isSurrogate (r : Rune) : Bool := 0xD800 ≤ r && r < 0xE000

/-- The code point of a surrogate pair, if the two halves make one. -/
def pair? (hi lo : Rune) : Option Rune :=
  if 0xD800 ≤ hi ∧ hi < 0xDC00 ∧ 0xDC00 ≤ lo ∧ lo < 0xE000 then
    some ((hi - 0xD800) * 1024 + (lo - 0xDC00) + 0x10000)
  else none

/-- The character that an escape letter stands for. -/
def escapedByte : UInt8 → UInt8
  | 98 => 8
  | 102 => 12
  | 110 => 10
  | 114 => 13
  | 116 => 9
  | b => b

/-- The second half of a surrogate pair, where it follows as an escape. -/
def lowHalf? : Text → Option Rune
  | 92 :: 117 :: r => hexQuad? r
  | _ => none

/-- The text that the inside of a string stands for, after passing over
    `skip` bytes that an escape has used up. Halves of surrogate pairs that
    stand alone become the replacement character. -/
def unescapeAfter : Nat → Text → Text
  | _, [] => []
  | skip + 1, _ :: r => unescapeAfter skip r
  | 0, b :: r =>
    if b = 92 then
      match r with
      | 117 :: digits =>
        let code := (hexQuad? digits).getD Rune.replacement
        if isSurrogate code then
          match (lowHalf? (digits.drop 4)).bind (pair? code) with
          | some joined => Rune.encode joined ++ unescapeAfter 11 r
          | none => Rune.encode Rune.replacement ++ unescapeAfter 5 r
        else Rune.encode code ++ unescapeAfter 5 r
      | letter :: _ => escapedByte letter :: unescapeAfter 1 r
      | [] => []
    else b :: unescapeAfter 0 r

/-- Bytes that spell no character become the replacement character. -/
def repaired (t : Text) : Text :=
  t.glyphs.flatMap fun g => if g.isBroken then Rune.encode Rune.replacement else g.bytes

/-- The text that the inside of a string stands for. -/
def unescape (inside : Text) : Text := unescapeAfter 0 (repaired inside)

/-- The escape of four hexadecimal digits. -/
def escapeCode (r : Rune) : Text := [92, 117] ++ Text.hex 4 r

/-- Characters that are escaped wherever they stand, because they mean
    something to a page or a script that the text may be pasted into. -/
def isDelicate (r : Rune) : Bool := r == 60 || r == 62 || r == 38 || r == 0x2028 || r == 0x2029

/-- A glyph inside a string. -/
def escapeGlyph (g : Glyph) : Text :=
  if g.isBroken then escapeCode Rune.replacement
  else if g.code = 34 ∨ g.code = 92 then 92 :: g.bytes
  else match g.code with
    | 8 => [92, 98]
    | 9 => [92, 116]
    | 10 => [92, 110]
    | 12 => [92, 102]
    | 13 => [92, 114]
    | _ => if g.code < 32 ∨ isDelicate g.code then escapeCode g.code else g.bytes

/-- The inside of a string that stands for a text. -/
def escape (t : Text) : Text := t.glyphs.flatMap escapeGlyph

/-- The string value of a text. -/
def ofText (t : Text) : Json := string (escape t)

/-- The number value of an integer. -/
def ofInt (n : Int) : Json := number (Text.decimal n)

/-- An object with the given names. -/
def record (members : List (String × Json)) : Json :=
  object (members.map fun (k, v) => (escape (utf8 k), v))

/-- The text of a string value. -/
def text? : Json → Option Text
  | string inside => some (unescape inside)
  | _ => none

/-- A run of decimal digits, all of them digits and at least one. -/
def digits? (t : Text) : Option Nat :=
  if t.isEmpty ∨ ¬ t.all (fun b => 48 ≤ b && b ≤ 57) then none
  else some (t.foldl (fun n b => 10 * n + (b.toNat - 48)) 0)

/-- An integer of 64 bits. -/
def isWord64 (n : Int) : Bool := -0x8000000000000000 ≤ n && n < 0x8000000000000000

/-- The integer that a number value writes without point and exponent, if it
    fits into 64 bits. -/
def integer? : Json → Option Int
  | number (45 :: ds) => ((digits? ds).map fun n => -(n : Int)).filter isWord64
  | number ds => ((digits? ds).map fun n => (n : Int)).filter isWord64
  | _ => none

/-- The integer that a text writes in decimal, with or without a sign. -/
def signed? : Text → Option Int
  | 45 :: ds => (digits? ds).map fun n => -(n : Int)
  | 43 :: ds => (digits? ds).map fun n => (n : Int)
  | ds => (digits? ds).map fun n => (n : Int)

/-- The double nearest to a written number. -/
def float? : Json → Option Float
  | number written =>
    let (negative, body) := match written with
      | 45 :: r => (true, r)
      | r => (false, r)
    let isPower (b : UInt8) : Bool := b == 101 || b == 69
    let digits := body.takeWhile fun b => !isPower b
    let power := (signed? (body.drop (digits.length + 1))).getD 0
    let whole := digits.takeWhile (· != 46)
    let fraction := digits.drop (whole.length + 1)
    (digits? (whole ++ fraction)).map fun n =>
      let shift := power - fraction.length
      let x := Float.ofScientific n (shift < 0) shift.natAbs
      if negative then -x else x
  | _ => none

/-- The members of an object, with their names read. -/
def members? : Json → Option (List (Text × Json))
  | object ms => some (ms.map fun (k, v) => (unescape k, v))
  | _ => none

/-- The member of an object with a given name; of several the last. -/
def member? (name : Text) (j : Json) : Option Json :=
  match j.members? with
  | some ms => (ms.reverse.find? fun m => m.1 == name).map Prod.snd
  | none => none

end Json

end PocketScript
