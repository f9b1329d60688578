/-!
# Texts

A text is a list of bytes.

Scripts arrive from files, pipes and editors, and nothing promises that their
bytes are well-formed UTF-8. A string literal keeps whatever stands between
its quotes, so a program can hold, compare and print bytes that no `String`
can. Every text of this library is therefore a `List UInt8`, and reading the
bytes as characters is a view of it (`PocketScript.Text.Glyph`) rather than
its type.

Messages are written as string literals and coerced, which takes their UTF-8
bytes.

## Main definitions

* `Text`: A list of bytes.
* `utf8`: The bytes of a string.
* `Text.decimal`: An integer in decimal digits.
* `Text.splitOn`, `Text.lines`, `Text.join`: Cutting a text at a byte, and
  gluing pieces together.
* `Text.le`: Byte order, which every sorted listing uses.
* `Text.replaceByte`, `Text.dropTrailing`, `Text.spaces`: Small edits.
-/

namespace PocketScript

/-- A list of bytes, read as UTF-8 where a reading is asked for. -/
abbrev Text := List UInt8

/-- The UTF-8 bytes of a string. -/
def utf8 (s : String) : Text := s.toUTF8.data.toList

instance : Coe String Text := ⟨utf8⟩

namespace Text

/-- The byte that ends a line. -/
def lineFeed : UInt8 := 10

/-- The byte that some editors write before the line feed. -/
def carriageReturn : UInt8 := 13

/-- Decimal digits of a natural number, without leading zeros. -/
def natural (n : Nat) : Text := (Nat.toDigits 10 n).map fun c => c.toNat.toUInt8

/-- An integer in decimal, with a minus sign in front of a negative one. -/
def decimal : Int → Text
  | .ofNat n => natural n
  | .negSucc n => 45 :: natural (n + 1)

/-- A run of blanks. -/
def spaces (n : Nat) : Text := List.replicate n 32

/-- The text written `n` times. -/
def times (n : Nat) (t : Text) : Text := (List.replicate n t).flatten

/-- The pieces between the occurrences of a byte. There is always one piece
    more than there are occurrences. -/
def splitOn (sep : UInt8) : Text → List Text
  | [] => [[]]
  | b :: r =>
    if b = sep then [] :: splitOn sep r
    else match splitOn sep r with
      | [] => [[b]]
      | piece :: more => (b :: piece) :: more

/-- The lines of a text, without their line feeds. -/
def lines (t : Text) : List Text := splitOn lineFeed t

/-- The pieces glued together with a separator between neighbours. -/
def join (sep : Text) : List Text → Text
  | [] => []
  | [t] => t
  | t :: rest => t ++ sep ++ join sep rest

/-- Pieces written one below the other. -/
def unlines (pieces : List Text) : Text := join [lineFeed] pieces

/-- Byte order: the first difference decides, and a proper beginning of a
    text comes before it. -/
def le : Text → Text → Bool
  | [], _ => true
  | _ :: _, [] => false
  | a :: as, b :: bs => if a < b then true else if b < a then false else le as bs

/-- A list of texts in byte order. -/
def sort (ts : List Text) : List Text := ts.mergeSort le

/-- One byte for another throughout. -/
def replaceByte (old new : UInt8) (t : Text) : Text :=
  t.map fun b => if b = old then new else b

/-- The text without the run of bytes at its end that satisfy `p`. -/
def dropTrailing (p : UInt8 → Bool) (t : Text) : Text := (t.reverse.dropWhile p).reverse

/-- The text without the carriage returns at its end. -/
def dropTrailingReturns (t : Text) : Text := dropTrailing (· == carriageReturn) t

/-- The rest of a text after a beginning, if it begins so. -/
def dropStart? : Text → Text → Option Text
  | [], t => some t
  | _ :: _, [] => none
  | a :: as, b :: bs => if a = b then dropStart? as bs else none

/-- Does the text begin with `start`? -/
def startsWith (start t : Text) : Bool := (dropStart? start t).isSome

/-- Small letters for the capital ones of the Latin alphabet. -/
def lowerByte (b : UInt8) : UInt8 := if 65 ≤ b ∧ b ≤ 90 then b + 32 else b

end Text

end PocketScript
