import PocketScript.Text.Letter
import PocketScript.Text.Visible

/-!
# Quoted texts

How a message shows a text or a character so that nothing in it can be
mistaken for the message itself. The text stands between quotes, a quote or a
backslash inside is marked with a backslash, visible characters are written
as they are and everything else is written as an escape: the usual one-letter
escapes for common control characters, two hexadecimal digits for the other
control characters and for bytes that spell no character, and four or eight
digits for code points beyond.

## Main definitions

* `Text.hex`: A number in a fixed number of hexadecimal digits.
* `Rune.escaped`: A character as it stands between quotes.
* `Text.quoted`: A text between double quotes.
* `Rune.quoted`: A character between single quotes.
-/

namespace PocketScript

/-- A hexadecimal digit, small letters past nine. -/
def hexDigit (n : Nat) : UInt8 := if n < 10 then (48 + n).toUInt8 else (87 + n).toUInt8

/-- The last `width` hexadecimal digits of a number. -/
def Text.hex (width n : Nat) : Text :=
  match width with
  | 0 => []
  | w + 1 => Text.hex w (n / 16) ++ [hexDigit (n % 16)]

/-- The control characters that have an escape of one letter. -/
def Rune.shortEscape? : Rune → Option UInt8
  | 7 => some 97
  | 8 => some 98
  | 9 => some 116
  | 10 => some 110
  | 11 => some 118
  | 12 => some 102
  | 13 => some 114
  | _ => none

/-- A character as it is written between two `quote`s. -/
def Rune.escaped (quote : Rune) (r : Rune) : Text :=
  if r = quote ∨ r = 92 then 92 :: r.encode
  else if r.isVisible then r.encode
  else match r.shortEscape? with
    | some letter => [92, letter]
    | none =>
      if r < 32 ∨ r = 127 then 92 :: 120 :: Text.hex 2 r
      else if r < 0x10000 then 92 :: 117 :: Text.hex 4 r
      else 92 :: 85 :: Text.hex 8 r

/-- A glyph between double quotes. A byte that spells no character is shown
    by its number. -/
def Glyph.escaped (g : Glyph) : Text :=
  if g.isBroken then g.bytes.flatMap fun b => 92 :: 120 :: Text.hex 2 b.toNat
  else Rune.escaped 34 g.code

/-- A text between double quotes. -/
def Text.quoted (t : Text) : Text := [34] ++ t.glyphs.flatMap Glyph.escaped ++ [34]

/-- A character between single quotes. A number that is no code point shows
    as the replacement character. -/
def Rune.quoted (n : Int) : Text :=
  let r : Rune := match n with
    | .ofNat k => if Rune.isScalar k then k else Rune.replacement
    | .negSucc _ => Rune.replacement
  [39] ++ Rune.escaped 39 r ++ [39]

end PocketScript
