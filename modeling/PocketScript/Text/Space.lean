import PocketScript.Text.Glyph

/-!
# White space

Trimming a text at both ends, by Unicode's idea of white space.

## Main definitions

* `Rune.isSpace`: A white space character.
* `Text.trim`: A text without the white space at its ends.
* `Text.isBlank`: A text of nothing but white space.
-/

namespace PocketScript

/-- A white space character. -/
def Rune.isSpace (r : Rune) : Bool :=
  (9 ≤ r && r ≤ 13) || r == 32 || r == 0x85 || r == 0xA0 || r == 0x1680 ||
    (0x2000 ≤ r && r ≤ 0x200A) || r == 0x2028 || r == 0x2029 || r == 0x202F ||
    r == 0x205F || r == 0x3000

/-- A glyph that trimming removes. -/
def Glyph.isSpace (g : Glyph) : Bool := Rune.isSpace g.code

namespace Text

/-- The text without the white space at its ends. -/
def trim (t : Text) : Text :=
  ofGlyphs ((t.glyphs.dropWhile Glyph.isSpace).reverse.dropWhile Glyph.isSpace).reverse

/-- A text of nothing but white space. -/
def isBlank (t : Text) : Bool := t.glyphs.all Glyph.isSpace

end Text

end PocketScript
