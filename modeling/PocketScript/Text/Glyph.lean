import PocketScript.Text.Basic

/-!
# Glyphs

A text read as characters.

A glyph is a code point together with the bytes that spell it. The reading is
greedy and never fails: a byte that starts no well-formed sequence stands for
the replacement character by itself and the reading goes on with the next
byte. Surrogates and overlong spellings are not well-formed. Keeping the
bytes in the glyph means that nothing is lost, so `glyphs` can be undone by
writing the bytes of its glyphs one after the other.

## Main definitions

* `Glyph`: A code point and its spelling.
* `Glyph.first`: Code point and width of the first character of a text.
* `Text.glyphs`: The characters of a text.
* `Text.runes`: Their code points.
* `Rune.encode`: The UTF-8 spelling of a code point.

## Theorems

* `Text.glyphs_spell`: The spellings of the glyphs make up the text.
-/

namespace PocketScript

/-- A code point. -/
abbrev Rune := Nat

/-- The character that stands for bytes which spell none. -/
def Rune.replacement : Rune := 0xFFFD

/-- A character of a text: its code point and the bytes it is spelled with. -/
structure Glyph where
  code : Rune
  bytes : Text
deriving Repr, DecidableEq, Inhabited

namespace Glyph

/-- A byte that continues a sequence, within the bounds its first byte sets. -/
def isTrail (lo hi : Nat) (b : UInt8) : Bool := lo ≤ b.toNat && b.toNat ≤ hi

/-- The six low bits that a continuing byte contributes. -/
def low (b : UInt8) : Nat := b.toNat % 64

/-- A two-byte sequence, given its first byte. -/
def two (b : Nat) : Text → Rune × Nat
  | c :: _ => if isTrail 0x80 0xBF c then ((b % 32) * 64 + low c, 2) else (Rune.replacement, 1)
  | [] => (Rune.replacement, 1)

/-- A three-byte sequence, given its first byte and the bounds of the second. -/
def three (b lo hi : Nat) : Text → Rune × Nat
  | c :: d :: _ =>
    if isTrail lo hi c && isTrail 0x80 0xBF d then
      ((b % 16) * 4096 + low c * 64 + low d, 3)
    else (Rune.replacement, 1)
  | _ => (Rune.replacement, 1)

/-- A four-byte sequence, given its first byte and the bounds of the second. -/
def four (b lo hi : Nat) : Text → Rune × Nat
  | c :: d :: e :: _ =>
    if isTrail lo hi c && isTrail 0x80 0xBF d && isTrail 0x80 0xBF e then
      ((b % 8) * 262144 + low c * 4096 + low d * 64 + low e, 4)
    else (Rune.replacement, 1)
  | _ => (Rune.replacement, 1)

/-- Code point and width of the character that starts with byte `b` and goes
    on in `rest`. The bounds on the second byte shut out overlong spellings,
    surrogates and code points past the last plane. -/
def first (b : UInt8) (rest : Text) : Rune × Nat :=
  let n := b.toNat
  if n < 0x80 then (n, 1)
  else if n < 0xC2 then (Rune.replacement, 1)
  else if n < 0xE0 then two n rest
  else if n = 0xE0 then three n 0xA0 0xBF rest
  else if n = 0xED then three n 0x80 0x9F rest
  else if n < 0xF0 then three n 0x80 0xBF rest
  else if n = 0xF0 then four n 0x90 0xBF rest
  else if n < 0xF4 then four n 0x80 0xBF rest
  else if n = 0xF4 then four n 0x80 0x8F rest
  else (Rune.replacement, 1)

/-- A byte that spells the replacement character because it spells nothing
    else. -/
def isBroken (g : Glyph) : Bool := g.code == Rune.replacement && g.bytes.length == 1

end Glyph

namespace Text

/-- The characters of a text after its first `skip` bytes, which belong to a
    character already read. -/
def glyphsAfter : Nat → Text → List Glyph
  | _, [] => []
  | skip + 1, _ :: r => glyphsAfter skip r
  | 0, b :: r =>
    let (code, width) := Glyph.first b r
    ⟨code, b :: r.take (width - 1)⟩ :: glyphsAfter (width - 1) r

/-- The characters of a text. -/
def glyphs (t : Text) : List Glyph := glyphsAfter 0 t

/-- The code points of a text. -/
def runes (t : Text) : List Rune := t.glyphs.map Glyph.code

/-- The bytes of a list of glyphs. -/
def ofGlyphs (gs : List Glyph) : Text := gs.flatMap Glyph.bytes

theorem glyphsAfter_spell (t : Text) :
    ∀ skip, (glyphsAfter skip t).flatMap Glyph.bytes = t.drop skip := by
  induction t with
  | nil => intro skip; cases skip <;> rfl
  | cons b r ih =>
      intro skip
      cases skip with
      | succ k => simpa [glyphsAfter] using ih k
      | zero => simp [glyphsAfter, ih]

/-- The spellings of the glyphs, one after the other, are the text. -/
theorem glyphs_spell (t : Text) : ofGlyphs t.glyphs = t := by
  simpa [glyphs, ofGlyphs] using glyphsAfter_spell t 0

/-- Is every byte part of a well-formed character? -/
def isWellFormed (t : Text) : Bool := t.glyphs.all fun g => !g.isBroken

end Text

namespace Rune

/-- A code point that UTF-8 can spell. -/
def isScalar (r : Rune) : Bool := r < 0xD800 || (0xE000 ≤ r && r < 0x110000)

/-- The UTF-8 spelling of a code point; one that has none is spelled like the
    replacement character. -/
def encode (r : Rune) : Text :=
  if r < 0x80 then [r.toUInt8]
  else if r < 0x800 then [(0xC0 + r / 64).toUInt8, (0x80 + r % 64).toUInt8]
  else if !isScalar r then [0xEF, 0xBF, 0xBD]
  else if r < 0x10000 then
    [(0xE0 + r / 4096).toUInt8, (0x80 + r / 64 % 64).toUInt8, (0x80 + r % 64).toUInt8]
  else
    [(0xF0 + r / 262144).toUInt8, (0x80 + r / 4096 % 64).toUInt8,
      (0x80 + r / 64 % 64).toUInt8, (0x80 + r % 64).toUInt8]

/-- The number of UTF-16 units a code point takes. -/
def units (r : Rune) : Nat := if 0x10000 ≤ r then 2 else 1

end Rune

/-- The UTF-8 text of a list of code points. -/
def Text.ofRunes (rs : List Rune) : Text := rs.flatMap Rune.encode

end PocketScript
