import PocketScript.Text.Glyph

/-!
# Positions

Where something stands in a source text. Lines and columns start at one, a
line ends with its line feed, and a column counts characters. Positions are
integers rather than natural numbers because hosts may hand in tokens and
errors of their own making, whose positions nobody has checked.

## Main definitions

* `Position`: A line and a column.
* `Position.after`: The position after one character.
* `Position.afterAll`: The position after a run of characters.
-/

namespace PocketScript

/-- A line and a column of a source text, both counted from one. -/
structure Position where
  line : Int
  column : Int
deriving Repr, DecidableEq, Inhabited

namespace Position

/-- The position of the first character of a text. -/
def start : Position := ⟨1, 1⟩

/-- The position after a character that stands at `p`. -/
def after (p : Position) (g : Glyph) : Position :=
  if g.code = 10 then ⟨p.line + 1, 1⟩ else ⟨p.line, p.column + 1⟩

/-- The position after a run of characters that starts at `p`. -/
def afterAll (p : Position) (gs : List Glyph) : Position := gs.foldl after p

end Position

end PocketScript
