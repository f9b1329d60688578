import PocketScript.Token.Scan

/-!
# Places in a document

Editors count columns in UTF-16 units, from zero, while tokens count
characters, from one. Here the two are converted into each other, and the
word under a cursor is found.

## Main definitions

* `Rune.lineUnits`: The units of a run of characters.
* `unitOffset`: The unit a column of a line starts at.
* `runeIndex`: The character that contains a unit.
* `wordAt`: The word under or just before a cursor.
-/

namespace PocketScript

/-- The UTF-16 units that a run of characters takes. -/
def Rune.lineUnits (rs : List Rune) : Nat := rs.foldr (fun r n => r.units + n) 0

/-- The index of the character that contains a unit, or the number of
    characters if the unit lies past them. -/
def runeIndex : List Rune → (offset : Nat) → Nat
  | [], _ => 0
  | r :: rest, offset => if offset < r.units then 0 else runeIndex rest (offset - r.units) + 1

/-- The unit at which a column of a run of characters starts. Past the end
    every column counts one unit. -/
def columnUnits (rs : List Rune) (column : Nat) : Nat :=
  Rune.lineUnits (rs.take column) + (column - rs.length)

/-- The unit at which a column of a line starts, lines and columns counted
    from zero. A line that the source does not have counts one unit for every
    column. -/
def unitOffset (source : Text) (line column : Int) : Int :=
  match source.lines[line.toNat]? with
  | some l => columnUnits l.runes column.toNat
  | none => column

/-- The word of a list of characters that contains index `i`: what continues
    to the left of it and what continues to the right. -/
def wordAround (rs : List Rune) (i : Nat) : List Rune :=
  let left := ((rs.take i).reverse.takeWhile Rune.continuesWord).reverse
  let right := (rs.drop i).takeWhile Rune.continuesWord
  left ++ right

/-- The character at an index is part of a word. -/
def isWordAt (rs : List Rune) (i : Nat) : Bool := (rs[i]?).elim false Rune.continuesWord

/-- The word under a cursor, or else the word that ends just before it. The
    cursor is a line and a UTF-16 unit, both counted from zero. -/
def wordAt (source : Text) (line character : Int) : Text :=
  if line < 0 then []
  else match source.lines[line.toNat]? with
    | none => []
    | some l =>
      let rs := l.dropTrailingReturns.runes
      let cursor := runeIndex rs character.toNat
      if isWordAt rs cursor then Text.ofRunes (wordAround rs cursor)
      else if 0 < cursor ∧ isWordAt rs (cursor - 1) then
        Text.ofRunes (wordAround rs (cursor - 1))
      else []

end PocketScript
