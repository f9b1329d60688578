import PocketScript.Text.Glyph

/-!
# Tables

Text in columns. The text is cut into lines, and lines into cells by tabs.
Neighbouring lines that have a cell in the same column form a block, and in a
block the column is as wide as its widest cell and two blanks more. The last
cell of a line is not ended by a tab and counts for nothing: a line takes part
in a column only if it goes on after it. Blocks nest: within a block of one
column the blocks of the next are formed.

Control characters steer the layout wherever they stand. A vertical tab ends
a cell like a tab, and a form feed ends a line and also every block. A stretch
between two bytes 255 is sealed: nothing in it steers, and the two bytes at
its ends take no room.

## Main definitions

* `Cell`: A piece of text and the room it takes.
* `Table.cut`: Pages of lines of cells.
* `Table.align`: The lines of a page with their columns padded.
* `Table.layOut`: A text in columns.
-/

namespace PocketScript

/-- A piece of text between tabs, with the columns it takes. -/
structure Cell where
  bytes : Text
  width : Nat
deriving Repr, DecidableEq, Inhabited

namespace Table

/-- A text that has been cut up to some byte, everything newest first: the
    bytes of the current cell, how many sealed stretches were closed in it,
    the cells of the current line, the lines of the current page, and the
    pages. -/
structure Cutter where
  cell : Text := []
  closed : Nat := 0
  line : List Cell := []
  page : List (List Cell) := []
  pages : List (List (List Cell)) := []
  isSealed : Bool := false

namespace Cutter

/-- The current cell. The bytes that bound sealed stretches take no room. -/
def finished (c : Cutter) : Cell :=
  let bytes : Text := c.cell.reverse
  ⟨bytes, bytes.glyphs.length - 2 * c.closed⟩

/-- Ends the current cell. -/
def endCell (c : Cutter) : Cutter :=
  { c with cell := [], closed := 0, line := c.finished :: c.line }

/-- Ends the current line. -/
def endLine (c : Cutter) : Cutter :=
  let c := c.endCell
  { c with line := [], page := c.line.reverse :: c.page }

/-- Ends the current page. -/
def endPage (c : Cutter) : Cutter :=
  { c with page := [], pages := c.page.reverse :: c.pages }

/-- Takes in one byte. -/
def take (c : Cutter) (b : UInt8) : Cutter :=
  if c.isSealed then
    if b = 255 then
      { c with cell := b :: c.cell, closed := c.closed + 1, isSealed := false }
    else { c with cell := b :: c.cell }
  else if b = 9 ∨ b = 11 then c.endCell
  else if b = 10 then c.endLine
  else if b = 12 then c.endLine.endPage
  else if b = 255 then { c with cell := b :: c.cell, isSealed := true }
  else { c with cell := b :: c.cell }

end Cutter

/-- The pages of a text, and the cells of a last line that nothing ended. -/
def cut (t : Text) : List (List (List Cell)) × List Cell :=
  let c := t.foldl Cutter.take {}
  let c := if c.cell.isEmpty then c else c.endCell
  (c.endPage.pages.reverse, c.line.reverse)

/-- Does the line go on after the cell in a column? -/
def reaches (column : Nat) (line : List Cell) : Bool := column + 1 < line.length

/-- A line with its cells padded to the given widths. -/
def writeLine : (widths : List Nat) → List Cell → Text
  | _, [] => []
  | [], c :: cs => c.bytes ++ writeLine [] cs
  | w :: ws, c :: cs => c.bytes ++ Text.spaces (w - c.width) ++ writeLine ws cs

/-- The blanks between a cell and the next column. -/
def gutter : Nat := 2

/-- The width of a column over the lines of a block. -/
def columnWidth (column : Nat) (lines : List (List Cell)) : Nat :=
  lines.foldl (fun w cells => max w ((cells[column]?.map Cell.width).getD 0 + gutter)) 0

/-- The lines of a block, padded. `widths` are the widths of the columns in
    which the lines are known to be aligned, and `columns` bounds how many
    more there can be. -/
def align : (columns : Nat) → (widths : List Nat) → List (List Cell) → List Text
  | 0, widths, lines => lines.map (writeLine widths)
  | n + 1, widths, lines =>
    let column := widths.length
    let blocks := lines.splitBy fun a b => reaches column a == reaches column b
    blocks.flatMap fun block =>
      match block with
      | [] => []
      | line :: _ =>
        if reaches column line then align n (widths ++ [columnWidth column block]) block
        else block.map (writeLine widths)

/-- The most cells a line of a page has. -/
def columns (page : List (List Cell)) : Nat := page.foldl (fun n line => max n line.length) 0

/-- A text in columns. -/
def layOut (t : Text) : Text :=
  let (pages, last) := cut t
  -- The unended last line belongs to the last page and takes part in its blocks.
  let pages := match pages.reverse with
    | [] => [[last]]
    | page :: before => (before.reverse) ++ [page ++ [last]]
  let written := pages.flatMap fun page => align (columns page) [] page
  Text.unlines written

end Table

end PocketScript
