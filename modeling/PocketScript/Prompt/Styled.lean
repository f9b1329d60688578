import PocketScript.Text.Steering

/-!
# Styled texts

What the screen does to a text before it shows it, colours apart. A tab becomes
four blanks, a line end becomes a plain line feed, and a text of several lines is
made rectangular: every line is filled with blanks to the width of the widest. A
panel is such a rectangle in a frame with round corners.

## Main definitions

* `Styled.render`: A text as the screen shows it.
* `Styled.panel`: A text in a frame.
* `Styled.height`: The number of lines.
-/

namespace PocketScript.Styled

/-- Four blanks for every tab. -/
def expandTabs (t : Text) : Text := t.flatMap fun b => if b = 9 then Text.spaces 4 else [b]

/-- A plain line feed for every line feed after a carriage return. -/
def plainLineEnds : Text → Text
  | [] => []
  | [b] => [b]
  | a :: b :: rest =>
    if a = 13 ∧ b = 10 then plainLineEnds (b :: rest) else a :: plainLineEnds (b :: rest)

/-- The width of the widest line. -/
def widest (lines : List Text) : Nat := lines.foldl (fun w l => max w l.columns) 0

/-- A line filled with blanks to a width. -/
def fill (width : Nat) (line : Text) : Text := line ++ Text.spaces (width - line.columns)

/-- Lines made equally wide. -/
def rectangle (lines : List Text) : List Text := lines.map (fill (widest lines))

/-- A text as the screen shows it. -/
def render (t : Text) : Text :=
  Text.unlines (rectangle (plainLineEnds (expandTabs t)).lines)

/-- A line with a blank at either side. -/
def spaced (line : Text) : Text := " " ++ line ++ " "

/-- A line between the sides of a frame. -/
def framed (line : Text) : Text := "│" ++ line ++ "│"

/-- The lines of a text in a frame, with a blank at either side. -/
def panel (t : Text) : Text :=
  let lines := rectangle ((plainLineEnds (expandTabs t)).lines.map spaced)
  let bar := Text.times (widest lines) "─"
  let top : Text := "╭" ++ bar ++ "╮"
  let bottom : Text := "╰" ++ bar ++ "╯"
  Text.unlines (top :: lines.map framed ++ [bottom])

/-- The number of lines of a text. -/
def height (t : Text) : Nat := t.count Text.lineFeed + 1

end PocketScript.Styled
