import PocketScript.Prompt.Styled

/-!
# The input field

A line that is being typed. It holds at most a thousand characters, none of
them a control character, and a cursor between them. If the line is longer
than the field is wide, a window of it is shown, which moves only as far as it
has to when the cursor leaves it. The width of the line is that of its
clusters, while the window is moved by characters.

## Main definitions

* `Field`: A line with a cursor and a window.
* `Field.clean`: The characters that a field takes.
* `Field.setValue`, `Field.insert`, `Field.backspace`, `Field.moveTo`: Editing.
* `Field.view`: What is shown.
-/

namespace PocketScript

/-- A line that is being typed: its characters, the position of the cursor
    among them, the window `[offset, right)` that is shown, the width of the
    field and the text in front of it. -/
structure Field where
  value : List Rune := []
  cursor : Nat := 0
  offset : Nat := 0
  right : Nat := 0
  width : Nat := 60
  prompt : Text
deriving Repr, DecidableEq, Inhabited

namespace Field

/-- The most characters a field holds. -/
def limit : Nat := 1000

/-- What an empty field shows. -/
def hint : Text := "echo 1 + 2;"

/-- A control character. -/
def isControl (r : Rune) : Bool := r < 32 || (127 ≤ r && r < 160)

/-- The characters that a field takes: blanks for tabs and line ends, and no
    other control characters. -/
def clean (rs : List Rune) : List Rune :=
  rs.filterMap fun r =>
    if r = Rune.replacement then none
    else if r = 9 ∨ r = 10 ∨ r = 13 then some 32
    else if isControl r then none
    else some r

/-- How many characters from the front fit into `width + 1` columns, given
    that `used` columns are taken. Every character counts by itself. -/
def fitFront (width : Nat) : (used : Nat) → List Rune → Nat
  | _, [] => 0
  | used, r :: rs =>
    if width < used then 0
    else
      let used := used + r.columns
      if used ≤ width + 1 then fitFront width used rs + 1 else 0

/-- How many characters before the last one fit, counting from the back, given
    the characters in reverse. The last one gives its room to the cursor. -/
def fitBack (width : Nat) : (used : Nat) → List Rune → Nat
  | _, [] => 0
  | _, [_] => 0
  | used, r :: rs =>
    if width ≤ used then 0
    else
      let used := used + r.columns
      if used ≤ width then fitBack width used rs + 1 else 0

/-- Moves the window so that the cursor is in it. -/
def scroll (f : Field) : Field :=
  if Cluster.columns f.value ≤ f.width then { f with offset := 0, right := f.value.length }
  else
    let right := min f.right f.value.length
    if f.cursor < f.offset then
      { f with
        offset := f.cursor
        right := f.cursor + fitFront f.width 0 (f.value.drop f.cursor) }
    else if right ≤ f.cursor then
      { f with
        right := f.cursor
        offset := f.cursor - fitBack f.width 0 (f.value.take f.cursor).reverse }
    else { f with right := right }

/-- Puts the cursor at a position. -/
def moveTo (n : Nat) (f : Field) : Field := scroll { f with cursor := min n f.value.length }

/-- Replaces the characters. The cursor goes to their end if the field was
    empty with the cursor at its start, or if it would lie past the end. -/
def replace (rs : List Rune) (f : Field) : Field :=
  let g := { f with value := rs.take limit }
  if (f.cursor = 0 ∧ f.value.isEmpty) ∨ g.value.length < f.cursor then g.moveTo g.value.length
  else scroll g

/-- Gives the field a text. -/
def setValue (t : Text) (f : Field) : Field := f.replace (clean t.runes)

/-- Gives the field a text and puts the cursor at its end. -/
def setEnding (t : Text) (f : Field) : Field :=
  let f := f.setValue t
  f.moveTo f.value.length

/-- Types characters at the cursor, as many as there is room for. -/
def insert (rs : List Rune) (f : Field) : Field :=
  if limit ≤ f.value.length then scroll f
  else
    let typed := (clean rs).take (limit - f.value.length)
    let value := f.value.take f.cursor ++ typed ++ f.value.drop f.cursor
    scroll (replace value { f with cursor := f.cursor + typed.length })

/-- Removes the character before the cursor. -/
def backspace (f : Field) : Field :=
  if f.cursor = 0 then scroll f
  else
    let value := f.value.take (f.cursor - 1) ++ f.value.drop f.cursor
    moveTo (f.cursor - 1) { f with value := value }

/-- The text of the field. -/
def text (f : Field) : Text := Text.ofRunes f.value

/-- What is shown: the text in front, then the window with room for the
    cursor, filled up to one column more than the width. -/
def view (f : Field) : Text :=
  let lead := Styled.render f.prompt
  if f.value.isEmpty then lead ++ hint ++ Text.spaces (f.width + 1 - hint.length)
  else
    let shown := (f.value.take f.right).drop f.offset
    let used := Cluster.columns shown
    let atEnd := shown.length ≤ f.cursor - f.offset
    let room := if atEnd then 1 else 0
    let filler := if used ≤ f.width then f.width + 1 - used - room else 0
    lead ++ Text.ofRunes shown ++ Text.spaces (room + filler)

end Field

end PocketScript
