import PocketScript.Token.Scan

/-!
# Tidy layout

A source without the blanks that nobody sees. Every line loses the white space
at its end, and the file ends with exactly one line feed, or is empty. A line
that ends inside a string is left alone, because its blanks belong to the
string. A source that does not scan is refused.

## Main definitions

* `Token.openLines`: The lines that end inside a token.
* `Layout.tidyLine`: A line without the white space at its end.
* `Layout.tidy`: A source in tidy layout.
-/

namespace PocketScript

/-- The numbers of the lines that end inside a string token. -/
def Token.openLines (t : Token) : List Int :=
  if t.kind = .string then
    (List.range (t.lexeme.count Text.lineFeed)).map fun (i : Nat) => t.pos.line + (i : Int)
  else []

namespace Layout

/-- White space that a line does not keep at its end. -/
def isTrailing (b : UInt8) : Bool := b == 32 || b == 9 || b == 13

/-- A line without the white space at its end. -/
def tidyLine (line : Text) : Text := line.dropTrailing isTrailing

/-- The lines from number `n` on, tidied unless they are open. -/
def tidyLines (isOpen : Int → Bool) : (n : Int) → List Text → List Text
  | _, [] => []
  | n, line :: rest => (if isOpen n then line else tidyLine line) :: tidyLines isOpen (n + 1) rest

/-- A text with exactly one line feed at its end, unless nothing else is
    left of it. -/
def closed (t : Text) : Text :=
  let body := t.dropTrailing (· == Text.lineFeed)
  if body.isEmpty then [] else body ++ [Text.lineFeed]

/-- A source in tidy layout. -/
def tidy (source : Text) : Except LexicalFault Text :=
  match Token.scan source with
  | .error e => .error e
  | .ok tokens =>
    let opened := tokens.flatMap Token.openLines
    .ok (closed (Text.unlines (tidyLines opened.contains 1 source.lines)))

end Layout

end PocketScript
