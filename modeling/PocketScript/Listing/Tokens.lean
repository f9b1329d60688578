import PocketScript.Json.Write
import PocketScript.Listing.Table
import PocketScript.Token.Scan

/-!
# Token listings

The tokens of a source, for people as a table and for programs as JSON.

## Main definitions

* `Listing.table`: One token to a line: position, kind, lexeme and value.
* `Listing.json`: A list of records.
-/

namespace PocketScript.Listing

/-- The value column of a token. Words that stand for their value leave it
    empty. -/
def valueColumn (t : Token) : Text :=
  match t.kind with
  | .trueWord => []
  | .falseWord => []
  | .nullWord => []
  | _ => (t.literal.map Literal.text).getD []

/-- A line of the table before it is laid out, with tabs between columns. -/
def row (t : Token) : Text :=
  Text.decimal t.pos.line ++ ":" ++ Text.decimal t.pos.column ++ "\t" ++ t.kind.name ++ "\t" ++
    t.lexeme ++ "\t" ++ valueColumn t ++ "\n"

/-- The tokens as a table. -/
def table (ts : List Token) : Text := Table.layOut (ts.flatMap row)

/-- The value of a token for other programs. Null is left out, and what is no
    finite number is written in words. -/
def valueJson? : Option Literal → Option Json
  | some (.number x) =>
    some (match Number.exchange? x with
      | some written => .number written
      | none => Json.ofText (Number.text x))
  | some (.string t) => some (Json.ofText t)
  | some (.bool b) => some (.bool b)
  | some .null => none
  | none => none

/-- A token as a record. -/
def record (t : Token) : Json :=
  let value : List (String × Json) := match valueJson? t.literal with
    | some v => [("literal", v)]
    | none => []
  Json.record (("type", Json.ofText t.kind.name) :: ("lexeme", Json.ofText t.lexeme) ::
    (value ++ [("line", Json.ofInt t.pos.line), ("column", Json.ofInt t.pos.column)]))

/-- The tokens as a list of records, over several lines. -/
def json (ts : List Token) : Text :=
  Json.indented 0 (.array (ts.map record)) ++ [Text.lineFeed]

end PocketScript.Listing
