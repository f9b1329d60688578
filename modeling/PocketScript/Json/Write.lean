import PocketScript.Json.Basic

/-!
# Writing JSON

A value on one line without blanks, or spread over lines with two blanks for
every level of nesting. Strings are copied as they were written, except that
characters with a meaning to pages and scripts are escaped.

## Main definitions

* `Json.compact`: A value on one line.
* `Json.indented`: A value over several lines.
-/

namespace PocketScript.Json

/-- The inside of a string as it is written out. -/
def guarded (inside : Text) : Text :=
  inside.glyphs.flatMap fun g => if isDelicate g.code then escapeCode g.code else g.bytes

/-- A string between its quotes. -/
def quote (inside : Text) : Text := [34] ++ guarded inside ++ [34]

mutual

/-- A value on one line, without blanks. -/
def compact : Json → Text
  | .null => "null"
  | .bool b => if b then "true" else "false"
  | .number n => n
  | .string s => quote s
  | .array vs => [91] ++ compactItems vs ++ [93]
  | .object ms => [123] ++ compactMembers ms ++ [125]

/-- The items of an array, a comma between neighbours. -/
def compactItems : List Json → Text
  | [] => []
  | [v] => compact v
  | v :: vs => compact v ++ [44] ++ compactItems vs

/-- The members of an object, a comma between neighbours. -/
def compactMembers : List (Text × Json) → Text
  | [] => []
  | [(k, v)] => quote k ++ [58] ++ compact v
  | (k, v) :: ms => quote k ++ [58] ++ compact v ++ [44] ++ compactMembers ms

end

/-- A new line with two blanks for every level. -/
def newLine (depth : Nat) : Text := 10 :: Text.spaces (2 * depth)

mutual

/-- A value over several lines, its own level being `depth`. What is empty
    stays on its line. -/
def indented (depth : Nat) : Json → Text
  | .array [] => "[]"
  | .object [] => "\x7b\x7d"
  | .array (v :: vs) =>
    [91] ++ newLine (depth + 1) ++ indentedItems (depth + 1) (v :: vs) ++ newLine depth ++ [93]
  | .object (m :: ms) =>
    [123] ++ newLine (depth + 1) ++ indentedMembers (depth + 1) (m :: ms) ++ newLine depth ++ [125]
  | .null => "null"
  | .bool b => if b then "true" else "false"
  | .number n => n
  | .string s => quote s

/-- The items of an array, one to a line. -/
def indentedItems (depth : Nat) : List Json → Text
  | [] => []
  | [v] => indented depth v
  | v :: vs => indented depth v ++ [44] ++ newLine depth ++ indentedItems depth vs

/-- The members of an object, one to a line. -/
def indentedMembers (depth : Nat) : List (Text × Json) → Text
  | [] => []
  | [(k, v)] => quote k ++ [58, 32] ++ indented depth v
  | (k, v) :: ms =>
    quote k ++ [58, 32] ++ indented depth v ++ [44] ++ newLine depth ++ indentedMembers depth ms

end

end PocketScript.Json
