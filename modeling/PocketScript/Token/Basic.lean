import PocketScript.Number.Written
import PocketScript.Token.Kind
import PocketScript.Token.Position

/-!
# Tokens

A token is a piece of source text together with what the grammar needs to
know of it. Its lexeme is the exact text it was read from; a literal or a
constant word also carries its value.

## Main definitions

* `Literal`: A value known before a program runs.
* `Literal.text`: The text of a literal.
* `Token`: Kind, lexeme, value and position.
* `Token.render`: Tokens written one blank apart, which reads back as the same
  tokens.
-/

namespace PocketScript

/-- A value known before a program runs. -/
inductive Literal where
  | number (x : Float)
  | string (t : Text)
  | bool (b : Bool)
  | null
deriving Repr, Inhabited

/-- A truth value in words. -/
def Text.ofBool (b : Bool) : Text := if b then "true" else "false"

namespace Literal

/-- The text of a literal, without quotes. -/
def text : Literal → Text
  | number x => Number.text x
  | string t => t
  | bool b => Text.ofBool b
  | null => "null"

/-- The name of the kind of value a literal is. -/
def kindName : Literal → Text
  | number _ => "number"
  | string _ => "string"
  | bool _ => "bool"
  | null => "null"

end Literal

/-- A piece of source text, with its category, its value if it has one, and
    the position of its first character. -/
structure Token where
  kind : Kind
  lexeme : Text := []
  literal : Option Literal := none
  pos : Position
deriving Repr, Inhabited

namespace Token

/-- Is this the token that ends the input? -/
def isEnd (t : Token) : Bool := t.kind == .endOfInput

/-- The token that ends an input at `p`. -/
def endAt (p : Position) : Token := ⟨.endOfInput, [], none, p⟩

/-- The lexemes of a list of tokens, one blank apart. -/
def render (ts : List Token) : Text :=
  Text.join " " ((ts.filter fun t => !t.isEnd).map Token.lexeme)

end Token

end PocketScript
