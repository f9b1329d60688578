import PocketScript.Text.Quoted
import PocketScript.Token.Position

/-!
# Lexical faults

What can be wrong with the characters of a source: one that starts no token,
or a string whose closing quote is missing.

## Main definitions

* `LexicalFault`: A fault and its position.
* `LexicalFault.message`: Its wording.
-/

namespace PocketScript

/-- What is wrong with the characters of a source. A host may report a fault
    without saying which. -/
inductive LexicalFault.Cause where
  | unexpectedCharacter
  | unterminatedString
  | unclassified
deriving Repr, DecidableEq, Inhabited

/-- A fault in the characters of a source. `character` is the code point of
    the offending character, or zero where there is none. -/
structure LexicalFault where
  cause : LexicalFault.Cause
  character : Int
  pos : Position
deriving Repr, DecidableEq, Inhabited

/-- The beginning of every message: the line, in brackets. -/
def Text.atLine (line : Int) : Text := "[line " ++ Text.decimal line ++ "] "

namespace LexicalFault

/-- The name of a cause. -/
def Cause.name : Cause → Text
  | unexpectedCharacter => "UnexpectedChar"
  | unterminatedString => "UnterminatedString"
  | unclassified => "LexError"

/-- The fault in one line. -/
def message (e : LexicalFault) : Text :=
  Text.atLine e.pos.line ++ "LexError: " ++
    match e.cause with
    | .unterminatedString => utf8 "Unterminated string"
    | _ => "Unexpected character " ++ Rune.quoted e.character

end LexicalFault

end PocketScript
