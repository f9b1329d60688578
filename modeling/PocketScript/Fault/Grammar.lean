import PocketScript.Fault.Lexical
import PocketScript.Token.Basic

/-!
# Faults of grammar

What can be wrong with the tokens of a source. A fault names the token the
reader stopped at. One cause, an argument too many, is only ever a remark: it
does not stop the reading.

## Main definitions

* `GrammarFault`: A fault and the token it was found at.
* `Kind.label`: A kind as messages call it.
* `GrammarFault.message`: The wording.
-/

namespace PocketScript

/-- What is wrong with the tokens of a source. A host may report a fault
    without saying which. -/
inductive GrammarFault.Cause where
  | expectedExpression
  | tokenMismatch
  | invalidTarget
  | tooManyArguments
  | unclassified
deriving Repr, DecidableEq, Inhabited

/-- A fault in the tokens of a source. `expected` is the kind that was asked
    for, nameless where none was, and `detail` says what for. -/
structure GrammarFault where
  cause : GrammarFault.Cause
  expected : Kind := .other []
  found : Token
  detail : Text := []
deriving Repr, Inhabited

/-- Small letters for capital ones, as far as a reserved word can come out.
    Besides the capitals of the Latin alphabet, the dotted capital I and the
    sign for kelvin have a Latin small letter. -/
def Text.lowered (t : Text) : Text :=
  t.glyphs.flatMap fun g =>
    if g.code = 0x130 then [105]
    else if g.code = 0x212A then [107]
    else g.bytes.map Text.lowerByte

/-- A kind as messages call it: in words, or its name between quotes, in small
    letters if it is a reserved word. -/
def Kind.label (k : Kind) : Text :=
  match k with
  | .endOfInput => "end of input"
  | .identifier => "identifier"
  | .number => "number"
  | .string => "string"
  | _ =>
    let word := k.name.lowered
    [39] ++ (if Kind.keywordNames.contains word then word else k.name) ++ [39]

namespace GrammarFault

/-- The name of a cause. -/
def Cause.name : Cause → Text
  | expectedExpression => "ExpectedExpression"
  | tokenMismatch => "TokenMismatch"
  | invalidTarget => "InvalidTarget"
  | tooManyArguments => "TooManyArguments"
  | unclassified => "ParseError"

/-- The position of the token a fault was found at. -/
def pos (e : GrammarFault) : Position := e.found.pos

/-- Where a token stands, by its text. -/
def place (t : Token) : Text := if t.isEnd then "at end" else "at " ++ t.lexeme.quoted

/-- The fault in one line. -/
def message (e : GrammarFault) : Text :=
  Text.atLine e.pos.line ++ "ParseError: " ++
    match e.cause with
    | .expectedExpression => "Expected expression, but found " ++ e.found.kind.label
    | .tokenMismatch =>
      "Expected " ++ e.expected.label ++ " but found " ++ e.found.kind.label ++ ": " ++ e.detail
    | _ => e.detail ++ " " ++ place e.found

end GrammarFault

end PocketScript
