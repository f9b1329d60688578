import PocketScript.Fault.Lexical
import PocketScript.Token.Basic

/-!
# Faults of running programs

What can go wrong while a program runs, and the record of the calls that were
under way when it did.

A fault is built in two steps. The place that notices it knows the cause, the
position and the wording; the calls under way are recorded as the fault
starts to travel, unless a host has recorded some already.

## Main definitions

* `RuntimeFault`: A fault with everything a report shows.
* `Frame`: A call under way.
* `RuntimeFault.undefinedVariable` and its neighbours: The faults the
  evaluator raises.
* `RuntimeFault.trace`: The calls, with the middle of a deep stack left out.
-/

namespace PocketScript

/-- What went wrong while a program ran. A host may report a fault without
    saying which. -/
inductive RuntimeFault.Cause where
  | undefinedVariable
  | invalidOperands
  | arityMismatch
  | notCallable
  | invalidControl
  | nativeFailure
  | unclassified
deriving Repr, DecidableEq, Inhabited

/-- A function under way and a position in it. -/
structure Frame where
  function : Text
  pos : Position
deriving Repr, DecidableEq, Inhabited

/-- A fault of a running program. Only what belongs to its cause is set. The
    frames, innermost first, are absent until the fault starts to travel. -/
structure RuntimeFault where
  cause : RuntimeFault.Cause
  message : Text
  pos : Position
  name : Text := []
  operator : Text := []
  expected : Int := 0
  actual : Int := 0
  codeFrame : Text := []
  frames : Option (List Frame) := none
deriving Repr, DecidableEq, Inhabited

namespace RuntimeFault

/-- The name of a cause. -/
def Cause.name : Cause → Text
  | undefinedVariable => "UndefinedVariable"
  | invalidOperands => "InvalidOperands"
  | arityMismatch => "ArityMismatch"
  | notCallable => "NotCallable"
  | invalidControl => "InvalidControl"
  | nativeFailure => "NativeFailure"
  | unclassified => "RuntimeError"

/-- The fault in one line. -/
def headline (e : RuntimeFault) : Text :=
  Text.atLine e.pos.line ++ "RuntimeError: " ++ e.message

/-- A name that no level binds. -/
def undefined (name : Token) : RuntimeFault :=
  { cause := .undefinedVariable
    message := "Undefined variable " ++ name.lexeme.quoted
    pos := name.pos
    name := name.lexeme }

/-- An operand that an operator of one operand cannot take. -/
def badOperand (operator : Token) (kind : Text) : RuntimeFault :=
  { cause := .invalidOperands
    message := "Operand of " ++ operator.lexeme.quoted ++ " must be a number, got " ++ kind
    pos := operator.pos
    operator := operator.lexeme }

/-- Two operands that an operator cannot take together. -/
def badOperands (operator : Token) (left right : Text) : RuntimeFault :=
  { cause := .invalidOperands
    message := "Invalid operands for " ++ operator.lexeme.quoted ++ ": " ++ left ++ " and " ++ right
    pos := operator.pos
    operator := operator.lexeme }

/-- A call with the wrong number of arguments. -/
def wrongArity (paren : Token) (expected actual : Int) : RuntimeFault :=
  { cause := .arityMismatch
    message :=
      "Expected " ++ Text.decimal expected ++ " arguments but got " ++ Text.decimal actual
    pos := paren.pos
    expected := expected
    actual := actual }

/-- A call of something that is no function. -/
def uncallable (paren : Token) (kind : Text) : RuntimeFault :=
  { cause := .notCallable
    message := "Can only call functions, got " ++ kind
    pos := paren.pos }

/-- A failure that a native function reports in its own words. -/
def nativeFailed (paren : Token) (name reason : Text) : RuntimeFault :=
  { cause := .nativeFailure
    message := name ++ ": " ++ reason
    pos := paren.pos
    name := name }

/-- A break or continue that no loop receives. -/
def strayControl (keyword : Token) : RuntimeFault :=
  { cause := .invalidControl
    message := keyword.lexeme.quoted ++ " outside of a loop"
    pos := keyword.pos }

/-- The name under which the outermost code appears among the frames. -/
def scriptName : Text := "<script>"

/-- The frames of a fault at `pos`, given the calls under way, innermost
    first, each with the position it was made from. The innermost frame is
    where the fault happened; each further frame is the position of a call in
    the function that made it. -/
def framesAt (pos : Position) (calls : List Frame) : List Frame :=
  let functions := calls.map Frame.function ++ [scriptName]
  let positions := pos :: calls.map Frame.pos
  List.zipWith Frame.mk functions positions

/-- Records the calls under way, unless frames are recorded already. -/
def attach (calls : List Frame) (e : RuntimeFault) : RuntimeFault :=
  match e.frames with
  | some _ => e
  | none => { e with frames := some (framesAt e.pos calls) }

/-- One line of a trace. -/
def frameLine (f : Frame) : Text :=
  if 0 < f.pos.line then "  at " ++ f.function ++ " (line " ++ Text.decimal f.pos.line ++ ")"
  else "  at " ++ f.function

/-- How many frames a trace shows at either end of a deep stack. -/
def traceEnds : Nat := 8

/-- The frames one to a line. Of a stack deeper than both ends together the
    middle is left out. -/
def trace (e : RuntimeFault) : Text :=
  let frames := e.frames.getD []
  let omitted := frames.length - 2 * traceEnds
  if omitted = 0 then Text.unlines (frames.map frameLine)
  else
    Text.unlines ((frames.take traceEnds).map frameLine ++
      ["  ... " ++ Text.natural omitted ++ " frames omitted ..."] ++
      (frames.drop (frames.length - traceEnds)).map frameLine)

end RuntimeFault

end PocketScript
