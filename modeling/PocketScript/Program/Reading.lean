import PocketScript.Fault.Grammar

/-!
# Readings

The result of reading a form off the front of a list of tokens: the form and
the tokens after it, or the fault that stopped the reading. Either way there
may be remarks, which are faults that did not stop it, in the order they were
made.

A reader descends through the grammar with a counter that bounds the depth of
the descent. A reading that runs out of it is `starved`, which is kept apart
from a fault so that nobody can mistake a small counter for a wrong program.

## Main definitions

* `Reading`: What came of reading a form.
* `Reading.andThen`: Reading one form and then another.
* `Reading.expect`: Reading a token of a given kind.
* `Reading.names`: Reading names with commas between them.
-/

namespace PocketScript

/-- What came of reading a form off the front of a list of tokens. -/
inductive Reading (α : Type) where
  | done (form : α) (rest : List Token) (remarks : List GrammarFault)
  | failed (fault : GrammarFault) (remarks : List GrammarFault)
  | starved
deriving Inhabited

namespace Reading

variable {α β : Type}

/-- Makes remarks before the ones a reading makes itself. -/
def noting (remarks : List GrammarFault) : Reading α → Reading α
  | done a rest more => done a rest (remarks ++ more)
  | failed e more => failed e (remarks ++ more)
  | starved => starved

/-- Reads on after a form. -/
def andThen (r : Reading α) (f : α → List Token → Reading β) : Reading β :=
  match r with
  | done a rest remarks => (f a rest).noting remarks
  | failed e remarks => failed e remarks
  | starved => starved

/-- Changes the form that was read. -/
def map (f : α → β) (r : Reading α) : Reading β :=
  r.andThen fun a rest => done (f a) rest []

/-- The fault of finding something else than a token of kind `k`. -/
def mismatch (k : Kind) (detail : Text) (found : Token) : GrammarFault :=
  { cause := .tokenMismatch, expected := k, found := found, detail := detail }

/-- The fault of a target that is no variable. -/
def badTarget (operator : Token) (detail : Text) : GrammarFault :=
  { cause := .invalidTarget, found := operator, detail := detail }

/-- The fault of finding no expression. -/
def noExpression (found : Token) : GrammarFault :=
  { cause := .expectedExpression, found := found }

/-- Is the next token of kind `k`? -/
def nextIs (k : Kind) : List Token → Bool
  | t :: _ => t.kind == k
  | [] => false

/-- The next token, which past the last one is the token that ends the
    input. -/
def peek (stop : Token) (ts : List Token) : Token := ts.headD stop

/-- Reads a token of kind `k`. -/
def expect (stop : Token) (k : Kind) (detail : Text) : List Token → Reading Token
  | t :: rest => if t.kind = k then done t rest [] else failed (mismatch k detail t) []
  | [] => failed (mismatch k detail stop) []

/-- The most arguments a call, and parameters a function, may have without a
    remark. -/
def argumentLimit : Nat := 255

/-- A remark on the token that starts one argument or parameter too many, if
    `count` of them were read already. -/
def excess (detail : Text) (count : Nat) (found : Token) : List GrammarFault :=
  if argumentLimit ≤ count then
    [{ cause := .tooManyArguments, found := found, detail := detail }]
  else []

/-- Reads names with commas between them, at least one. Before each of them
    `remarks` may remark on the number of names already read. -/
def names (stop : Token) (detail : Text) (remarks : Nat → Token → List GrammarFault) :
    (count : Nat) → List Token → Reading (List Token)
  | count, [] => failed (mismatch .identifier detail stop) (remarks count stop)
  | count, t :: rest =>
    if t.kind = .identifier then
      match rest with
      | c :: rest' =>
        if c.kind = .comma then
          ((names stop detail remarks (count + 1) rest').map (t :: ·)).noting (remarks count t)
        else done [t] (c :: rest') (remarks count t)
      | [] => done [t] [] (remarks count t)
    else failed (mismatch .identifier detail t) (remarks count t)

end Reading

end PocketScript
