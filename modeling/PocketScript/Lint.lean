import PocketScript.Fault.Runtime
import PocketScript.Program.Tree

/-!
# Lint

Two things that are wrong with a program whatever its data: a statement that
can never be reached, and a break or continue that no loop receives.

A list of statements is walked from the front. Once a statement ends the list,
by returning, by breaking or continuing, or by branching into two parts that
both end it, everything after it is reported and not looked into. A loop never
ends the list it stands in, since it may not run at all. Bodies of functions
are checked by themselves, with no loop around them.

## Main definitions

* `Warning`: A finding.
* `Lint.statements`: The findings in a list of statements, and whether it can
  end normally.
* `Lint.check`: The findings in a program, in the order of the source.
-/

namespace PocketScript

/-- A finding: the function it is in, where, and what. -/
structure Warning where
  function : Text
  pos : Position
  message : Text
deriving Repr, DecidableEq, Inhabited

namespace Lint

/-- A statement that cannot be reached. -/
def unreachable (function : Text) (s : Stmt) : Warning :=
  ⟨function, s.pos, "unreachable statement"⟩

/-- A break or continue without a loop. -/
def stray (function : Text) (keyword : Token) : Warning :=
  ⟨function, keyword.pos, "break or continue outside of a loop"⟩

mutual

/-- Does the statement end the list it stands in, and the findings in it. -/
def statement (function : Text) (inLoop : Bool) : Stmt → Bool × List Warning
  | .giveBack _ _ => (true, [])
  | .leave keyword => (true, if inLoop then [] else [stray function keyword])
  | .next keyword => (true, if inLoop then [] else [stray function keyword])
  | .branch _ _ consequent alternate =>
    let (ends, found) := statements function inLoop false consequent
    let (endsElse, foundElse) := otherwise function inLoop alternate
    (ends && endsElse, found ++ foundElse)
  | .loop _ _ body => (false, (statements function true false body).2)
  | .function name _ body => (false, (statements name.lexeme false false body).2)
  | _ => (false, [])

/-- Does the list end before its last statement is through, and the findings
    in it. `ended` says that a statement before has ended it. -/
def statements (function : Text) (inLoop : Bool) : (ended : Bool) → List Stmt →
    Bool × List Warning
  | ended, [] => (ended, [])
  | true, s :: rest =>
    let (_, found) := statements function inLoop true rest
    (true, unreachable function s :: found)
  | false, s :: rest =>
    let (ended, found) := statement function inLoop s
    let (ends, more) := statements function inLoop ended rest
    (ends, found ++ more)

/-- The same for the else part of a branch. Without one, control goes on. -/
def otherwise (function : Text) (inLoop : Bool) : Option (List Stmt) → Bool × List Warning
  | none => (false, [])
  | some body => statements function inLoop false body

end

/-- The order of findings: by line, by column, and by function. -/
def le (a b : Warning) : Bool :=
  if a.pos.line ≠ b.pos.line then a.pos.line < b.pos.line
  else if a.pos.column ≠ b.pos.column then a.pos.column < b.pos.column
  else a.function.le b.function

/-- The findings in a program, in the order of the source. -/
def check (program : List Stmt) : List Warning :=
  ((statements RuntimeFault.scriptName false false program).2).mergeSort le

end Lint

end PocketScript
