import PocketScript.Fault.Grammar
import PocketScript.Fault.Runtime

/-!
# Reports

What a person gets to read about a fault: its message, the line of source it
is about with a caret under the culprit, and for a running program the calls
that were under way.

## Main definitions

* `Fault`: Any fault.
* `codeFrame`: A line of source with a caret.
* `Fault.report`: The full report.
* `SourcedFault`: A fault with its source, whose message is the report.
-/

namespace PocketScript

/-- A fault of any stage. A plain one comes from a host and is only words. -/
inductive Fault where
  | lexical (e : LexicalFault)
  | grammar (e : GrammarFault)
  | runtime (e : RuntimeFault)
  | plain (message : Text)
deriving Repr, Inhabited

/-- A line of source with a caret under a column. The column is brought into
    the line, at most one past its end. There is none if the source has no
    such line. -/
def codeFrame (source : Text) (p : Position) : Text :=
  if source.isEmpty ∨ p.line ≤ 0 then []
  else match source.lines[p.line.toNat - 1]? with
    | none => []
    | some line =>
      let shown := line.dropTrailingReturns
      let column := min (max p.column.toNat 1) (shown.glyphs.length + 1)
      let label := Text.decimal p.line
      "  --> line " ++ label ++ ", column " ++ Text.natural column ++ "\n " ++
        label ++ " | " ++ shown ++ "\n " ++
        Text.spaces label.length ++ " | " ++ Text.spaces (column - 1) ++ "^"

namespace Fault

/-- The fault in one line. -/
def message : Fault → Text
  | lexical e => e.message
  | grammar e => e.message
  | runtime e => e.headline
  | plain m => m

/-- The name of the stage and of the cause. -/
def name : Fault → Text
  | lexical e => "LexError." ++ e.cause.name
  | grammar e => "ParseError." ++ e.cause.name
  | runtime e => "RuntimeError." ++ e.cause.name
  | plain _ => "Error"

/-- Pieces one below the other, leaving out the empty ones after the first. -/
def stack (head : Text) (more : List Text) : Text :=
  Text.unlines (head :: more.filter fun t => !t.isEmpty)

/-- A report on a fault under a given headline, with the source the fault is
    about. A code frame that the fault carries goes before one made from the
    source. -/
def reportUnder (headline source : Text) : Fault → Text
  | lexical e => stack headline [codeFrame source e.pos]
  | grammar e => stack headline [codeFrame source e.pos]
  | runtime e =>
    let frame := if e.codeFrame.isEmpty then codeFrame source e.pos else e.codeFrame
    stack headline [frame, e.trace]
  | plain _ => headline

/-- The full report on a fault, with the source it is about. -/
def report (source : Text) (e : Fault) : Text := e.reportUnder e.message source

end Fault

/-- A fault together with the source it is about. Its message is already the
    full report. -/
structure SourcedFault where
  fault : Fault
  source : Text
deriving Repr, Inhabited

namespace SourcedFault

/-- The message, which is the full report on the fault. -/
def message (e : SourcedFault) : Text := e.fault.report e.source

/-- A report on a sourced fault shows the code frame a second time, below the
    message that contains it. -/
def report (source : Text) (e : SourcedFault) : Text := e.fault.reportUnder e.message source

end SourcedFault

end PocketScript
