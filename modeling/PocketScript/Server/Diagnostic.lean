import PocketScript.Lint
import PocketScript.Program.Parser
import PocketScript.Server.Place

/-!
# Diagnostics

What an editor underlines in a document: the first fault that keeps it from
being a program, or else the remarks of the parser and the findings of the
lint.

## Main definitions

* `Diagnostic`: A place, a severity and a message.
* `diagnose`: The diagnostics of a document.
-/

namespace PocketScript

/-- How bad a diagnostic is. -/
inductive Severity where
  | error
  | warning
deriving Repr, DecidableEq

/-- The number that stands for a severity. -/
def Severity.code : Severity → Int
  | error => 1
  | warning => 2

/-- Something to underline: one unit wide, at a line and a UTF-16 unit counted
    from zero. -/
structure Diagnostic where
  line : Int
  character : Int
  severity : Severity
  message : Text
deriving Repr, DecidableEq

/-- A diagnostic at a position of a source. -/
def Diagnostic.of (source : Text) (p : Position) (severity : Severity) (message : Text) :
    Diagnostic :=
  let line := max 0 (p.line - 1)
  ⟨line, unitOffset source line (max 0 (p.column - 1)), severity, message⟩

/-- The diagnostics of a document. -/
def diagnose (source : Text) : List Diagnostic :=
  match Token.scan source with
  | .error e => [.of source e.pos .error e.message]
  | .ok tokens =>
    let parsed := parse tokens
    match parsed.outcome with
    | .error e => [.of source e.pos .error e.message]
    | .ok program =>
      parsed.remarks.map (fun r => .of source r.pos .warning r.detail) ++
        (Lint.check program).map fun w => .of source w.pos .warning w.message

end PocketScript
