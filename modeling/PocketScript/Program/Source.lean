import PocketScript.Fault.Report
import PocketScript.Program.Parser
import PocketScript.Token.Scan

/-!
# From source to program

Scanning and parsing in one go, for everything that looks at a program
without running it.

## Main definitions

* `parseSource`: The program that a source writes.
-/

namespace PocketScript

/-- The program that a source writes, or the fault in it together with the
    source. -/
def parseSource (source : Text) : Except SourcedFault (List Stmt) :=
  match Token.scan source with
  | .error e => .error ⟨.lexical e, source⟩
  | .ok tokens =>
    match (parse tokens).outcome with
    | .error e => .error ⟨.grammar e, source⟩
    | .ok program => .ok program

end PocketScript
