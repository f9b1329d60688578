import PocketScript.Command.Basic
import PocketScript.Lint
import PocketScript.Listing.Tokens
import PocketScript.Program.Printer
import PocketScript.Program.Source
import PocketScript.Prompt.Lines

/-!
# Commands on a script

Running a script, and showing what it is made of.

## Main definitions

* `Job.run`: Runs a script.
* `Job.tokens`: Lists its tokens.
* `Job.ast`: Prints its tree.
* `Job.analyze`: Looks for code that cannot run or means nothing.
-/

namespace PocketScript.Job

/-- Runs a source. Remarks of the parser are written after what it echoes. -/
def runSource (verbose : Bool) (source : Text) : Job Unit := do
  let (fault, s) := { Session.initial with logging := verbose }.attempt source
  say s.output
  record s.log.toList
  remark (s.remarks.flatMap fun r => "warning: " ++ r.message ++ "\n")
  match fault with
  | some e => throw (.script ⟨e, source⟩)
  | none => return

/-- Runs what is piped in. -/
def runInput : Job Unit := do
  runSource (← settings).verbose (← read).input

/-- Runs a script. -/
def run (words : List Text) : Job Unit := do
  let f ← flags ["verbose"] words
  let path ← operand "run" f
  let s ← settings
  runSource (f.isOn "verbose" || s.verbose) (← scriptAt path)

/-- Lists the tokens of a script. -/
def tokens (words : List Text) : Job Unit := do
  let f ← flags ["json"] words
  let source ← scriptAt (← operand "tokens" f)
  match Token.scan source with
  | .error e => throw (.script ⟨.lexical e, source⟩)
  | .ok ts => say (if f.isOn "json" then Listing.json ts else Listing.table ts)

/-- Prints the tree of a script. -/
def ast (words : List Text) : Job Unit := do
  let f ← flags [] words
  let program ← lift .script (parseSource (← scriptAt (← operand "ast" f)))
  say (printProgram program)

/-- A warning as a line. -/
def warningLine (path : Text) (w : Warning) : Text :=
  path ++ ":" ++ Text.decimal (max w.pos.line 1) ++ ":" ++ Text.decimal (max w.pos.column 1) ++
    ": " ++ w.message ++ " (" ++ w.function ++ ")\n"

/-- Looks for code that cannot run or means nothing. -/
def analyze (words : List Text) : Job Unit := do
  let f ← flags [] words
  let path ← operand "analyze" f
  let warnings := Lint.check (← lift .script (parseSource (← scriptAt path)))
  if warnings.isEmpty then say "No issues found\n"
  else
    say (warnings.flatMap (warningLine path))
    throw (.issues warnings.length)

end PocketScript.Job
