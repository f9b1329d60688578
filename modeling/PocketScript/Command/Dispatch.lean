import PocketScript.Command.Converse
import PocketScript.Command.Scripts
import PocketScript.Command.Tidy
import PocketScript.Server.Wire

/-!
# The command line

The first word names a command, or is a script to run. Without words, what is
piped in is run.

## Main definitions

* `Job.usage`: What the commands are.
* `Job.dispatch`: Carries out a command line.
* `Desk.after`: What is on the desk after a command line, and how it went.
-/

namespace PocketScript

namespace Job

/-- What the commands are. -/
def usage : Text :=
  "Usage: chonk [command] [flags] [args]\n" ++
    "Commands:\n" ++
    "  run [-verbose] <script>   run a script (also: chonk <script>)\n" ++
    "  tokens [-json] <script>   print the token stream\n" ++
    "  ast <script>              print the parsed program\n" ++
    "  analyze <script>          report unreachable code and stray break/continue\n" ++
    "  fmt [-w] [-check] <path>  normalize whitespace in .chonk files\n" ++
    "  repl [-tui]               start an interactive session\n" ++
    "  lsp                       serve the language server protocol on stdio\n" ++
    "  version                   print the version\n" ++
    "With no command, a terminal starts the REPL and piped input is run as a script.\n"

/-- Is the word the path of a script? It is if it ends like one, or if it is
    the path of a file. -/
def isScript (word : Text) : Job Bool := do
  if word.head? = some Flags.dash then return false
  else if Path.extension word = scriptExtension then return true
  else
    match (← get).tree.stat (← place) word with
    | .ok (_, isFolder) => return !isFolder
    | .error _ => return false

/-- Serves an editor over the two streams. -/
def serve : Job Unit := do
  let (sent, fault) := Wire.serve .json (← read).input
  say sent
  match fault with
  | some message => throw (.brokenStream message)
  | none => return

/-- Carries out a command line. -/
def dispatch : List Text → Job Unit
  | [] => runInput
  | word :: more => do
    if word = utf8 "run" then run more
    else if word = utf8 "tokens" then tokens more
    else if word = utf8 "ast" then ast more
    else if word = utf8 "analyze" then analyze more
    else if word = utf8 "fmt" then tidy more
    else if word = utf8 "repl" then converse more
    else if word = utf8 "lsp" then serve
    else if [utf8 "version", "-v", "--version"].contains word then
      say ("chonk " ++ toolVersion ++ "\n")
    else if [utf8 "help", "-h", "--help"].contains word then remark usage
    else if ← isScript word then run (word :: more)
    else
      remark usage
      throw .noSuchCommand

end Job

/-- What is on the desk after a command line, and how it went. -/
def Desk.after (bench : Bench) (words : List Text) (d : Desk) : Except Mishap Unit × Desk :=
  (ReaderT.run (Job.dispatch words) bench).run.run d

end PocketScript
