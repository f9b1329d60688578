import PocketScript.Prompt.Field
import PocketScript.Prompt.Lines

/-!
# The full-screen prompt

The prompt that takes the whole terminal: a transcript of what was run, panels
with help and variables, and an input field. It is a state machine. An event
is a change of the window's size or a key, and the picture is a function of the
state.

An input that leaves a string or a bracket open is held back and the next line
is added to it. The field then shows another text in front.

The picture is that of a terminal without colours, on which what a program has
written and what went wrong look alike. As at the line prompt, an input that does
not end is passed over, and states after it are never seen.

## Main definitions

* `Entry`, `History`: Parts of the state.
* `Screen`: The state.
* `Event`, `Screen.update`: What happens, and what it does.
* `Screen.view`: The picture.
-/

namespace PocketScript

/-- An input and what came of it. The input is empty for a mere notice. -/
structure Entry where
  input : Text := []
  output : Text
  isFault : Bool := false
deriving Repr, DecidableEq, Inhabited

/-- Inputs that were submitted, oldest first, and the one that is shown; the
    number of them stands for a line that is still being typed. -/
structure History where
  items : List Text := []
  pos : Nat := 0
deriving Repr, DecidableEq, Inhabited

namespace History

/-- Adds an input. -/
def add (item : Text) (h : History) : History :=
  { items := h.items ++ [item], pos := h.items.length + 1 }

/-- Goes one input back, if there is one. -/
def previous (h : History) : Option Text × History :=
  if h.pos = 0 then (none, h)
  else (some (h.items.getD (h.pos - 1) []), { h with pos := h.pos - 1 })

/-- Goes one input forward, past the newest one to an empty line. -/
def next (h : History) : Option Text × History :=
  if h.items.length ≤ h.pos then (none, h)
  else (some (h.items.getD (h.pos + 1) []), { h with pos := h.pos + 1 })

end History

/-- The state of the full-screen prompt. -/
structure Screen where
  field : Field
  settings : Settings
  session : Session
  /-- The lines of an unfinished input. -/
  pending : List Text := []
  /-- What was run, oldest first. -/
  transcript : List Entry := []
  inputs : History := {}
  width : Int := 0
  height : Int := 0
  showHelp : Bool := false
  showVariables : Bool := false
  quitting : Bool := false
  /-- Is the size of the window known? -/
  ready : Bool := false

/-- A key that means something. -/
inductive Key where
  | enter
  | tab
  | up
  | down
  | left
  | right
  | home
  | finish
  | backspace
  | quit
  | clear
  | variables
  | help
deriving Repr, DecidableEq

/-- What can happen to the prompt. -/
inductive Event where
  | resized (width height : Int)
  | pressed (key : Key)
  | typed (r : Rune)
deriving Repr, DecidableEq

namespace Screen

/-- The start of a conversation. -/
def start (settings : Settings) : Screen :=
  { field := { prompt := settings.prompt }
    settings := settings
    session := LinePrompt.freshSession settings }

/-- Adds to the transcript. -/
def record (e : Entry) (s : Screen) : Screen := { s with transcript := s.transcript ++ [e] }

/-- What an input produced: what it echoed, and the report if it failed. -/
def evaluate (input : Text) (s : Screen) : Entry × Screen :=
  let (fault, session) := s.session.flushed.attempt input
  let echoed := Text.dropTrailing (· == Text.lineFeed) session.output
  let output : Text := match fault with
    | some e =>
      let report := e.report input
      if echoed.isEmpty then report else echoed ++ [Text.lineFeed] ++ report
    | none => if echoed.isEmpty then "ok" else echoed
  (⟨input, output, fault.isSome⟩, { s with session := session.flushed })

/-- The commands, each with its names and what it does. -/
def commands : List (List Text × Text) :=
  [([".help", ".h"], "toggle this help"),
    ([".vars", ".v"], "toggle the variables panel"),
    ([".clear", ".c"], "clear the transcript"),
    ([".reset", ".r"], "start a fresh interpreter"),
    ([".exit", ".quit", ".q"], "leave the REPL")]

/-- The number of the command with a given name. -/
def commandIndex (name : Text) : Nat := commands.findIdx fun c => c.1.contains name

/-- Carries out a command. -/
def command (input : Text) (s : Screen) : Screen :=
  let name := input.firstWord
  match commandIndex name with
  | 0 => { s with showHelp := !s.showHelp }
  | 1 => { s with showVariables := !s.showVariables }
  | 2 => { s with transcript := [] }
  | 3 =>
    { s with session := LinePrompt.freshSession s.settings }.record
      { input := input, output := "Interpreter reset" }
  | 4 => { s with quitting := true }
  | _ =>
    s.record { input := input, output := "Unknown command " ++ name, isFault := true }

/-- Takes the line in the field: runs it with the lines held back, or holds it
    back as well. -/
def submit (s : Screen) : Screen :=
  let line := s.field.text
  let s := { s with field := s.field.setValue [] }
  let trimmed := line.trim
  if s.pending.isEmpty ∧ trimmed.isEmpty then s
  else if s.pending.isEmpty ∧ Text.startsWith "." trimmed then s.command trimmed
  else
    let pending := s.pending ++ [line]
    let input := Text.unlines pending
    if isUnfinished input then
      { s with pending := pending, field := { s.field with prompt := s.settings.continuation } }
    else
      let (entry, s) := s.evaluate input
      let s := { s with pending := [], field := { s.field with prompt := s.settings.prompt } }
      { s.record entry with inputs := s.inputs.add (Text.replaceByte Text.lineFeed 32 input) }

/-- The words that begin with a given text: reserved words, native functions
    and global names, each once, in byte order. -/
def candidates (start : Text) (s : Screen) : List Text :=
  let words := Kind.keywordNames ++ s.session.builtins ++ Text.Dict.names s.session.globals
  Text.sort (words.filter (Text.startsWith start)).eraseDups

/-- The word at the end of a line, and what stands before it. -/
def lastWord (rs : List Rune) : List Rune × List Rune :=
  let word := (rs.reverse.takeWhile Rune.continuesWord).reverse
  (rs.take (rs.length - word.length), word)

/-- Completes the word at the end of the line if one candidate is left, and
    lists the candidates if there are several. -/
def complete (s : Screen) : Screen :=
  let (before, word) := lastWord s.field.value
  if word.isEmpty then s
  else match s.candidates (Text.ofRunes word) with
    | [] => s
    | [only] => { s with field := s.field.setEnding (Text.ofRunes before ++ only) }
    | several => s.record { output := "Completions: " ++ Text.join ", " several }

/-- Shows another input of the history, if there is one to show. -/
def showInput (step : Option Text × History) (s : Screen) : Screen :=
  match step with
  | (some item, h) => { s with inputs := h, field := s.field.setEnding item }
  | (none, h) => { s with inputs := h }

/-- What a key does. -/
def press (k : Key) (s : Screen) : Screen :=
  match k with
  | .enter => s.submit
  | .tab => s.complete
  | .up => s.showInput s.inputs.previous
  | .down => s.showInput s.inputs.next
  | .left => { s with field := s.field.moveTo (s.field.cursor - 1) }
  | .right => { s with field := s.field.moveTo (s.field.cursor + 1) }
  | .home => { s with field := s.field.moveTo 0 }
  | .finish => { s with field := s.field.moveTo s.field.value.length }
  | .backspace => { s with field := s.field.backspace }
  | .quit => { s with quitting := true }
  | .clear => { s with transcript := [] }
  | .variables => { s with showVariables := !s.showVariables }
  | .help => { s with showHelp := !s.showHelp }

/-- The width of the field in a window: the text in front and some margin are
    taken off, and ten columns are left in any case. -/
def fieldWidth (windowWidth : Int) (prompt : Text) : Nat :=
  (max (windowWidth - prompt.length - 4) 10).toNat

/-- What an event does. -/
def update (e : Event) (s : Screen) : Screen :=
  match e with
  | .resized w h =>
    { s with
      width := w
      height := h
      ready := true
      field := { s.field with width := fieldWidth w s.settings.prompt } }
  | .pressed k => s.press k
  | .typed r => { s with field := s.field.insert [r] }

/-- The global names that are not native functions. -/
def userNames (s : Screen) : List Text :=
  (Text.Dict.names s.session.globals).filter fun n => !s.session.builtins.contains n

/-- A line of the variables panel. -/
def variableLine (s : Screen) (name : Text) : Text :=
  name ++ " = " ++ ((s.session.store.lookup Store.globals name).getD .null).text

/-- The panel with the variables. -/
def variablesPanel (s : Screen) : Text :=
  match s.userNames with
  | [] => Styled.panel "no variables yet"
  | names => Styled.panel (Text.unlines ("variables" :: names.map s.variableLine))

/-- A name and what it does, in two columns. -/
def helpLine (name what : Text) : Text :=
  name ++ Text.spaces (8 - name.glyphs.length) ++ " " ++ what

/-- The panel with the keys and the commands. -/
def helpPanel : Text :=
  let keys : List Text :=
    [helpLine "enter" "run", helpLine "↑" "previous input", helpLine "↓" "next input",
      helpLine "tab" "complete", helpLine "ctrl+l" "clear", helpLine "ctrl+c" "quit"]
  let named := commands.map fun c => helpLine (c.1.headD []) c.2
  Styled.panel (Text.unlines (utf8 "keys" :: keys ++ [[], utf8 "commands"] ++ named))

/-- The last line of the picture. -/
def footer : Text := "ctrl+k help  ctrl+v vars  ctrl+l clear  ctrl+c quit"

/-- The lines of an input, the first of them marked. -/
def inputLines (input : Text) : List Text :=
  if input.isEmpty then []
  else match input.lines with
    | [] => []
    | first :: more => ("› " ++ first) :: more.map fun line => "  " ++ line

/-- The lines of an entry of the transcript. Whether it is a fault decides on a
    colour only. -/
def entryLines (e : Entry) : List Text :=
  inputLines e.input ++ e.output.lines.map fun line => "  " ++ Styled.render line

/-- Lines of the newest entries, collected backwards until there are at least
    `budget` of them. The entries are given newest first. -/
def collect (budget : Nat) : (lines : List Text) → List Entry → List Text
  | lines, [] => lines
  | lines, e :: older =>
    if lines.length < budget then collect budget (entryLines e ++ lines) older else lines

/-- The lines of the transcript that are shown: the newest that fit. -/
def pane (budget : Nat) (transcript : List Entry) : List Text :=
  let lines := collect budget [] transcript.reverse
  lines.drop (lines.length - budget)

/-- The panels that are shown, one below the other. -/
def side (s : Screen) : Text :=
  Text.unlines ((if s.showVariables then [s.variablesPanel] else []) ++
    if s.showHelp then [helpPanel] else [])

/-- How many lines of the transcript there is room for. -/
def budget (s : Screen) : Nat := (max (s.height - 4 - Styled.height s.side) 1).toNat

/-- The line below the title. -/
def ruler (s : Screen) : Text := Text.times (max (min s.width 72) 1).toNat "─"

/-- The picture. -/
def view (s : Screen) : Text :=
  if s.quitting then Styled.render "bye\n"
  else if !s.ready then "starting..."
  else
    let title : Text := "chonk 0.1.0"
    let side := s.side
    let panels := if side.isEmpty then [] else [side]
    Text.unlines
      ([title, s.ruler] ++ pane s.budget s.transcript ++ panels ++ [s.field.view, footer])

end Screen

end PocketScript
