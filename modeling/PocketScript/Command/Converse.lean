import PocketScript.Command.Basic
import PocketScript.Prompt.Lines
import PocketScript.Text.Control

/-!
# Conversations

A conversation over lines that are piped in. The prompts are written where a
person would have seen them. What was typed is kept in a file from one
conversation to the next, in which an entry is not repeated right after
itself.

A reader of lines takes in at most 4096 bytes at once, so a longer line counts
as several.

## Main definitions

* `Text.inputLines`: The lines of an input.
* `Journal`: Typed lines that are kept.
* `Job.converse`: Holds a conversation.
-/

namespace PocketScript

namespace Text

/-- The number of bytes that a reader of lines takes in at once. -/
def lineBuffer : Nat := 4096

/-- A line without the carriage return at its end. -/
def dropReturn (line : Text) : Text :=
  match line.reverse with
  | 13 :: r => r.reverse
  | _ => line

/-- The first line of an input, whether it was cut, and the rest. Both forms
    of its end are dropped. Of a line that does not fit the buffer only so
    much is taken, and a carriage return at the cut is left for the rest. -/
def takeLine (t : Text) : Text × Bool × Text :=
  let window := t.take lineBuffer
  let line := window.takeWhile (· != lineFeed)
  if line.length < window.length then (dropReturn line, false, t.drop (line.length + 1))
  else if window.length < lineBuffer then (line, false, [])
  else
    let piece := dropReturn window
    (piece, true, t.drop piece.length)

/-- The lines of an input, each with whether it was cut. -/
def takeLines : (fuel : Nat) → Text → List (Text × Bool)
  | 0, _ => []
  | n + 1, t =>
    if t.isEmpty then []
    else
      let (line, isCut, rest) := takeLine t
      (line, isCut) :: takeLines n rest

/-- The lines of an input. -/
def inputLines (t : Text) : List Text := (takeLines (t.length + 1) t).map Prod.fst

end Text

/-- Typed lines, the oldest first. -/
abbrev Journal := List Text

namespace Journal

/-- The number of lines that are kept. -/
def limit : Nat := 1000

/-- The newest lines, as many as are kept. -/
def newest (h : Journal) : Journal := h.drop (h.length - limit)

/-- The lines of a file, up to one that is too long or not well-formed. -/
def ofText (t : Text) : Journal :=
  let good := (Text.takeLines (t.length + 1) t).takeWhile fun (line, isCut) =>
    !isCut && line.isWellFormed
  newest (good.map Prod.fst)

/-- Adds a line, unless it is the last one again. -/
def add (h : Journal) (line : Text) : Journal :=
  if h.getLast? = some line then h else newest (h ++ [line])

/-- The lines as a file. -/
def text (h : Journal) : Text := h.flatMap fun line => line ++ [Text.lineFeed]

end Journal

/-- Can a prompt be shown? -/
def isShowable (prompt : Text) : Bool := prompt.runes.all fun r => !Rune.isControl r

/-- The part of an exchange that goes to the stream of results. A prompt that
    cannot be shown is left out. -/
def Exchange.shown (e : Exchange) : Text :=
  (if isShowable e.asked then e.asked else []) ++ e.written.out

/-- The lines that are asked for: a prompt that cannot be shown ends the
    conversation like the end of the lines does. -/
def LinePrompt.heard (p : LinePrompt) (lines : List Text) : List Text :=
  let (exchanges, _) := p.converse lines
  lines.take (exchanges.takeWhile fun e => isShowable e.asked).length

namespace Job

/-- The lines typed in conversations before. -/
def history (path : Text) : Job Journal := do
  match (← get).tree.read (← place) path with
  | .ok content => return Journal.ofText content
  | .error _ => return []

/-- Keeps typed lines for later, if the file can be written. -/
def keep (path : Text) (h : Journal) : Job Unit := do
  if let some tree := (← get).tree.write (← place) path h.text then
    modify fun d => { d with tree := tree }

/-- Holds a conversation under some settings. -/
def converseUnder (s : Settings) : Job Unit := do
  let bench ← read
  let path := s.historyPath bench.home
  let before ← history path
  let start := LinePrompt.start s
  let (exchanges, _, last) := start.converse (start.heard bench.input.inputLines)
  say (LinePrompt.banner ++ exchanges.flatMap Exchange.shown)
  remark (exchanges.flatMap fun e => e.written.err)
  record last.session.log.toList
  let typed := exchanges.filterMap fun e => e.written.history
  if !path.isEmpty then keep path (typed.foldl Journal.add before)

/-- Holds a conversation. One that takes the full screen needs a terminal. -/
def converse (words : List Text) : Job Unit := do
  let f ← flags ["tui", "verbose"] words
  let s ← settings
  let s := { s with verbose := s.verbose || f.isOn "verbose" }
  if f.isOn "tui" || s.fullScreen then throw .noTerminal
  converseUnder s

end Job

end PocketScript
