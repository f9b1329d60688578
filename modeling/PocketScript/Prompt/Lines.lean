import PocketScript.Prompt.Styled
import PocketScript.Session.Evaluate
import PocketScript.Session.Unfinished
import PocketScript.Settings.Basic
import PocketScript.Text.Space

/-!
# The line prompt

A conversation line by line. Lines are collected until no string or bracket is
open, and then run in the session, or carried out if they start with a dot.

The conversation is a state and a step: what a line does to the state and what
is written because of it. The two streams of output are kept apart.

A prompt waits for the program that it has started. A program that does not end
is passed over here, so that every step has a result. What comes after it is never
seen: a conversation with such an input stands for its part up to there.

## Main definitions

* `LinePrompt`: The state of a conversation.
* `LinePrompt.feed`: Taking in a line.
* `LinePrompt.banner`, `LinePrompt.farewell`: What is written around it.
-/

namespace PocketScript

/-- What a step writes to the two streams, the line it adds to the history if
    any, and whether it ends the conversation. -/
structure Written where
  out : Text := []
  err : Text := []
  history : Option Text := none
  ends : Bool := false
deriving Repr, DecidableEq, Inhabited

/-- The first word of a text. -/
def Text.firstWord (t : Text) : Text :=
  Text.ofGlyphs ((t.glyphs.dropWhile Glyph.isSpace).takeWhile fun g => !g.isSpace)

/-- Runs a source, taking a program that does not end as one that did
    nothing. No prompt gets past such a program, so what follows stands for
    nothing that happens. -/
def Session.attempt (source : Text) (s : Session) : Option Fault × Session :=
  (s.run source).getD (none, s)

/-- The state of a conversation: the settings, the session, and the lines of
    an unfinished input. -/
structure LinePrompt where
  settings : Settings
  session : Session
  pending : Text := []

namespace LinePrompt

/-- A session under the settings, in which nothing has run. -/
def freshSession (settings : Settings) : Session :=
  { Session.initial with logging := settings.verbose }

/-- The start of a conversation. -/
def start (settings : Settings) : LinePrompt := ⟨settings, freshSession settings, []⟩

/-- What is written before the first line. -/
def banner : Text := "Welcome to Chonk 0.1.0.\nType \".help\" for more information.\n"

/-- What is written when the lines run out. -/
def farewell : Text := [Text.lineFeed]

/-- What the help command writes. -/
def help : Text :=
  ".clear  reset the interpreter and forget all definitions\n" ++
    ".exit   leave the REPL (also ctrl+d)\n" ++ ".help   show this message\n"

/-- What asks for the next line. -/
def ask (p : LinePrompt) : Text :=
  if p.pending.isEmpty then p.settings.prompt else p.settings.continuation

/-- Carries out a command. -/
def command (input : Text) (p : LinePrompt) : Written × LinePrompt :=
  let name := input.firstWord
  if name = utf8 ".exit" then ({ ends := true }, p)
  else if name = utf8 ".help" then ({ out := help }, p)
  else if name = utf8 ".clear" then
    ({ out := "Interpreter reset.\n" },
      { p with session := { freshSession p.settings with log := p.session.log } })
  else ({ err := "Unknown command " ++ input ++ ". Type \".help\" for help.\n" }, p)

/-- Runs an input: what it echoes goes to one stream, and remarks and faults
    go to the other. -/
def evaluate (input : Text) (p : LinePrompt) : Written × LinePrompt :=
  let (fault, s) := p.session.attempt input
  let line (t : Text) : Text := Styled.render t ++ [Text.lineFeed]
  let remarks := s.remarks.flatMap fun r => line ("warning: " ++ r.message)
  let report : Text := match fault with
    | some e => line (e.report input)
    | none => []
  ({ out := s.output, err := remarks ++ report }, { p with session := s.flushed })

/-- Deals with a finished input. A blank one is ignored. -/
def submit (input : Text) (p : LinePrompt) : Written × LinePrompt :=
  let trimmed := input.trim
  if trimmed.isEmpty then ({}, p)
  else
    let (w, p) := if Text.startsWith "." trimmed then p.command trimmed else p.evaluate input
    ({ w with history := some (Text.replaceByte Text.lineFeed 32 input) }, p)

/-- Takes in a line. -/
def feed (line : Text) (p : LinePrompt) : Written × LinePrompt :=
  let input := if p.pending.isEmpty then line else p.pending ++ [Text.lineFeed] ++ line
  if isUnfinished input then ({}, { p with pending := input })
  else submit input { p with pending := [] }

end LinePrompt

/-- A part of a conversation: what asked for a line, and what was written
    after it. -/
structure Exchange where
  asked : Text
  written : Written
deriving Repr, DecidableEq

/-- A conversation over given lines: its parts, the lines that were never
    asked for, and the state at its end. -/
def LinePrompt.converse (p : LinePrompt) : List Text → List Exchange × List Text × LinePrompt
  | [] => ([⟨p.ask, { out := farewell }⟩], [], p)
  | line :: rest =>
    let (w, p') := p.feed line
    if w.ends then ([⟨p.ask, w⟩], rest, p')
    else
      let (more, unread, last) := converse p' rest
      (⟨p.ask, w⟩ :: more, unread, last)

end PocketScript
