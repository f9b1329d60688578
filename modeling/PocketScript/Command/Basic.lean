import PocketScript.Command.Flags
import PocketScript.Fault.Report
import PocketScript.Files.Tree
import PocketScript.Session.Basic
import PocketScript.Settings.Load

/-!
# Commands

What a command sees and what it does. It sees where it was started, what is
typed or piped into it, and the files; it writes to two streams and a log, and
changes files. A command that fails keeps what it has done until then.

## Main definitions

* `Mishap`: Why a command failed.
* `Bench`: What a command sees besides the files.
* `Desk`: What a command writes, and the files.
* `Job`: A command, or a part of one.
-/

namespace PocketScript

/-- Why a command failed. -/
inductive Mishap where
  | noSuchCommand
  | flags (fault : FlagFault)
  | noOperand (command what : Text)
  | settingsUnread (fault : FileFault)
  | settingsMalformed (path : Text)
  | scriptUnread (fault : FileFault)
  | script (fault : SourcedFault)
  | targetUnknown (path : Text) (fault : FileFault)
  | targetUnread (path : Text) (fault : FileFault)
  | untidiable (path : Text) (fault : SourcedFault)
  | untidy (count : Nat)
  | issues (count : Nat)
  | brokenStream (message : Text)
  | noTerminal

namespace Mishap

/-- The cause of a failure by name. What is wrong with a script has a name of
    its own, and everything else has the same. -/
def name : Mishap → Text
  | script e => e.fault.name
  | untidiable _ e => e.fault.name
  | _ => "Error"

/-- The failure in words. -/
def message : Mishap → Text
  | noSuchCommand => "invalid command"
  | flags e => e.message
  | noOperand command what => "chonk " ++ command ++ ": " ++ what ++ " required"
  | settingsUnread e => "read config: " ++ e.message
  | settingsMalformed path => "parse config " ++ path
  | scriptUnread e => "read script: " ++ e.message
  | script e => e.message
  | targetUnknown path e => "stat " ++ path ++ ": " ++ e.message
  | targetUnread path e => "read " ++ path ++ ": " ++ e.message
  | untidiable path e => path ++ ": " ++ e.message
  | untidy n => "chonk fmt: " ++ Text.natural n ++ " file(s) need formatting"
  | issues n => "analysis found " ++ Text.natural n ++ " issue(s)"
  | brokenStream m => m
  | noTerminal => "could not open a new TTY: open /dev/tty: no such device or address"

end Mishap

/-- What a command sees besides the files: the folder it was started in, the
    home folder, the file with the settings if one was chosen, and its
    input. -/
structure Bench where
  folder : Text
  home : Text
  settingsFile : Text
  input : Text
deriving Repr

/-- What a command writes to the two streams and to the log, and the files. -/
structure Desk where
  out : Text := []
  err : Text := []
  log : List LogRecord := []
  tree : Tree := {}

/-- A command, or a part of one. -/
abbrev Job := ReaderT Bench (ExceptT Mishap (StateM Desk))

namespace Job

/-- Writes to the stream of results. -/
def say (t : Text) : Job Unit := modify fun d => { d with out := d.out ++ t }

/-- Writes to the stream of remarks. -/
def remark (t : Text) : Job Unit := modify fun d => { d with err := d.err ++ t }

/-- Adds to the log. -/
def record (rs : List LogRecord) : Job Unit := modify fun d => { d with log := d.log ++ rs }

/-- Goes on with a result, or fails. -/
def lift {ε α : Type} (mishap : ε → Mishap) : Except ε α → Job α
  | .ok a => pure a
  | .error e => throw (mishap e)

/-- The place of the folder that the command was started in. -/
def place : Job Place := return Place.ofPath (← read).folder

/-- Takes the flags of a command off the front of its words. -/
def flags (known words : List Text) : Job Flags := lift .flags (Flags.parse known words)

/-- The file that settings are read from unless another is chosen. -/
def usualSettingsFile : Text := ".chonkrc.yaml"

/-- The settings from a file. If it is missing the standard ones hold. -/
def settingsFrom (path : Text) : Job Settings := do
  match (← get).tree.read (← place) path with
  | .error e => if e.trouble = .missing then return Settings.standard else throw (.settingsUnread e)
  | .ok content =>
    match Settings.load? content with
    | some s => return s
    | none => throw (.settingsMalformed path)

/-- The settings, from the file that was chosen or from the home folder. -/
def settings : Job Settings := do
  let bench ← read
  if !bench.settingsFile.isEmpty then settingsFrom bench.settingsFile
  else if bench.home.isEmpty then return Settings.standard
  else settingsFrom (Path.join [bench.home, usualSettingsFile])

/-- The content of a script. -/
def scriptAt (path : Text) : Job Text := do
  let path := Path.absolute (← read).folder path
  lift .scriptUnread ((← get).tree.read (← place) path)

/-- The script that a command is about, with its path: the first of its
    words after the flags. -/
def operand (command : Text) (f : Flags) : Job Text :=
  match f.operands with
  | path :: _ => return path
  | [] => throw (.noOperand command "script path")

end Job

end PocketScript
