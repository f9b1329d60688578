import PocketScript.Command.Dispatch
import PocketScript.Session.Log

/-!
# The program

Connects the commands to the machine: words, streams and files. Conversations
with a person or an editor go back and forth and are led here step by step;
every other command is given the files it names and leaves a desk, whose
streams and files are then written out.

## Main definitions

* `main`: The program.
-/

namespace PocketScript.Machine

/-- The string of a text. Bytes that are not well-formed are replaced. -/
def string (t : Text) : String := String.ofList (t.runes.map Char.ofNat)

/-- Writes a text to a stream. -/
def put (stream : IO.FS.Stream) (t : Text) : IO Unit := do
  stream.write ⟨t.toArray⟩
  stream.flush

/-- The content of a file, if it can be read. -/
def content? (path : Text) : IO (Option Text) :=
  try
    let bytes ← IO.FS.readBinFile (string path)
    return some bytes.data.toList
  catch _ => return none

/-- Is there a folder of this name? -/
def isFolder (path : Text) : IO Bool := do
  ((← IO.currentDir) / string path).isDir

/-- The files in and below a folder. -/
partial def filesBelow (path : Text) : IO Tree := do
  let mut tree : Tree := { folders := [Place.ofPath path] }
  for entry in ← ((← IO.currentDir) / string path).readDir do
    let inner := Path.join [path, utf8 entry.fileName]
    if ← isFolder inner then
      let more ← filesBelow inner
      tree := { files := tree.files ++ more.files, folders := tree.folders ++ more.folders }
    else if let some content ← content? inner then
      tree := tree.put (Place.ofPath inner) content
  return tree

/-- The beginnings of a list of steps. -/
def beginnings (steps : List Text) : List (List Text) :=
  (List.range (steps.length + 1)).map fun n => steps.take n

/-- What a path leads to, and the folders on its way. Of a folder, its files
    are only looked at if that is asked for. -/
def found (folder : Text) (inside : Bool) (path : Text) : IO Tree := do
  let mut tree : Tree := { folders := [Place.ofPath folder] }
  for steps in beginnings (Path.steps path) do
    let part := Path.absolute folder (Text.join [Path.slash] steps)
    if ← isFolder part then tree := { tree with folders := Place.ofPath part :: tree.folders }
  let whole := Path.absolute folder path
  if ← isFolder whole then
    if inside then
      let more ← filesBelow whole
      tree := { files := tree.files ++ more.files, folders := tree.folders ++ more.folders }
  else if let some content ← content? whole then
    tree := tree.put (Place.ofPath whole) content
  return tree

/-- The files that a command line can be about: those that its words name, and
    the ones with the settings. -/
def gather (bench : Bench) (words : List Text) : IO Tree := do
  let settings := [bench.settingsFile, Path.join [bench.home, Job.usualSettingsFile]]
  let mut tree : Tree := {}
  for path in words ++ settings do
    let more ← found bench.folder (words.head? == some (utf8 "fmt")) path
    tree := { files := tree.files ++ more.files, folders := tree.folders ++ more.folders }
  return tree

/-- Writes the files that have changed. -/
def store (before after : Tree) : IO Unit := do
  for (place, content) in after.files do
    if before.file? place != some content then
      IO.FS.writeBinFile (string place.path) ⟨content.toArray⟩

/-- Everything that is left in a stream. -/
partial def allOf (stream : IO.FS.Stream) (before : ByteArray) : IO Text := do
  let more ← stream.read 65536
  if more.isEmpty then return before.data.toList else allOf stream (before ++ more)

/-- Writes records of the log, one to a line. -/
def putLog (records : List LogRecord) : IO Unit := do
  put (← IO.getStderr) (records.flatMap fun r => r.json.compact ++ [Text.lineFeed])

/-- Leads a conversation with a person, and gives the lines that were
    typed. -/
partial def talk (p : LinePrompt) (typed : Journal) : IO Journal := do
  let out ← IO.getStdout
  put out p.ask
  let line := utf8 (← (← IO.getStdin).getLine)
  if line.isEmpty then
    put out LinePrompt.farewell
    return typed
  let (w, p) := p.feed (Text.takeLine line).1
  put out w.out
  putLog p.session.log.toList
  put (← IO.getStderr) w.err
  let p := { p with session := { p.session with log := #[] } }
  let typed := match w.history with
    | some entry => typed.add entry
    | none => typed
  if w.ends then return typed else talk p typed

/-- Holds a conversation with a person under some settings. -/
def converse (bench : Bench) (s : Settings) : IO Unit := do
  let path := s.historyPath bench.home
  put (← IO.getStdout) LinePrompt.banner
  let before := Journal.ofText ((← content? path).getD [])
  let typed ← talk (LinePrompt.start s) before
  if !path.isEmpty then IO.FS.writeBinFile (string path) ⟨typed.text.toArray⟩

/-- The header of the next frame, up to its blank line. -/
partial def header (stream : IO.FS.Stream) (before : Text) : IO Text := do
  let line := utf8 (← stream.getLine)
  let all := before ++ line
  if line.isEmpty || line == utf8 "\n" || line == utf8 "\r\n" then return all
  else header stream all

/-- As many bytes of a stream as are wanted, or fewer at its end. -/
partial def bytesOf (stream : IO.FS.Stream) (count : Nat) (before : Text) : IO Text := do
  if count ≤ before.length then return before
  let more ← stream.read (count - before.length).toUSize
  if more.isEmpty then return before else bytesOf stream count (before ++ more.data.toList)

/-- Serves an editor, and gives the fault that ended it, if one did. -/
partial def serve (docs : Documents) : IO (Option Text) := do
  let input ← IO.getStdin
  let head ← header input []
  let count := match Wire.header head with
    | .fields fs _ => ((Json.signed? (Wire.announced fs)).getD 0).toNat
    | _ => 0
  match Wire.cut (head ++ (← bytesOf input count [])) with
  | .ended => return none
  | .broken message => return some message
  | .body payload _ =>
    match Decoder.json.message payload with
    | none => serve docs
    | some request =>
      let (docs, outgoing) := handle .json docs request
      put (← IO.getStdout) (outgoing.flatMap fun m => Wire.frame m.json.compact)
      if request.method = utf8 "exit" then return none else serve docs

/-- Reports a failure. -/
def fail (message : Text) : IO UInt32 := do
  put (← IO.getStderr) (message ++ [Text.lineFeed])
  return 1

/-- Carries out a command line over the files that it names. -/
def work (bench : Bench) (words : List Text) : IO UInt32 := do
  let tree ← gather bench words
  let (result, desk) := Desk.after bench words { tree := tree }
  put (← IO.getStdout) desk.out
  putLog desk.log
  put (← IO.getStderr) desk.err
  store tree desk.tree
  match result with
  | .ok _ => return 0
  | .error e => fail e.message

/-- Starts a conversation, once its flags and the settings are known. -/
def start (bench : Bench) (words : List Text) : IO UInt32 := do
  let job : Job Settings := do
    let f ← Job.flags ["tui", "verbose"] words
    let s ← Job.settings
    return { s with verbose := s.verbose || f.isOn "verbose" }
  match ((ReaderT.run job bench).run.run { tree := ← gather bench [] }).1 with
  | .error e => fail e.message
  | .ok s =>
    converse bench s
    return 0

end PocketScript.Machine

open PocketScript in
/-- The program. -/
def main (arguments : List String) : IO UInt32 := do
  let words := arguments.map utf8
  let input ← IO.getStdin
  let bench : Bench :=
    { folder := utf8 (← IO.currentDir).toString
      home := utf8 ((← IO.getEnv "HOME").getD "")
      settingsFile := utf8 ((← IO.getEnv "CHONK_CONFIG").getD "")
      input := [] }
  if words.head? == some (utf8 "lsp") then
    match ← Machine.serve [] with
    | some message => Machine.fail message
    | none => return 0
  else if words.head? == some (utf8 "repl") then Machine.start bench words.tail
  else if words.isEmpty then
    if ← input.isTty then Machine.start bench []
    else Machine.work { bench with input := ← Machine.allOf input ByteArray.empty } words
  else Machine.work bench words
