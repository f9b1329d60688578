import PocketScript.Server.Message
import PocketScript.Session.Basic
import PocketScript.Text.Dict

/-!
# Handling messages

The language server: the documents that are open, and what is owed for each
message. Handling a message is a function from the open documents to the open
documents and the messages to send. How a message is read is for a decoder to say.

## Main definitions

* `Documents`: The open documents.
* `classifyWord`: What a word is to the language.
* `handle`: What a message changes and what it is answered with.
-/

namespace PocketScript

/-- The open documents, by their identifiers. -/
abbrev Documents := Text.Dict Text

/-- The native functions that a fresh session offers. -/
def offeredBuiltins : List Text := Session.initial.builtins

/-- What a word is to the language. -/
def classifyWord (word : Text) (builtins : List Text) : Text :=
  if Kind.keywordNames.contains word then "keyword"
  else if builtins.contains word then "builtin"
  else "symbol"

/-- The words offered for completion, in byte order. -/
def suggestions (builtins : List Text) : List Suggestion :=
  (Text.sort (Kind.keywordNames ++ builtins)).map
    fun label => ⟨label, Kind.keywordNames.contains label⟩

/-- What to show for the word under a cursor. -/
def hover (docs : Documents) (c : Cursor) : Answer :=
  let source := (Text.Dict.find? c.uri docs).getD []
  let word := wordAt source c.line c.character
  if word.isEmpty then .nothing
  else .hover ("`" ++ word ++ "`\n\nChonk " ++ classifyWord word offeredBuiltins)

/-- An answer, if one is wanted. -/
def respond (id : Option Json) (answer : Answer) : List Outgoing :=
  (id.map fun i => Outgoing.response i answer).toList

/-- A refusal, if an answer is wanted. -/
def refuse (id : Option Json) (code : Int) (message : Text) : List Outgoing :=
  (id.map fun i => Outgoing.refusal i code message).toList

/-- Gives a document a text and publishes its diagnostics. -/
def updateDocument (docs : Documents) (uri text : Text) : Documents × List Outgoing :=
  (Text.Dict.insert uri text docs, [.publish uri (diagnose text)])

/-- What a message changes and what is sent for it. Messages about documents
    whose parameters cannot be read change nothing. -/
def handle (decoder : Decoder) (docs : Documents) (r : Request) : Documents × List Outgoing :=
  if r.method = utf8 "initialize" then (docs, respond r.id .capabilities)
  else if r.method = utf8 "initialized" ∨ r.method = utf8 "exit" then (docs, [])
  else if r.method = utf8 "shutdown" then (docs, respond r.id .nothing)
  else if r.method = utf8 "textDocument/didOpen" then
    match r.params.bind decoder.opened with
    | some d => updateDocument docs d.uri d.text
    | none => (docs, [])
  else if r.method = utf8 "textDocument/didChange" then
    match r.params.bind decoder.changed with
    | some d => match d.texts.getLast? with
      | some text => updateDocument docs d.uri text
      | none => (docs, [])
    | none => (docs, [])
  else if r.method = utf8 "textDocument/didClose" then
    match r.params.bind decoder.closed with
    | some uri => (Text.Dict.erase uri docs, [.publish uri []])
    | none => (docs, [])
  else if r.method = utf8 "textDocument/completion" then
    (docs, respond r.id (.suggestions (suggestions offeredBuiltins)))
  else if r.method = utf8 "textDocument/hover" then
    match r.params.bind decoder.cursor with
    | some c => (docs, respond r.id (hover docs c))
    | none => (docs, refuse r.id (-32602) "invalid hover params")
  else (docs, refuse r.id (-32601) "method not found")

end PocketScript
