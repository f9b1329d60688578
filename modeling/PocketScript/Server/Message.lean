import PocketScript.Json.Read
import PocketScript.Server.Diagnostic

/-!
# Messages

What editors send and what they are sent, as typed values, and their JSON
forms.

Reading is lenient the way editors need it: members in any order, unknown
members ignored, names compared without regard to case if none matches
exactly, and null taken as nothing said. A member that is read and has the
wrong type makes the whole message unreadable. If a member is given more than
once, each occurrence is read over what the ones before have left, and a list
item by item.

## Main definitions

* `Request`: An incoming message.
* `Request.read?`: Reading one.
* `DocumentText`, `DocumentChanges`, `Cursor`: Parameters.
* `Decoder`: How messages and their parameters are read.
* `Outgoing`: An outgoing message.
* `Outgoing.json`: Its JSON form.
-/

namespace PocketScript

namespace Json

/-- A name with its case taken away: capitals for small letters, and for the
    two other characters whose capital is a Latin one. -/
def foldName (name : Text) : List Rune :=
  name.runes.map fun r =>
    if 97 ≤ r ∧ r ≤ 122 then r - 32 else if r = 0x17F then 83 else if r = 0x212A then 75 else r

/-- The field that a name selects: the one with exactly this name, or else the
    one that differs in case only. -/
def selects (fields : List Text) (name : Text) : Option Text :=
  if fields.contains name then some name
  else fields.find? fun f => foldName f == foldName name

/-- Reads an object over a value, member by member. `read` gets the selected
    field and its value. Null leaves the value as it is. -/
def readOver {α : Type} (fields : List Text) (read : Text → Json → α → Option α) (start : α)
    (j : Json) : Option α :=
  match j with
  | .null => some start
  | _ =>
    j.members?.bind fun members =>
      members.foldlM (fun a (name, value) =>
        match selects fields name with
        | some f => read f value a
        | none => some a) start

/-- Reads a text over another one. -/
def readText (j : Json) (before : Text) : Option Text :=
  match j with
  | .null => some before
  | _ => j.text?

/-- Reads an integer over another one. -/
def readInteger (j : Json) (before : Int) : Option Int :=
  match j with
  | .null => some before
  | _ => j.integer?

end Json

/-- An incoming message. One without an identifier wants no answer. -/
structure Request where
  id : Option Json := none
  method : Text := []
  params : Option Json := none
deriving Inhabited

namespace Request

/-- Reads a message. Nothing at all is an empty message. -/
def read? (j : Json) : Option Request :=
  Json.readOver ["jsonrpc", "id", "method", "params"] (fun field value r =>
    if field = utf8 "jsonrpc" then (Json.readText value []).map fun _ => r
    else if field = utf8 "id" then
      match value with
      | .null => some { r with id := none }
      | v => some { r with id := some v }
    else if field = utf8 "method" then (Json.readText value r.method).map fun m => { r with method := m }
    else some { r with params := some value }) {} j

end Request

/-- A document: its identifier and its text. -/
structure DocumentText where
  uri : Text := []
  text : Text := []
deriving Repr, DecidableEq

/-- A document and the texts it has gone through. If an earlier list of texts
    was longer, its surplus is kept behind the end. -/
structure DocumentChanges where
  uri : Text := []
  texts : List Text := []
  surplus : List Text := []
deriving Repr, DecidableEq

/-- A place in a document. -/
structure Cursor where
  uri : Text := []
  line : Int := 0
  character : Int := 0
deriving Repr, DecidableEq

/-- Reads the identifier of a document over another one. -/
def readUri (j : Json) (before : Text) : Option Text :=
  Json.readOver ["uri"] (fun _ value uri => Json.readText value uri) before j

/-- Reads the parameters of opening a document. -/
def DocumentText.read? (j : Json) : Option DocumentText :=
  Json.readOver ["textDocument"] (fun _ value d =>
    Json.readOver ["uri", "text"] (fun field value d =>
      if field = utf8 "uri" then (Json.readText value d.uri).map fun u => { d with uri := u }
      else (Json.readText value d.text).map fun t => { d with text := t }) d value) {} j

/-- Reads the list of changes over another one, each change over the one that
    stood in its place. -/
def readChanges : List Json → List Text → Option (List Text)
  | [], _ => some []
  | j :: js, before => do
    let old := before.headD []
    let text ← Json.readOver ["text"] (fun _ value t => Json.readText value t) old j
    let rest ← readChanges js before.tail
    pure (text :: rest)

/-- Reads a list of changes. One that is there to say nothing, or is empty,
    takes everything with it. -/
def DocumentChanges.readTexts (j : Json) (d : DocumentChanges) : Option DocumentChanges :=
  match j with
  | .null => some { d with texts := [], surplus := [] }
  | .array [] => some { d with texts := [], surplus := [] }
  | .array items =>
    let before := d.texts ++ d.surplus
    (readChanges items before).map fun ts =>
      { d with texts := ts, surplus := before.drop ts.length }
  | _ => none

/-- Reads the parameters of changing a document. -/
def DocumentChanges.read? (j : Json) : Option DocumentChanges :=
  Json.readOver ["textDocument", "contentChanges"] (fun field value d =>
    if field = utf8 "textDocument" then (readUri value d.uri).map fun u => { d with uri := u }
    else d.readTexts value) {} j

/-- Reads the parameters of closing a document. -/
def readClosed (j : Json) : Option Text :=
  Json.readOver ["textDocument"] (fun _ value u => readUri value u) [] j

/-- Reads a place in a document. -/
def Cursor.read? (j : Json) : Option Cursor :=
  Json.readOver ["textDocument", "position"] (fun field value c =>
    if field = utf8 "textDocument" then (readUri value c.uri).map fun u => { c with uri := u }
    else
      Json.readOver ["line", "character"] (fun field value c =>
        if field = utf8 "line" then (Json.readInteger value c.line).map fun n => { c with line := n }
        else (Json.readInteger value c.character).map fun n => { c with character := n })
        c value) {} j

/-- How a server reads what it is sent: a body as a message, and the parameters of a
    message as what its method takes. -/
structure Decoder where
  message : Text → Option Request
  opened : Json → Option DocumentText
  changed : Json → Option DocumentChanges
  closed : Json → Option Text
  cursor : Json → Option Cursor

/-- Reading JSON. -/
def Decoder.json : Decoder where
  message payload := (Json.read payload).bind Request.read?
  opened := DocumentText.read?
  changed := DocumentChanges.read?
  closed := readClosed
  cursor := Cursor.read?

/-- A word offered for completion. -/
structure Suggestion where
  label : Text
  isKeyword : Bool
deriving Repr, DecidableEq

/-- The result of a request. -/
inductive Answer where
  | capabilities
  | nothing
  | suggestions (items : List Suggestion)
  | hover (markdown : Text)
deriving Repr, DecidableEq

/-- An outgoing message. -/
inductive Outgoing where
  | response (id : Json) (result : Answer)
  | refusal (id : Json) (code : Int) (message : Text)
  | publish (uri : Text) (diagnostics : List Diagnostic)
deriving Inhabited

/-- The name that the server goes by. -/
def serverName : Text := "chonk-lsp"

/-- The version of the tools. -/
def toolVersion : Text := "0.1.0"

/-- A place in a document, as JSON. -/
def placeJson (line character : Int) : Json :=
  Json.record [("character", Json.ofInt character), ("line", Json.ofInt line)]

/-- A diagnostic as JSON. -/
def Diagnostic.json (d : Diagnostic) : Json :=
  Json.record
    [("message", Json.ofText d.message),
      ("range", Json.record
        [("end", placeJson d.line (d.character + 1)), ("start", placeJson d.line d.character)]),
      ("severity", Json.ofInt d.severity.code),
      ("source", Json.ofText serverName)]

/-- A suggestion as JSON. -/
def Suggestion.json (s : Suggestion) : Json :=
  Json.record
    [("detail", Json.ofText (if s.isKeyword then "keyword" else "builtin")),
      ("kind", Json.ofInt (if s.isKeyword then 14 else 3)),
      ("label", Json.ofText s.label)]

/-- A result as JSON, if there is anything to say. -/
def Answer.json? : Answer → Option Json
  | capabilities =>
    some (Json.record
      [("capabilities", Json.record
        [("completionProvider", Json.record [("resolveProvider", .bool false)]),
          ("hoverProvider", .bool true),
          ("textDocumentSync", Json.ofInt 1)]),
        ("serverInfo", Json.record
          [("name", Json.ofText serverName), ("version", Json.ofText toolVersion)])])
  | nothing => none
  | suggestions items =>
    some (Json.record
      [("isIncomplete", .bool false), ("items", .array (items.map Suggestion.json))])
  | hover markdown =>
    some (Json.record
      [("contents", Json.record
        [("kind", Json.ofText "markdown"), ("value", Json.ofText markdown)])])

/-- An outgoing message as JSON. A response with nothing to say has no
    result. -/
def Outgoing.json : Outgoing → Json
  | response id result =>
    let members : List (String × Json) := match result.json? with
      | some r => [("result", r)]
      | none => []
    Json.record (("jsonrpc", Json.ofText "2.0") :: ("id", id) :: members)
  | refusal id code message =>
    Json.record
      [("jsonrpc", Json.ofText "2.0"), ("id", id),
        ("error", Json.record [("code", Json.ofInt code), ("message", Json.ofText message)])]
  | publish uri diagnostics =>
    Json.record
      [("jsonrpc", Json.ofText "2.0"), ("method", Json.ofText "textDocument/publishDiagnostics"),
        ("params", Json.record
          [("diagnostics", .array (diagnostics.map Diagnostic.json)), ("uri", Json.ofText uri)])]

end PocketScript
