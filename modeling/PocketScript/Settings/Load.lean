import PocketScript.Files.Path
import PocketScript.Settings.Basic
import PocketScript.Yaml.Meaning

/-!
# Loading settings

A settings file is a mapping from names to scalars. What it does not name
keeps its standard value, and so does what it names with nothing. Names that
are no settings are passed over together with their values. A name may occur
only once.

An entry with the mark of a merge takes over the entries of another mapping,
or of several, except those whose names occur already.

References make it possible to write a short file that stands for a very long
one. Loading therefore counts the nodes it looks at, and gives up on a file
if nearly all of them are reached through references.

## Main definitions

* `Settings.Effort`: The number of nodes looked at.
* `Settings.assign`: Setting what a name stands for.
* `Settings.load?`: The settings that a file makes.
* `Settings.historyPath`: Where typed lines are kept.
-/

namespace PocketScript

open Yaml (Node Meaning)

namespace Yaml.Node

/-- What tells keys of the same mapping apart: the kind and the text. -/
def keyLook : Node → Nat × Text
  | scalar _ t _ => (0, t)
  | sequence _ => (1, [])
  | mapping _ => (2, [])
  | .alias name _ => (3, name)

/-- Is the node the mark of a merge? -/
def isMerge : Node → Bool
  | scalar tag t isPlain =>
    t == mergeMark &&
      match tag.filter (· != utf8 "!") with
      | some tag => shortTag tag == utf8 "!!merge"
      | none => isPlain
  | _ => false

/-- The nodes that a merge takes over. -/
def merged : Node → List Node
  | sequence items => items
  | n => [n]

end Yaml.Node

namespace Settings

/-! ## Effort -/

/-- The number of nodes looked at, and how many of them were reached through
    references. -/
structure Effort where
  looked : Nat := 0
  referred : Nat := 0
deriving Repr, DecidableEq

/-- Are more than a share of the nodes reached through references? Of a file
    of moderate size 99 in 100 may be, and of a very large one 10 in 100; in
    between the share falls steadily. -/
def Effort.isExcessive (e : Effort) : Bool :=
  let moderate := 400000
  let large := 4000000
  e.referred > 100 && e.looked > 1000 &&
    if e.looked ≤ moderate then 99 * e.looked < 100 * e.referred
    else if large ≤ e.looked then e.looked < 10 * e.referred
    else
      (99 * (large - moderate) - 89 * (e.looked - moderate)) * e.looked <
        100 * (large - moderate) * e.referred

/-- Loading something, which can fail. -/
abbrev Loading := StateT Effort Option

namespace Loading

/-- Counts a node that is looked at. -/
def count (referred : Bool) : Loading Unit := do
  modify fun e =>
    { looked := e.looked + 1, referred := if referred then e.referred + 1 else e.referred }
  if (← get).isExcessive then failure

/-- Looks at a node, or at the one that a reference leads to, and tells
    whether a reference was followed. A reference from inside a node to it
    leads nowhere. -/
def look (referred : Bool) (n : Node) : Loading (Bool × Node) := do
  count referred
  match n with
  | .alias _ none => failure
  | .alias _ (some target) =>
    count true
    return (true, target)
  | n => return (referred, n)

/-- The text of a scalar and what it stands for. Other nodes are refused. -/
def scalar (referred : Bool) (n : Node) : Loading (Text × Meaning) := do
  match ← look referred n with
  | (_, .scalar tag t isPlain) =>
    match Yaml.meaning? tag t isPlain with
    | some m => return (t, m)
    | none => failure
  | _ => failure

/-- The text that a node gives, or nothing if it is there to say nothing. -/
def text (referred : Bool) (n : Node) : Loading (Option Text) := do
  match ← scalar referred n with
  | (_, .nothing) => return none
  | (_, .words w) => return some w
  | (t, _) => return some t

/-- The words that stand for truth besides the usual ones. -/
def yesWords : List Text := [utf8 "y", "Y", "yes", "Yes", "YES", "on", "On", "ON"]

/-- The words that stand for falsehood besides the usual ones. -/
def noWords : List Text := [utf8 "n", "N", "no", "No", "NO", "off", "Off", "OFF"]

/-- The truth value that a node gives, or nothing if it is there to say
    nothing. -/
def switch (referred : Bool) (n : Node) : Loading (Option Bool) := do
  match ← scalar referred n with
  | (_, .nothing) => return none
  | (_, .truth b) => return some b
  | (_, .words w) =>
    if yesWords.contains w then return some true
    else if noWords.contains w then return some false
    else failure
  | (_, .other) => failure

end Loading

/-! ## Entries -/

/-- The names of the settings. -/
def names : List Text := [utf8 "history_file", "prompt", "continuation_prompt", "tui", "verbose"]

/-- Sets what a name stands for. A name that is no setting changes nothing. -/
def assign (referred : Bool) (name : Text) (value : Node) (s : Settings) : Loading Settings := do
  if name = utf8 "history_file" then
    return { s with historyFile := (← Loading.text referred value).getD s.historyFile }
  else if name = utf8 "prompt" then
    return { s with prompt := (← Loading.text referred value).getD s.prompt }
  else if name = utf8 "continuation_prompt" then
    return { s with continuation := (← Loading.text referred value).getD s.continuation }
  else if name = utf8 "tui" then
    return { s with fullScreen := (← Loading.switch referred value).getD s.fullScreen }
  else if name = utf8 "verbose" then
    return { s with verbose := (← Loading.switch referred value).getD s.verbose }
  else return s

/-- Settings in the making: the names that occurred, and the values. -/
abbrev Draft := List Text × Settings

/-- Takes over entries. The values of names that have occurred are not looked
    at in a mapping that is merged, and refused in another. -/
def takeOver (isMerged referred : Bool) : List (Node × Node) → Draft → Loading Draft
  | [], d => return d
  | (k, v) :: more, (seen, s) => do
    if k.isMerge then takeOver isMerged referred more (seen, s)
    else match ← Loading.text referred k with
      | none => takeOver isMerged referred more (seen, s)
      | some name =>
        if seen.contains name then
          if !isMerged && names.contains name then failure
          takeOver isMerged referred more (seen, s)
        else
          let s ← assign referred name v s
          takeOver isMerged referred more (name :: seen, s)

/-- The entries of a mapping. -/
def entries (n : Node) : Loading (List (Node × Node)) :=
  match n with
  | .mapping entries => return entries
  | _ => failure

mutual

/-- Takes over the entries of a mapping and of those it merges. A mapping that
    merges others for itself has its names looked at once more. -/
def fill : (fuel : Nat) → (isMerged referred : Bool) → List (Node × Node) → Draft → Loading Draft
  | 0, _, _, _, _ => failure
  | n + 1, isMerged, referred, es, d => do
    if ¬ (es.map fun (k, _) => k.keyLook).Nodup then failure
    let d ← takeOver isMerged referred es d
    match es.find? fun (k, _) => k.isMerge with
    | none => return d
    | some (_, v) =>
      if !isMerged then es.forM fun (k, _) => do
        let _ ← Loading.look referred k
      merge n referred v.merged d

/-- Merges mappings one after the other. -/
def merge : (fuel : Nat) → (referred : Bool) → List Node → Draft → Loading Draft
  | 0, _, _, _ => failure
  | _ + 1, _, [], d => return d
  | n + 1, referred, v :: more, d => do
    let (referred', target) ← Loading.look referred v
    let d ← fill n true referred' (← entries target) d
    merge n referred more d

end

/-! ## Files -/

/-- A prompt that is empty is replaced by the standard one. -/
def withPrompts (s : Settings) : Settings :=
  { s with
    prompt := if s.prompt.isEmpty then standard.prompt else s.prompt
    continuation := if s.continuation.isEmpty then standard.continuation else s.continuation }

/-- The settings that the root of a file makes, of which the file itself is
    counted too. -/
def ofRoot (fuel : Nat) (root : Node) : Loading Settings := do
  Loading.count false
  match root with
  | .mapping es =>
    Loading.count false
    let (_, s) ← fill fuel false false es ([], standard)
    return s.withPrompts
  | n =>
    match ← Loading.scalar false n with
    | (_, .nothing) => return standard
    | _ => failure

/-- The settings that a file makes, if it can be read. Every mapping and every
    node that is merged takes at least one character, so the length bounds
    how many are merged in each other. -/
def load? (file : Text) : Option Settings := do
  let root ← Yaml.document? file
  let (s, _) ← (ofRoot (2 * file.length + 4) root).run {}
  some s

/-- Where typed lines are kept. A tilde stands for the home folder; if that is
    unknown, so is the place. -/
def historyPath (home : Text) (s : Settings) : Text :=
  if s.historyFile = utf8 "~" ∨ Text.startsWith "~/" s.historyFile then
    if home.isEmpty then [] else Path.join [home, s.historyFile.drop 1]
  else s.historyFile

end Settings

end PocketScript
