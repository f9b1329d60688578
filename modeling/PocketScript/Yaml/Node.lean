import PocketScript.Yaml.Scan

/-!
# Nodes

What a settings file says, as a tree: scalars, sequences and mappings. A node
can be given a name and be referred to by it later; the reference holds the
node, unless it stands inside it.

Only the first document of a file counts. What follows it has to be readable
as far as tokens are read ahead, and is ignored otherwise.

## Main definitions

* `Node`: A node of the tree.
* `Supply`: Where the tokens come from, with the names and handles in force.
* `node`: Reading a node.
* `document?`: The first document of a file.
-/

namespace PocketScript.Yaml

/-- A node of the tree. A scalar keeps its tag and whether it was written
    without quotes. -/
inductive Node where
  | scalar (tag : Option Text) (text : Text) (isPlain : Bool)
  | sequence (items : List Node)
  | mapping (entries : List (Node × Node))
  /-- A reference to a named node, which is missing inside itself. -/
  | alias (name : Text) (target : Option Node)

/-- What stands for a node that is not there. -/
def Node.absent : Node := .scalar none [] true

/-- Where the tokens come from, with the named nodes, the newest first, and
    the meanings of handles. A node that is still being read has only its
    name. -/
structure Supply where
  scanner : Scanner
  named : List (Text × Option Node) := []
  handles : List (Text × Text) := []

/-- Putting something together from a supply, which can fail. -/
abbrev Assembly := StateT Supply Option

namespace Assembly

/-- The next token. -/
def peek : Assembly Token := do
  let supply ← get
  match supply.scanner.ready? with
  | none => failure
  | some scanner =>
    set { supply with scanner := scanner }
    return scanner.queue.headD .streamEnd

/-- Passes over the next token. -/
def advance : Assembly Unit := modify fun s => { s with scanner := s.scanner.advance }

/-- The node that a name refers to. -/
def named (name : Text) : Assembly (Option Node) := do
  match (← get).named.lookup name with
  | some target => return target
  | none => failure

/-- Announces that a node of this name is being read. -/
def announce (name : Option Text) : Assembly Unit :=
  match name with
  | some name => modify fun s => { s with named := (name, none) :: s.named }
  | none => return

/-- Gives the newest unfinished node of a name its node. -/
def fulfil (name : Text) (n : Node) : List (Text × Option Node) → List (Text × Option Node)
  | [] => []
  | (other, target) :: more =>
    if other = name ∧ target.isNone then (other, some n) :: more
    else (other, target) :: fulfil name n more

/-- Finishes a node that was announced. -/
def complete (name : Option Text) (n : Node) : Assembly Node := do
  match name with
  | some name => modify fun s => { s with named := fulfil name n s.named }
  | none => pure ()
  return n

/-- The tag that a handle and a suffix make. -/
def tagOf (handle suffix : Text) : Assembly Text := do
  if handle.isEmpty then return suffix
  match (← get).handles.lookup handle with
  | some meaning => return meaning ++ suffix
  | none => failure

/-- Reads the name and the tag of a node, in either order. -/
def properties : Assembly (Option Text × Option Text) := do
  match ← peek with
  | .anchor name =>
    advance
    match ← peek with
    | .tag handle suffix =>
      advance
      return (some name, some (← tagOf handle suffix))
    | _ => return (some name, none)
  | .tag handle suffix =>
    advance
    let tag ← tagOf handle suffix
    match ← peek with
    | .anchor name =>
      advance
      return (some name, some tag)
    | _ => return (none, some tag)
  | _ => return (none, none)

end Assembly

open Assembly

mutual

/-- Reads a node. Indented collections are only allowed outside brackets, and
    a sequence without indentation of its own only as part of a mapping. -/
def node (isBlock isIndentless : Bool) : (fuel : Nat) → Assembly Node
  | 0 => failure
  | n + 1 => do
    if let .alias name ← peek then
      advance
      return .alias name (← named name)
    let (name, tag) ← properties
    announce name
    match ← peek, isBlock, isIndentless with
    | .blockEntry, _, true => complete name (.sequence (← looseItems n))
    | .scalar text isPlain, _, _ => do
      advance
      complete name (.scalar tag text isPlain)
    | .flowSequenceStart, _, _ => do
      advance
      complete name (.sequence (← flowItems true n))
    | .flowMappingStart, _, _ => do
      advance
      complete name (.mapping (← flowEntries true n))
    | .blockSequenceStart, true, _ => do
      advance
      complete name (.sequence (← blockItems n))
    | .blockMappingStart, true, _ => do
      advance
      complete name (.mapping (← blockEntries n))
    | _, _, _ =>
      if name.isSome ∨ tag.isSome then complete name (.scalar tag [] true) else failure

/-- Reads the items of an indented sequence, up to its end. -/
def blockItems : (fuel : Nat) → Assembly (List Node)
  | 0 => failure
  | n + 1 => do
    match ← peek with
    | .blockEntry =>
      advance
      let item ← match ← peek with
        | .blockEntry => pure Node.absent
        | .blockEnd => pure Node.absent
        | _ => node true false n
      return item :: (← blockItems n)
    | .blockEnd =>
      advance
      return []
    | _ => failure

/-- Reads the items of a sequence without indentation of its own. -/
def looseItems : (fuel : Nat) → Assembly (List Node)
  | 0 => failure
  | n + 1 => do
    match ← peek with
    | .blockEntry =>
      advance
      let item ← match ← peek with
        | .blockEntry => pure Node.absent
        | .key => pure Node.absent
        | .value => pure Node.absent
        | .blockEnd => pure Node.absent
        | _ => node true false n
      return item :: (← looseItems n)
    | _ => return []

/-- Reads a key or a value of an indented mapping, which may be missing. -/
def blockPart : (fuel : Nat) → Assembly Node
  | 0 => failure
  | n + 1 => do
    match ← peek with
    | .key => return Node.absent
    | .value => return Node.absent
    | .blockEnd => return Node.absent
    | _ => node true true n

/-- Reads the entries of an indented mapping, up to its end. -/
def blockEntries : (fuel : Nat) → Assembly (List (Node × Node))
  | 0 => failure
  | n + 1 => do
    match ← peek with
    | .key =>
      advance
      let k ← blockPart n
      let v ← match ← peek with
        | .value => do
          advance
          blockPart n
        | _ => pure Node.absent
      return (k, v) :: (← blockEntries n)
    | .blockEnd =>
      advance
      return []
    | _ => failure

/-- Reads a key or a value between brackets, which may be missing. -/
def flowPart : (fuel : Nat) → Assembly Node
  | 0 => failure
  | n + 1 => do
    match ← peek with
    | .value => return Node.absent
    | .flowEntry => return Node.absent
    | .flowMappingEnd => return Node.absent
    | _ => node false false n

/-- Reads the value of an entry between curly brackets, which may be
    missing. -/
def flowValue : (fuel : Nat) → Assembly Node
  | 0 => failure
  | n + 1 => do
    match ← peek with
    | .value =>
      advance
      match ← peek with
      | .flowEntry => return Node.absent
      | .flowMappingEnd => return Node.absent
      | _ => node false false n
    | _ => return Node.absent

/-- Reads the entries of a mapping between brackets, up to its end. -/
def flowEntries (isFirst : Bool) : (fuel : Nat) → Assembly (List (Node × Node))
  | 0 => failure
  | n + 1 => do
    if let .flowMappingEnd ← peek then
      advance
      return []
    if !isFirst then
      match ← peek with
      | .flowEntry => advance
      | _ => failure
    match ← peek with
    | .flowMappingEnd =>
      advance
      return []
    | .key =>
      advance
      let k ← flowPart n
      let v ← flowValue n
      return (k, v) :: (← flowEntries false n)
    | _ =>
      let k ← node false false n
      return (k, Node.absent) :: (← flowEntries false n)

/-- Reads an entry that stands among the items of a sequence, after its
    mark. A key that is missing takes its colon with it. -/
def flowPair : (fuel : Nat) → Assembly Node
  | 0 => failure
  | n + 1 => do
    let k ← match ← peek with
      | .value => do
        advance
        pure Node.absent
      | .flowEntry => do
        advance
        pure Node.absent
      | .flowSequenceEnd => do
        advance
        pure Node.absent
      | _ => node false false n
    let v ← match ← peek with
      | .value => do
        advance
        match ← peek with
        | .flowEntry => pure Node.absent
        | .flowSequenceEnd => pure Node.absent
        | _ => node false false n
      | _ => pure Node.absent
    return .mapping [(k, v)]

/-- Reads the items of a sequence between brackets, up to its end. -/
def flowItems (isFirst : Bool) : (fuel : Nat) → Assembly (List Node)
  | 0 => failure
  | n + 1 => do
    if let .flowSequenceEnd ← peek then
      advance
      return []
    if !isFirst then
      match ← peek with
      | .flowEntry => advance
      | _ => failure
    match ← peek with
    | .flowSequenceEnd =>
      advance
      return []
    | .key =>
      advance
      let item ← flowPair n
      return item :: (← flowItems false n)
    | _ =>
      let item ← node false false n
      return item :: (← flowItems false n)

end

/-! ## Documents -/

/-- What handles stand for unless a document says otherwise. -/
def usualHandles : List (Text × Text) :=
  [(utf8 "!", utf8 "!"), (utf8 "!!", utf8 "tag:yaml.org,2002:")]

/-- Reads directives. There is at most one version, which is 1.1, and a handle
    is given a meaning at most once. -/
def directives : (fuel : Nat) → (versioned : Bool) → Assembly Unit
  | 0, _ => failure
  | n + 1, versioned => do
    match ← peek with
    | .version major minor =>
      if versioned ∨ major ≠ 1 ∨ minor ≠ 1 then failure
      advance
      directives n true
    | .handle handle meaning =>
      if ((← get).handles.lookup handle).isSome then failure
      modify fun s => { s with handles := (handle, meaning) :: s.handles }
      advance
      directives n versioned
    | _ => return

/-- Reads the content of a document that was opened by its mark. -/
def content (fuel : Nat) : Assembly Node := do
  match ← peek with
  | .version _ _ => return Node.absent
  | .handle _ _ => return Node.absent
  | .documentStart => return Node.absent
  | .documentEnd => return Node.absent
  | .streamEnd => return Node.absent
  | _ => node true false fuel

/-- Allows the usual handles that have been given no other meaning. -/
def useHandles : Assembly Unit :=
  modify fun s => { s with handles := s.handles ++ usualHandles }

/-- Reads a document that is opened by its mark. -/
def markedDocument (fuel : Nat) : Assembly Node := do
  directives fuel false
  useHandles
  match ← peek with
  | .documentStart =>
    advance
    content fuel
  | _ => failure

/-- Reads the first document, and looks at what follows. -/
def document (fuel : Nat) : Assembly Node := do
  let root ← match ← peek with
    | .streamEnd => pure Node.absent
    | .version _ _ => markedDocument fuel
    | .handle _ _ => markedDocument fuel
    | .documentStart => markedDocument fuel
    | _ => do
      useHandles
      node true false fuel
  let _ ← peek
  return root

/-- The first document of a file. A token takes at least one character and
    opens at most one node and one entry, so the length bounds the depth of
    the reading. -/
def document? (file : Text) : Option Node := do
  let scanner ← Scanner.open? file
  let (root, _) ← (document (4 * file.length + 16)).run { scanner := scanner }
  some root

end PocketScript.Yaml
