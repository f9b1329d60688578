import PocketScript.Files.Path

/-!
# Files

A tree of files, as far as a command looks at it or changes it. A place in the
tree is the list of names that lead to it from the root. A folder exists if it
was made or if there is something in it.

Following a path goes step by step: every step starts in a folder and leads to
something that exists. So a path over a missing folder leads nowhere even if
its next step goes back up. Names and paths have a greatest length.

## Main definitions

* `Place`: The way to a file or folder.
* `Tree`: The files and folders.
* `Tree.follow`: Following a path.
* `Tree.read`, `Tree.write`, `Tree.stat`: What can be done with files.
* `FileFault`: Why something could not be done.
-/

namespace PocketScript

/-- The names that lead from the root to a file or a folder. -/
abbrev Place := List Text

/-- The path of a place. -/
def Place.path (p : Place) : Text := Path.slash :: Text.join [Path.slash] p

/-- The place of a rooted path, by its name alone. -/
def Place.ofPath (p : Text) : Place := Path.cleanSteps p

/-- The reason why a file could not be used. -/
inductive Trouble where
  | missing
  | notFolder
  | isFolder
  | tooLong
  | unusable
deriving Repr, DecidableEq

/-- A reason in words. -/
def Trouble.message : Trouble → Text
  | missing => "no such file or directory"
  | notFolder => "not a directory"
  | isFolder => "is a directory"
  | tooLong => "file name too long"
  | unusable => "invalid argument"

/-- What could not be done, with which path, and why. -/
structure FileFault where
  action : Text
  path : Text
  trouble : Trouble
deriving Repr, DecidableEq

/-- The fault in words. -/
def FileFault.message (f : FileFault) : Text :=
  f.action ++ " " ++ f.path ++ ": " ++ f.trouble.message

/-- Files with their contents, and folders that were made. -/
structure Tree where
  files : List (Place × Text) := []
  folders : List Place := []
deriving Repr

namespace Tree

/-- The content of the file at a place. -/
def file? (place : Place) (t : Tree) : Option Text := t.files.lookup place

/-- Is there a folder at a place? -/
def isFolder (place : Place) (t : Tree) : Bool :=
  place.isEmpty || t.folders.any (place.isPrefixOf ·) ||
    t.files.any fun (p, _) => place.isPrefixOf p && p != place

/-- The most bytes of a name. -/
def longestName : Nat := 255

/-- The most bytes of a path. -/
def longestPath : Nat := 4095

/-- Follows steps from a place. -/
def followFrom (t : Tree) : Place → List Text → Except Trouble Place
  | place, [] => .ok place
  | place, step :: more =>
    if !t.isFolder place then .error .notFolder
    else if step.isEmpty ∨ step = Path.here then followFrom t place more
    else if step = Path.up then followFrom t place.dropLast more
    else if longestName < step.length then .error .tooLong
    else
      let next := place ++ [step]
      if t.isFolder next ∨ (t.file? next).isSome then followFrom t next more
      else .error .missing

/-- Follows a path from a folder. The empty path leads nowhere, and one with a
    zero byte in it is not even tried. -/
def follow (folder : Place) (path : Text) (t : Tree) : Except Trouble Place :=
  if path.isEmpty then .error .missing
  else if path.contains 0 then .error .unusable
  else if longestPath < path.length then .error .tooLong
  else t.followFrom (if Path.isRooted path then [] else folder) (Path.steps path)

/-- The place that a path leads to, and whether it is a folder. -/
def stat (folder : Place) (path : Text) (t : Tree) : Except FileFault (Place × Bool) :=
  match t.follow folder path with
  | .ok place => .ok (place, t.isFolder place)
  | .error trouble => .error ⟨"stat", path, trouble⟩

/-- The content of the file that a path leads to. -/
def read (folder : Place) (path : Text) (t : Tree) : Except FileFault Text :=
  match t.follow folder path with
  | .error trouble => .error ⟨"open", path, trouble⟩
  | .ok place =>
    match t.file? place with
    | some content => .ok content
    | none => .error ⟨"read", path, .isFolder⟩

/-- Puts a file in place of the one with the same place. -/
def put (place : Place) (content : Text) (t : Tree) : Tree :=
  { t with files := (place, content) :: t.files.filter fun (p, _) => p != place }

/-- The place of the file that a path would create: it leads to a file, or its
    last step leads from a folder to nothing. -/
def target? (folder : Place) (path : Text) (t : Tree) : Option Place :=
  match t.follow folder path with
  | .ok place => if t.isFolder place then none else some place
  | .error .missing =>
    match (Path.steps path).reverse with
    | [] => none
    | name :: before =>
      let around := if before.isEmpty then utf8 "." else Text.join [Path.slash] before.reverse
      let around := if around.isEmpty then [Path.slash] else around
      match t.follow folder around with
      | .ok place =>
        if name.isEmpty ∨ ¬ t.isFolder place ∨ (t.file? (place ++ [name])).isSome then none
        else some (place ++ [name])
      | .error _ => none
  | .error _ => none

/-- Writes a file, if its path allows it. -/
def write (folder : Place) (path content : Text) (t : Tree) : Option Tree :=
  (t.target? folder path).map fun place => t.put place content

/-- The files in and below a folder. -/
def below (place : Place) (t : Tree) : List Place :=
  (t.files.map Prod.fst).filter fun p => place.isPrefixOf p && p != place

end Tree

end PocketScript
