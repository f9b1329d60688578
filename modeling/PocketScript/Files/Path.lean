import PocketScript.Text.Basic

/-!
# Paths

The names of files and folders. A path is a list of steps with slashes between
them; one that starts with a slash is rooted, and any other starts from some
folder.

Cleaning a path works on the name alone: empty steps and steps that stay are
dropped, and a step up takes back the one before it. At the root a step up
stays there, and a path that is not rooted keeps the steps up it starts with.

## Main definitions

* `Path.clean`: The shortest path of the same meaning.
* `Path.join`: Paths one after the other.
* `Path.absolute`: A path as seen from a folder.
* `Path.extension`: The end of a name from its last point on.
-/

namespace PocketScript.Path

/-- The byte between two steps. -/
def slash : UInt8 := 47

/-- The step that stays where it is. -/
def here : Text := "."

/-- The step to the folder around. -/
def up : Text := ".."

/-- Does the path start at the root? -/
def isRooted (p : Text) : Bool := p.head? == some slash

/-- The steps of a path, the empty ones included. -/
def steps (p : Text) : List Text := Text.splitOn slash p

/-- One more step after some others, the last of which comes first. -/
def addStep (rooted : Bool) (before : List Text) (step : Text) : List Text :=
  if step.isEmpty ∨ step = here then before
  else if step = up then
    match before with
    | [] => if rooted then [] else [up]
    | last :: more => if last = up then up :: before else more
  else step :: before

/-- The steps of a path that are left when it has been cleaned. -/
def cleanSteps (p : Text) : List Text := ((steps p).foldl (addStep (isRooted p)) []).reverse

/-- The shortest path of the same meaning. -/
def clean (p : Text) : Text :=
  let body := Text.join [slash] (cleanSteps p)
  if isRooted p then slash :: body
  else if body.isEmpty then here
  else body

/-- Paths one after the other, leaving out the empty ones. -/
def join (ps : List Text) : Text :=
  let ps := ps.filter fun p => !p.isEmpty
  if ps.isEmpty then [] else clean (Text.join [slash] ps)

/-- A path as seen from a folder. -/
def absolute (folder p : Text) : Text := if isRooted p then clean p else join [folder, p]

/-- The end of the last step from its last point on, or nothing. -/
def extension (p : Text) : Text :=
  let name := (p.reverse.takeWhile (· != slash)).reverse
  match (Text.splitOn 46 name).reverse with
  | [] => []
  | [_] => []
  | last :: _ => 46 :: last

end PocketScript.Path
