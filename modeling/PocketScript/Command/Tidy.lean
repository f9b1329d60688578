import PocketScript.Command.Basic
import PocketScript.Layout

/-!
# Tidying files

Brings files into tidy layout. A file that is named is tidied whatever it is
called; of a folder, the scripts in and below it are. Each file comes once, in
the order of their paths.

## Main definitions

* `Job.targets`: The files that some paths name.
* `Job.tidy`: Tidies files, or checks that they are tidy.
-/

namespace PocketScript.Job

/-- The end of the name of a script. -/
def scriptExtension : Text := ".chonk"

/-- The places of the files that a path names. -/
def targetsAt (path : Text) : Job (List Place) := do
  let tree := (← get).tree
  let (place, isFolder) ← lift (.targetUnknown path) (tree.stat (← place) path)
  if isFolder then
    return (tree.below place).filter fun p => Path.extension p.path == scriptExtension
  else return [Place.ofPath (Path.absolute (← read).folder path)]

/-- The files that some paths name, each once, in the order of their paths. -/
def targets (paths : List Text) : Job (List Place) := do
  let found ← paths.mapM targetsAt
  return found.flatten.eraseDups.mergeSort fun a b => Text.le a.path b.path

/-- Tidies a file. It is replaced if that is asked for and changes it, and
    shown if nothing was asked for. Tells if it was untidy. -/
def tidyFile (inPlace check : Bool) (target : Place) : Job Bool := do
  let source ← lift (.targetUnread target.path) ((← get).tree.read [] target.path)
  match Layout.tidy source with
  | .error e => throw (.untidiable target.path ⟨.lexical e, source⟩)
  | .ok tidied =>
    let changed := tidied != source
    if inPlace then
      if changed then modify fun d => { d with tree := d.tree.put target tidied }
    else if !check then say tidied
    return changed

/-- Tidies files, or checks that they are tidy. -/
def tidy (words : List Text) : Job Unit := do
  let f ← flags ["w", "check"] words
  if f.operands.isEmpty then throw (.noOperand "fmt" "path")
  let changed ← (← targets f.operands).mapM (tidyFile (f.isOn "w") (f.isOn "check"))
  let count := changed.count true
  if f.isOn "check" && 0 < count then throw (.untidy count)

end PocketScript.Job
