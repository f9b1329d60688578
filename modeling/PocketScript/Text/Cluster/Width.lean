import PocketScript.Text.Cluster.Kind
import PocketScript.Text.Width

/-!
# The width of clusters

A cluster is a run of characters that a reader takes for one. Whether the next
character still belongs to it depends on its kind and on little of what came
before: the kind of the last character, whether it joined pictographs, and
whether the letters of a flag are complete. A `Cluster.State` is just that.

The width of a cluster is mostly that of its first character. A pictograph is
one or two columns wide, and a selector after it can choose either. A flag and
a syllable that starts with a consonant are as wide as their first letter.
Elsewhere what joins a cluster adds its own width, which for a mark on the
character before it is zero.

## Main definitions

* `Cluster.State`: What a cluster can still be joined by.
* `Cluster.Kind.columns`: What a character adds to a cluster.
* `Cluster.Part`: A cluster that may go on.
* `Cluster.columns`: The columns of a run of characters.
-/

namespace PocketScript.Cluster

/-- What a cluster can still be joined by. -/
inductive State where
  | closed
  | carriageReturn
  | control
  | consonant
  | vowel
  | final
  | leading
  | pictograph
  /-- After a pictograph and a joiner. -/
  | joined
  /-- After the first letter of a flag. -/
  | halfFlag
  /-- After the second letter of a flag. -/
  | flag
deriving Repr, DecidableEq

namespace State

/-- The state after the first character of a cluster. -/
def after : Kind → State
  | .carriageReturn => carriageReturn
  | .lineFeed => control
  | .control => control
  | .consonant => consonant
  | .vowel => vowel
  | .openSyllable => vowel
  | .final => final
  | .closedSyllable => final
  | .leading => leading
  | .pictograph => pictograph
  | .region => halfFlag
  | _ => closed

/-- Does a character of this kind belong to the cluster? -/
def joins : State → Kind → Bool
  | carriageReturn, .lineFeed => true
  | carriageReturn, _ => false
  | control, _ => false
  | _, .carriageReturn => false
  | _, .lineFeed => false
  | _, .control => false
  | _, .extending => true
  | _, .joiner => true
  | _, .spacing => true
  | leading, _ => true
  | consonant, .consonant => true
  | consonant, .vowel => true
  | consonant, .openSyllable => true
  | consonant, .closedSyllable => true
  | vowel, .vowel => true
  | vowel, .final => true
  | final, .final => true
  | joined, .pictograph => true
  | halfFlag, .region => true
  | _, _ => false

/-- The state after one more character of a cluster. -/
def next : State → Kind → State
  | pictograph, .extending => pictograph
  | pictograph, .joiner => joined
  | halfFlag, .region => flag
  | _, k => after k

end State

/-- The columns that a character of a kind takes in a cluster. -/
def Kind.columns (r : Rune) : Kind → Nat
  | .control => 0
  | .carriageReturn => 0
  | .lineFeed => 0
  | .extending => 0
  | .joiner => 0
  | .region => 2
  | .pictograph => if isPicture r then 2 else 1
  | _ =>
    if r = 0x2E3A then 3
    else if r = 0x2E3B then 4
    else if r.isWide then 2
    else 1

/-- A cluster that may go on: the kind of its first character, what it can be
    joined by, and the columns so far. -/
structure Part where
  first : Kind
  state : State
  columns : Nat
deriving Repr, DecidableEq

namespace Part

/-- The cluster that a character starts. -/
def start (r : Rune) : Part :=
  let k := Kind.of r
  ⟨k, .after k, k.columns r⟩

/-- The selector that asks for a pictograph in letters' style. -/
def textSelector : Rune := 0xFE0E

/-- The selector that asks for a pictograph as a picture. -/
def pictureSelector : Rune := 0xFE0F

/-- The columns of a cluster with one more character in it. -/
def widened (r : Rune) (k : Kind) (p : Part) : Nat :=
  match p.first with
  | .pictograph =>
    if r = textSelector then 1 else if r = pictureSelector then 2 else p.columns
  | .region => p.columns
  | .consonant => p.columns
  | _ => p.columns + k.columns r

/-- The cluster with one more character in it, if that belongs to it. -/
def join? (r : Rune) (p : Part) : Option Part :=
  let k := Kind.of r
  if p.state.joins k then some ⟨p.first, p.state.next k, p.widened r k⟩ else none

/-- The columns of a cluster and of the characters after it. -/
def columnsWith (p : Part) : List Rune → Nat
  | [] => p.columns
  | r :: rs =>
    match p.join? r with
    | some q => q.columnsWith rs
    | none => p.columns + (start r).columnsWith rs

end Part

/-- The columns of a run of characters. -/
def columns : List Rune → Nat
  | [] => 0
  | r :: rs => (Part.start r).columnsWith rs

end PocketScript.Cluster
