import PocketScript.Text.Dict
import PocketScript.Value.Basic

/-!
# Stores

Names are bound in levels, and every level but the outermost lies inside
another. A call opens a level inside the one its function was declared in, so
the levels form a tree that many functions share: a function sees later
changes to the level it was declared in. A store is the list of all levels
ever opened, and a level is known by its number in it.

Looking up a name goes from a level outwards. The levels on the way are its
`chain`, and everything else is said in terms of it: a name is found on the
first level of the chain that binds it, binding a name changes the level
itself and no other, and removing a name removes it from the level where it
would be found.

A level is opened inside one that exists already, so numbers fall along a
chain.

## Main definitions

* `Bindings`: The names of one level with their values, in byte order.
* `Level`, `Store`: Levels and the store of all of them.
* `Store.chain`: The levels from one outwards.
* `Store.lookup`, `Store.set`, `Store.remove`: Finding, binding and removing.
-/

namespace PocketScript

/-- The names of one level with their values. -/
abbrev Bindings := Text.Dict Value

/-- A level: the level it lies in, if any, and its bindings. -/
structure Level where
  outer : Option LevelId
  bindings : Bindings := []
deriving Inhabited

/-- All levels opened so far. -/
structure Store where
  levels : Array Level := #[]
deriving Inhabited

namespace Store

/-- The level that every other one of a session lies in. -/
def globals : LevelId := 0

/-- A store with nothing but the outermost level. -/
def initial : Store := ⟨#[{ outer := none }]⟩

/-- The level with a number. -/
def level? (s : Store) (id : LevelId) : Option Level := s.levels[id]?

/-- The level that a level lies in. -/
def outer? (s : Store) (id : LevelId) : Option LevelId := (s.level? id).bind Level.outer

/-- The bindings of one level. -/
def bindings (s : Store) (id : LevelId) : Bindings := ((s.level? id).map Level.bindings).getD []

/-- Opens a level inside another, or an outermost one. -/
def openLevel (s : Store) (outer : Option LevelId) : LevelId × Store :=
  (s.levels.size, ⟨s.levels.push { outer := outer }⟩)

/-- The levels from one outwards, nearest first. -/
def chain (s : Store) (id : LevelId) : List LevelId :=
  match s.level? id with
  | none => []
  | some l =>
    match l.outer with
    | none => [id]
    | some o => if o < id then id :: chain s o else [id]
termination_by id

/-- The nearest level of the chain that binds a name. -/
def home? (s : Store) (id : LevelId) (name : Text) : Option LevelId :=
  (s.chain id).find? fun l => (Text.Dict.find? name (s.bindings l)).isSome

/-- The value that a name has, seen from a level. -/
def lookup (s : Store) (id : LevelId) (name : Text) : Option Value :=
  (s.chain id).findSome? fun l => Text.Dict.find? name (s.bindings l)

/-- Replaces the bindings of one level. -/
def update (s : Store) (id : LevelId) (f : Bindings → Bindings) : Store :=
  ⟨s.levels.modify id fun l => { l with bindings := f l.bindings }⟩

/-- Binds a name in one level, hiding what outer levels bind to it. -/
def set (s : Store) (id : LevelId) (name : Text) (v : Value) : Store :=
  s.update id (Text.Dict.insert name v)

/-- Removes a name from the nearest level that binds it, if there is one. -/
def remove (s : Store) (id : LevelId) (name : Text) : Option Store :=
  (s.home? id name).map fun l => s.update l (Text.Dict.erase name)

/-- The names that one level binds, in byte order. -/
def names (s : Store) (id : LevelId) : List Text := Text.Dict.names (s.bindings id)

/-- The value of a name, or the fault of its having none. -/
def get (s : Store) (id : LevelId) (name : Token) : Except RuntimeFault Value :=
  match s.lookup id name.lexeme with
  | some v => .ok v
  | none => .error (.undefined name)

/-- Removes a name, or reports that no level binds it. -/
def delete (s : Store) (id : LevelId) (name : Token) : Except RuntimeFault Store :=
  match s.remove id name.lexeme with
  | some s' => .ok s'
  | none => .error (.undefined name)

end Store

end PocketScript
