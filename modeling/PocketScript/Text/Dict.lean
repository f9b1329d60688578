import PocketScript.Text.Basic

/-!
# Dictionaries

Finite maps from texts, kept as lists in strictly increasing byte order of
their names. Every listing of names is in that order, so it is part of the
representation.

## Main definitions

* `Text.Dict`: Names with what they stand for.
* `Text.Dict.find?`, `Text.Dict.insert`, `Text.Dict.erase`: The operations.
* `Text.Dict.names`: The names in byte order.
-/

namespace PocketScript.Text

/-- Names with what they stand for, strictly increasing in byte order. -/
abbrev Dict (α : Type) := List (Text × α)

namespace Dict

variable {α : Type}

/-- What a name stands for. -/
def find? (name : Text) (d : Dict α) : Option α := d.lookup name

/-- Adds a name, replacing what it stood for. -/
def insert (name : Text) (a : α) : Dict α → Dict α
  | [] => [(name, a)]
  | (n, b) :: rest =>
    if name = n then (name, a) :: rest
    else if Text.le name n then (name, a) :: (n, b) :: rest
    else (n, b) :: insert name a rest

/-- Removes a name. -/
def erase (name : Text) (d : Dict α) : Dict α := d.filter fun entry => entry.1 != name

/-- The names in byte order. -/
def names (d : Dict α) : List Text := d.map Prod.fst

end Dict

end PocketScript.Text
