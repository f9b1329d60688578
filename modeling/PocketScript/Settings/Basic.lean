import PocketScript.Text.Basic

/-!
# Settings

What a user can choose about the tools.

## Main definitions

* `Settings`: The choices.
* `Settings.standard`: What holds where nothing is chosen.
-/

namespace PocketScript

/-- What a user can choose about the tools. -/
structure Settings where
  /-- The file that keeps typed lines, or nothing to keep none. -/
  historyFile : Text := "~/.chonk_history"
  /-- What asks for a new input. -/
  prompt : Text := ">> "
  /-- What asks for the rest of an input. -/
  continuation : Text := ".. "
  /-- Is the full screen taken? -/
  fullScreen : Bool := false
  /-- Are runs logged? -/
  verbose : Bool := false
deriving Repr, DecidableEq, Inhabited

/-- What holds where nothing is chosen. -/
def Settings.standard : Settings := {}

end PocketScript
