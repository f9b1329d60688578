import PocketScript.Text.Glyph

/-!
# Ranges of code points

The classes of Unicode are long lists of code points that come in runs, so a
class is kept as a sorted list of runs and searched from its start. The
search stops at the first run that begins past the code point, which makes it
short for the characters scripts are mostly written in.

## Main definitions

* `Range`: First and last code point of a run.
* `Range.contains`: Is the code point in one of the runs?
-/

namespace PocketScript

/-- First and last code point of a run. -/
abbrev Range := Rune × Rune

/-- Is the code point in one of the runs, which are sorted? -/
def Range.contains : List Range → Rune → Bool
  | [], _ => false
  | (lo, hi) :: more, r => if r < lo then false else if r ≤ hi then true else contains more r

end PocketScript
