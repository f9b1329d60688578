import PocketScript.Token.Scan

/-!
# Unfinished input

When a prompt should ask for another line before running anything: the input
stops inside a string, or more brackets are open than closed.

## Main definitions

* `bracketDepth`: How many brackets a list of tokens leaves open.
* `isUnfinished`: Does an input need more lines?
-/

namespace PocketScript

/-- What a token adds to the number of open brackets. -/
def Kind.bracket : Kind → Int
  | .leftParen => 1
  | .leftBrace => 1
  | .rightParen => -1
  | .rightBrace => -1
  | _ => 0

/-- How many brackets a list of tokens leaves open, negative if it closes too
    many. -/
def bracketDepth (ts : List Token) : Int := ts.foldl (fun n t => n + t.kind.bracket) 0

/-- Does an input need more lines? -/
def isUnfinished (source : Text) : Bool :=
  match Token.scan source with
  | .error e => e.cause == .unterminatedString
  | .ok ts => 0 < bracketDepth ts

end PocketScript
