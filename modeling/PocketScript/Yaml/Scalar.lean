import PocketScript.Yaml.Spot

/-!
# Scalars

The texts in a settings file. A plain scalar is a run of words, and what ends
it depends on whether it stands between brackets. A quoted scalar ends at its
quote. In both, gaps between words are folded. A block scalar is a run of
lines of the same indentation, kept as they are or folded.

## Main definitions

* `plain`: A scalar without quotes.
* `quoted`: A scalar in quotes.
* `block`: A scalar of indented lines.
-/

namespace PocketScript.Yaml

open Yaml.Reading (next peek need skip takeBreak span skipWhile fuel)

/-! ## Plain scalars -/

/-- A character that ends a plain scalar between brackets. -/
def isBracketMark (r : Rune) : Bool := isOneOf ",?[]\x7b\x7d" r

/-- Does a word of a plain scalar end here? A colon ends it if nothing follows
    the colon. -/
def endsPlainWord (bracketed : Bool) (s : Spot) : Bool :=
  endsWord s.next || (s.next == code ':' && endsWord (s.peek 1)) ||
    (bracketed && isBracketMark s.next)

/-- Reads a word of a plain scalar, after the characters that have been read,
    the newest first. -/
def plainWord (bracketed : Bool) : (fuel : Nat) → List Rune → Reading (List Rune)
  | 0, word => return word.reverse
  | n + 1, word => do
    let s ← get
    if endsPlainWord bracketed s then return word.reverse
    skip 1
    need 2
    plainWord bracketed n (s.next :: word)

/-- Reads on in a plain scalar, after a gap. -/
def plainFrom (bracketed : Bool) (indent : Nat) :
    (fuel : Nat) → List Rune → Gap → Reading (List Rune × Bool)
  | 0, text, g => return (text, g.isBroken)
  | n + 1, text, g => do
    need 4
    let s ← get
    if s.atDocumentMark || s.next == code '#' then return (text, g.isBroken)
    let word ← plainWord bracketed (← fuel) []
    let (text, g) : List Rune × Gap :=
      if word.isEmpty then (text, g) else (text ++ g.folded ++ word, {})
    if !isGap (← next) then return (text, g.isBroken)
    let g ← Gap.read indent g
    if !bracketed && (← get).column < indent then return (text, g.isBroken)
    plainFrom bracketed indent n text g

/-- Reads a plain scalar, whose further lines are indented to column `indent`.
    Besides its text it is told whether a line ended after it. -/
def plain (bracketed : Bool) (indent : Nat) : Reading (List Rune × Bool) := do
  plainFrom bracketed indent (← fuel) [] {}

/-! ## Quoted scalars -/

/-- What a character after a backslash means: a character, or the number of
    hexadecimal digits that follow. -/
inductive Escape where
  | rune (r : Rune)
  | digits (count : Nat)
deriving Repr

/-- What a character after a backslash means. -/
def Escape.of? (r : Rune) : Option Escape :=
  if r = quote ∨ r = apostrophe ∨ r = backslash ∨ r = 32 ∨ r = 9 then some (.rune r)
  else if r = code '0' then some (.rune 0)
  else if r = code 'a' then some (.rune 7)
  else if r = code 'b' then some (.rune 8)
  else if r = code 't' then some (.rune 9)
  else if r = code 'n' then some (.rune 10)
  else if r = code 'v' then some (.rune 11)
  else if r = code 'f' then some (.rune 12)
  else if r = code 'r' then some (.rune 13)
  else if r = code 'e' then some (.rune 27)
  else if r = code 'N' then some (.rune 0x85)
  else if r = code '_' then some (.rune 0xA0)
  else if r = code 'L' then some (.rune 0x2028)
  else if r = code 'P' then some (.rune 0x2029)
  else if r = code 'x' then some (.digits 2)
  else if r = code 'u' then some (.digits 4)
  else if r = code 'U' then some (.digits 8)
  else none

/-- The code point that hexadecimal digits name. -/
def hexRune? (ds : List Rune) : Option Rune :=
  let value := ds.foldl (fun n r => n.bind fun n => (hexDigit? r).map (16 * n + ·)) (some 0)
  value.filter Rune.isScalar

/-- Reads the character that a backslash and what follows it stand for. -/
def escaped : Reading Rune := do
  match Escape.of? (← peek 1) with
  | none => failure
  | some (.rune r) =>
    skip 2
    return r
  | some (.digits count) =>
    skip 2
    need count
    let ds := (← get).rest.take count
    if ds.length < count then failure
    match hexRune? ds with
    | none => failure
    | some r =>
      skip count
      return r

/-- Reads the characters of a quoted scalar up to a gap, its end, or a line
    end behind a backslash, and tells if it was the last of these. -/
def quotedWord (mark : Rune) : (fuel : Nat) → List Rune → Reading (List Rune × Bool)
  | 0, text => return (text, false)
  | n + 1, text => do
    let s ← get
    if endsWord s.next then return (text, false)
    else if s.next = mark then
      if mark = apostrophe ∧ s.peek 1 = apostrophe then
        skip 2
        need 2
        quotedWord mark n (text ++ [apostrophe])
      else return (text, false)
    else if mark = quote ∧ s.next = backslash then
      if isBreak (s.peek 1) then
        need 3
        skip 1
        let _ ← takeBreak
        return (text, true)
      let r ← escaped
      need 2
      quotedWord mark n (text ++ [r])
    else
      skip 1
      need 2
      quotedWord mark n (text ++ [s.next])

/-- Reads on in a quoted scalar. -/
def quotedFrom (mark : Rune) : (fuel : Nat) → List Rune → Reading (List Rune)
  | 0, _ => failure
  | n + 1, text => do
    need 4
    let s ← get
    if s.atDocumentMark || s.isDone then failure
    let (text, joined) ← quotedWord mark (← fuel) text
    need 1
    if (← next) = mark then
      skip 1
      return text
    let g ← Gap.read 0 { isBroken := joined }
    quotedFrom mark n (text ++ g.folded)

/-- Reads a quoted scalar, which starts at its quote. -/
def quoted : Reading (List Rune) := do
  let mark ← next
  skip 1
  quotedFrom mark ((← fuel) + 1) []

/-! ## Block scalars -/

/-- What becomes of the line ends after the last line of a block scalar. -/
inductive Chomp where
  /-- None is kept. -/
  | strip
  /-- One is kept. -/
  | clip
  /-- All are kept. -/
  | keep
deriving Repr, DecidableEq

/-- What a sign tells about the last line ends. -/
def Chomp.of? (r : Rune) : Option Chomp :=
  if r = code '+' then some .keep else if r = code '-' then some .strip else none

/-- Reads a sign that tells what becomes of the last line ends. -/
def chompSign : Reading (Option Chomp) := do
  need 1
  let chomp := Chomp.of? (← next)
  if chomp.isSome then skip 1
  return chomp

/-- Reads a digit that tells the indentation, which may be missing and then
    counts as zero. A digit zero is refused. -/
def indentDigit : Reading Nat := do
  need 1
  let r ← next
  if r = code '0' then failure
  else if isDigit r then
    skip 1
    return r - 48
  else return 0

/-- Reads the first line of a block scalar after its mark: sign and digit in
    either order, and perhaps a comment. -/
def blockHeader : Reading (Chomp × Nat) := do
  let before ← chompSign
  let indent ← indentDigit
  let chomp ← match before with
    | some chomp => pure chomp
    | none => if indent = 0 then pure Chomp.clip else return ((← chompSign).getD .clip, indent)
  return (chomp, indent)

/-- Reads the indentation of a line, after any number of empty lines: what
    these stand for, and the widest indentation seen. While the indentation is
    not known it is zero. A tab may not be part of it. -/
def blockGap (indent : Nat) : (fuel : Nat) → (widest : Nat) → List Rune → Reading (List Rune × Nat)
  | 0, widest, breaks => return (breaks, widest)
  | n + 1, widest, breaks => do
    need 1
    let all ← fuel
    let room := indent - (← get).column
    let _ ← Reading.spanFrom (· == 32) (if indent = 0 then all else room) []
    let s ← get
    let widest := max widest s.column
    if (indent = 0 ∨ s.column < indent) ∧ s.next = 9 then failure
    if isBreak s.next then
      let b ← takeBreak
      blockGap indent n widest (breaks ++ b)
    else return (breaks, widest)

/-- The lines of a block scalar so far: the text, the end of the last line,
    the empty lines after it, and whether it started with a blank. -/
structure Block where
  text : List Rune := []
  lastBreak : List Rune := []
  moreBreaks : List Rune := []
  wasBlank : Bool := false

/-- The block with one more line. In a folded block a line end between two
    lines that start with no blank is folded. -/
def Block.addLine (literal startsBlank : Bool) (line : List Rune) (b : Block) : List Rune :=
  let joint :=
    if !literal && !b.wasBlank && !startsBlank && b.lastBreak == [10] then
      (if b.moreBreaks.isEmpty then [32] else [])
    else b.lastBreak
  b.text ++ joint ++ b.moreBreaks ++ line

/-- Reads the lines of a block scalar. -/
def blockLines (literal : Bool) (indent : Nat) : (fuel : Nat) → Block → Reading Block
  | 0, b => return b
  | n + 1, b => do
    let s ← get
    if s.column = indent ∧ ¬ s.isDone then
      let startsBlank := isBlank s.next
      let line ← span fun r => !endsLine r
      let lastBreak ← takeBreak
      let (moreBreaks, _) ← blockGap indent (← fuel) 0 []
      blockLines literal indent n
        ⟨b.addLine literal startsBlank line, lastBreak, moreBreaks, startsBlank⟩
    else return b

/-- Reads a block scalar, which starts at its mark, below the indentation
    `outer`. The first line with a character in it gives the indentation if
    the header does not. -/
def block (outer : Int) : Reading (List Rune) := do
  let literal := (← next) == code '|'
  skip 1
  let (chomp, increment) ← blockHeader
  Reading.finishLine
  let given := if increment = 0 then 0 else (max outer 0).toNat + increment
  let (breaks, widest) ← blockGap given (← fuel) 0 []
  let indent := if given = 0 then max (max widest (outer + 1).toNat) 1 else given
  let b ← blockLines literal indent (← fuel) { moreBreaks := breaks }
  let tail := match chomp with
    | .strip => []
    | .clip => b.lastBreak
    | .keep => b.lastBreak ++ b.moreBreaks
  return b.text ++ tail

end PocketScript.Yaml
