import PocketScript.Text.Glyph

/-!
# Places in a settings file

Settings are written in YAML, whose structure is carried by indentation. A
reader therefore has to know the column it stands in, and for a key that is
only recognised by the colon after it, the line and the distance too.

A `Spot` is what is left to read together with where it starts. Five
characters end a line; a carriage return right before a line feed belongs to
it. The number zero stands for the end of the text, which is possible because
a readable text does not contain that character.

A file is taken in through a window. When fewer characters are left in it than
the reading has to look at, the window is moved up to where the reading stands
and another piece of the file is taken in. This shows in two ways. Characters
that may not occur in a file are only found when they are taken in, so a file
may have them if they come late enough after what is read of it. And while a
window starts with a byte order mark, the first character of every line is
passed over, as if the mark stood there.

## Main definitions

* `Spot`: What is left to read, and where it starts.
* `Spot.need`: Taking in enough of the file.
* `Spot.open?`: The start of a file.
* `Reading`: Reading something from a spot on.
* `Gap`: Blanks and line ends between two words.
* `Gap.folded`: What a gap stands for inside a scalar.
-/

namespace PocketScript.Yaml

/-- The code point of a character. -/
def code (c : Char) : Rune := c.toNat

/-- The code point of the double quote. -/
def quote : Rune := 34

/-- The code point of the apostrophe, which is the single quote. -/
def apostrophe : Rune := 39

/-- The code point of the backslash. -/
def backslash : Rune := 92

/-- Stands for the end of the text where a character is asked for. -/
def finish : Rune := 0

/-- A character that ends a line. -/
def isBreak (r : Rune) : Bool :=
  r == 10 || r == 13 || r == 0x85 || r == 0x2028 || r == 0x2029

/-- A space or a tab. -/
def isBlank (r : Rune) : Bool := r == 32 || r == 9

/-- A character between two words. -/
def isGap (r : Rune) : Bool := isBlank r || isBreak r

/-- A word ends here. -/
def endsWord (r : Rune) : Bool := isGap r || r == finish

/-- A line ends here. -/
def endsLine (r : Rune) : Bool := isBreak r || r == finish

/-- A decimal digit. -/
def isDigit (r : Rune) : Bool := 48 ≤ r && r ≤ 57

/-- A character of a name. -/
def isNameRune (r : Rune) : Bool :=
  isDigit r || (65 ≤ r && r ≤ 90) || (97 ≤ r && r ≤ 122) || r == code '_' || r == code '-'

/-- The value of a hexadecimal digit. -/
def hexDigit? (r : Rune) : Option Nat :=
  if isDigit r then some (r - 48)
  else if 65 ≤ r && r ≤ 70 then some (r - 55)
  else if 97 ≤ r && r ≤ 102 then some (r - 87)
  else none

/-- Is the code point one of the characters of a string? -/
def isOneOf (s : String) (r : Rune) : Bool := s.toList.any fun c => c.toNat == r

/-! ## The characters of a file -/

/-- A character that may occur in a file: no control characters but tabs and
    line ends. -/
def isReadable (r : Rune) : Bool :=
  r == 9 || r == 10 || r == 13 || (0x20 ≤ r && r ≤ 0x7E) || r == 0x85 ||
    (0xA0 ≤ r && r ≤ 0xD7FF) || (0xE000 ≤ r && r ≤ 0xFFFD) || (0x10000 ≤ r && r ≤ 0x10FFFF)

/-- Stands for bytes that spell no character. -/
def unreadable : Rune := 0x110000

/-- The mark that files may start with. -/
def orderMark : Rune := 0xFEFF

/-- The 16-bit units of a text, given how two bytes make one. A byte that is
    left over makes what cannot be read. -/
def units (unit : UInt8 → UInt8 → Nat) : Text → List Nat
  | [] => []
  | [_] => [unreadable]
  | a :: b :: rest => unit a b :: units unit rest

/-- The code points of a list of 16-bit units. -/
def ofUnits : List Nat → List Rune
  | [] => []
  | [u] => if 0xD800 ≤ u ∧ u < 0xE000 then [unreadable] else [u]
  | u :: v :: rest =>
    if 0xD800 ≤ u ∧ u < 0xDC00 ∧ 0xDC00 ≤ v ∧ v < 0xE000 then
      (0x10000 + (u - 0xD800) * 1024 + (v - 0xDC00)) :: ofUnits rest
    else if 0xD800 ≤ u ∧ u < 0xE000 then unreadable :: ofUnits (v :: rest)
    else u :: ofUnits (v :: rest)

/-- The code points of a text. -/
def ofBytes (t : Text) : List Rune := t.glyphs.map fun g => if g.isBroken then unreadable else g.code

/-- The code points of a file, and the bytes of a mark at its start, which
    tells the encoding and is dropped. -/
def decode : Text → Nat × List Rune
  | 0xFF :: 0xFE :: rest => (2, ofUnits (units (fun a b => a.toNat + 256 * b.toNat) rest))
  | 0xFE :: 0xFF :: rest => (2, ofUnits (units (fun a b => 256 * a.toNat + b.toNat) rest))
  | 0xEF :: 0xBB :: 0xBF :: rest => (3, ofBytes rest)
  | t => (0, ofBytes t)

/-! ## Spots -/

/-- What is left to read, and where it starts: how many characters come
    before, the line and the column, each counted from zero. Of the characters
    that are left, the window holds the first few, the end of the text
    included each time that it was asked for. -/
structure Spot where
  rest : List Rune
  /-- The number of characters of the file. -/
  size : Nat
  index : Nat := 0
  line : Nat := 0
  column : Nat := 0
  held : Nat := 0
  /-- Does the window start with a byte order mark? -/
  isMarked : Bool := false
deriving Repr

namespace Spot

/-- The character some way ahead. -/
def peek (n : Nat) (s : Spot) : Rune := s.rest.getD n finish

/-- The next character. -/
def next (s : Spot) : Rune := s.peek 0

/-- Is nothing left? -/
def isDone (s : Spot) : Bool := s.rest.isEmpty

/-- The most bytes that are taken in at a time. -/
def piece : Nat := 512

/-- How many characters at the start of a list take at most `room` bytes. -/
def fitting : (room : Nat) → List Rune → Nat
  | _, [] => 0
  | room, r :: rs =>
    if r.encode.length ≤ room then fitting (room - r.encode.length) rs + 1 else 0

/-- Takes in pieces until `n` characters are held. The end of the text is
    taken in once. -/
def takeIn (n : Nat) : (fuel : Nat) → (room held : Nat) → List Rune → Option Nat
  | 0, _, held, _ => some held
  | k + 1, room, held, more =>
    if n ≤ held then some held
    else if more.isEmpty then some (held + 1)
    else
      let size := fitting room more
      if (more.take size).all isReadable then takeIn n k piece (held + size) (more.drop size)
      else none

/-- Makes sure that `n` characters are held, by moving the window if there are
    less. -/
def need (n : Nat) (s : Spot) : Option Spot :=
  if n ≤ s.held then some s
  else (takeIn n n piece s.held (s.rest.drop s.held)).map fun held =>
    { s with held := held, isMarked := s.next == orderMark }

/-- The start of a file. Its first piece includes the mark that tells the
    encoding. -/
def open? (t : Text) : Option Spot :=
  let (used, rs) := decode t
  (takeIn 1 2 (piece - used) 0 rs).map fun held =>
    { rest := rs, size := rs.length, held := held, isMarked := rs.head? == some orderMark }

/-- Passes over characters of one line. -/
def skip (n : Nat) (s : Spot) : Spot :=
  { s with
    rest := s.rest.drop n
    index := s.index + n
    column := s.column + n
    held := s.held - n }

/-- The spot at the start of the next line, whose end takes `n`
    characters. -/
def nextLine (n : Nat) (s : Spot) : Spot := { s.skip n with line := s.line + 1, column := 0 }

/-- Reads the end of a line and tells what it stands for: itself if it
    separates lines or paragraphs, and a line feed otherwise. Elsewhere there
    is nothing to read. -/
def takeBreak (s : Spot) : List Rune × Spot :=
  match s.rest with
  | 13 :: 10 :: _ => ([10], s.nextLine 2)
  | r :: _ =>
    if r = 0x2028 ∨ r = 0x2029 then ([r], s.nextLine 1)
    else if isBreak r then ([10], s.nextLine 1)
    else ([], s)
  | [] => ([], s)

/-- Do three dashes or three dots that bound a document stand here? -/
def atDocumentMark (s : Spot) : Bool :=
  let three (r : Rune) : Bool := s.next == r && s.peek 1 == r && s.peek 2 == r
  s.column == 0 && (three (code '-') || three (code '.')) && endsWord (s.peek 3)

end Spot

/-! ## Reading -/

/-- Reading something from a spot on, which can fail. -/
abbrev Reading := StateT Spot Option

namespace Reading

/-- The next character. -/
def next : Reading Rune := return (← get).next

/-- The character some way ahead. -/
def peek (n : Nat) : Reading Rune := return (← get).peek n

/-- More steps than any loop over what is left can take. -/
def fuel : Reading Nat := return (← get).size + 1

/-- Makes sure that `n` characters can be looked at. -/
def need (n : Nat) : Reading Unit := fun s => (s.need n).map fun t => ((), t)

/-- Passes over characters of one line. -/
def skip (n : Nat) : Reading Unit := modify (Spot.skip n)

/-- Reads the end of a line. -/
def takeBreak : Reading (List Rune) := do
  need 2
  modifyGet Spot.takeBreak

/-- Reads on for as long as the characters satisfy `p`, after those that have
    been read, the newest first. -/
def spanFrom (p : Rune → Bool) : (fuel : Nat) → List Rune → Reading (List Rune)
  | 0, run => return run.reverse
  | n + 1, run => do
    let r ← next
    if p r then
      skip 1
      need 1
      spanFrom p n (r :: run)
    else return run.reverse

/-- Reads the characters of one line for as long as they satisfy `p`. -/
def span (p : Rune → Bool) : Reading (List Rune) := do
  need 1
  spanFrom p (← fuel) []

/-- Passes over the characters of one line for as long as they satisfy
    `p`. -/
def skipWhile (p : Rune → Bool) : Reading Unit := do
  let _ ← span p

/-- Passes over the rest of the line. -/
def skipLine : Reading Unit := skipWhile fun r => !endsLine r

/-- Passes over blanks and a comment, up to the end of the line, and over
    that. Nothing else may stand there. -/
def finishLine : Reading Unit := do
  skipWhile isBlank
  if (← next) = code '#' then skipLine
  if !endsLine (← next) then failure
  if isBreak (← next) then
    let _ ← takeBreak

end Reading

/-! ## Gaps -/

/-- Blanks and line ends between two words: the blanks before the first line
    end, whether there is one, what it stands for, and what the others stand
    for. -/
structure Gap where
  blanks : List Rune := []
  isBroken : Bool := false
  firstBreak : List Rune := []
  moreBreaks : List Rune := []
deriving Repr

namespace Gap

/-- What a gap stands for inside a scalar. Blanks stand for themselves, a
    single line end for a space, and of several the first is dropped. -/
def folded (g : Gap) : List Rune :=
  if !g.isBroken then g.blanks
  else if g.firstBreak = [10] then (if g.moreBreaks.isEmpty then [32] else g.moreBreaks)
  else g.firstBreak ++ g.moreBreaks

/-- The gap with one more line end. -/
def addBreak (b : List Rune) (g : Gap) : Gap :=
  if g.isBroken then { g with moreBreaks := g.moreBreaks ++ b }
  else { g with isBroken := true, firstBreak := b }

/-- The gap with one more blank. -/
def addBlank (r : Rune) (g : Gap) : Gap :=
  if g.isBroken then g else { g with blanks := g.blanks ++ [r] }

/-- Reads on in a gap. A tab may not make up the indentation of a line, which
    reaches to column `indent`. -/
def readOn (indent : Nat) : (fuel : Nat) → Gap → Reading Gap
  | 0, g => return g
  | n + 1, g => do
    let s ← get
    if isBlank s.next then
      if g.isBroken && s.column < indent && s.next == 9 then failure
      Reading.skip 1
      Reading.need 1
      readOn indent n (g.addBlank s.next)
    else if isBreak s.next then
      let b ← Reading.takeBreak
      Reading.need 1
      readOn indent n (g.addBreak b)
    else return g

/-- Reads the gap that starts at a spot, or goes on with one. -/
def read (indent : Nat) (g : Gap) : Reading Gap := do
  Reading.need 1
  readOn indent (← Reading.fuel) g

end Gap

end PocketScript.Yaml
