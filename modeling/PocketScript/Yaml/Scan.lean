import PocketScript.Yaml.Scalar
import PocketScript.Yaml.Token

/-!
# From characters to tokens

Outside brackets the structure of a settings file lies in its indentation.
Reading keeps the columns of the open collections and closes those that a
line is indented less than.

A key is only recognised by the colon after it. Where one could start, its
place is remembered, and when the colon comes, the token that opens the key
is put in at that place, together with the start of a mapping if the key is
indented more than what surrounds it. The colon has to come on the same line
and within 1024 characters. A line of a mapping that turns out to hold no key
is refused.

Tokens are read when they are asked for. One is handed out when the two after
it have been read and it cannot turn out to be a key. An empty pair of
brackets is not waited for, so a colon can come after it has been handed out;
the tokens that should have been put in before it are then put in last. As
only the first document of a file is asked for, a file is refused for what
cannot be read in it only if that comes soon enough after the first document.

## Main definitions

* `PossibleKey`: A place where a key may have started.
* `Scanner`: The state of reading.
* `Scanner.step`: Reading a token.
* `Scanner.ready?`: Reading until a token can be handed out.
-/

namespace PocketScript.Yaml

/-- A place where a key may have started: the number of tokens before it, the
    index, line and column, and whether nothing but a key can stand there. If
    there is no such place, `isPossible` is false. -/
structure PossibleKey where
  place : Nat := 0
  index : Nat := 0
  line : Nat := 0
  column : Nat := 0
  isRequired : Bool := false
  isPossible : Bool := false
deriving Repr

/-- Has the reading gone too far for the colon after a key? -/
def PossibleKey.isPast (s : Spot) (k : PossibleKey) : Bool :=
  k.line < s.line || k.index + 1024 < s.index

/-- Can a key still turn up? If one has to and it is too late for it, the file
    is refused. -/
def PossibleKey.isAwaited? (s : Spot) (k : PossibleKey) : Option Bool :=
  if !k.isPossible then some false
  else if !k.isPast s then some true
  else if k.isRequired then none
  else some false

/-- The state of reading. -/
structure Scanner where
  spot : Spot
  /-- The tokens that have been read and not handed out. -/
  queue : List Token := []
  /-- The number of tokens that have been handed out. -/
  taken : Nat := 0
  /-- The column of the innermost open collection, or minus one. -/
  indent : Int := -1
  /-- The columns around it, innermost first. -/
  indents : List Int := []
  /-- The place where a key may have started between the innermost
      brackets. -/
  possible : PossibleKey := {}
  /-- The same for what surrounds each open bracket, innermost first. -/
  around : List PossibleKey := []
  /-- The places whose tokens are not handed out for now, each with the number
      of brackets around it. -/
  awaited : List (Nat × Nat) := []
  /-- May a key start here? -/
  keyAllowed : Bool := true

namespace Scanner

/-- Does the reading stand between brackets? -/
def isBracketed (s : Scanner) : Bool := !s.around.isEmpty

/-- The place of the next token that is read. -/
def place (s : Scanner) : Nat := s.taken + s.queue.length

/-- The most collections and the most brackets in each other. -/
def deepest : Nat := 10000

/-- Adds a token. -/
def push (t : Token) (s : Scanner) : Scanner := { s with queue := s.queue ++ [t] }

/-- Puts a token in at a place, or adds it if the place has been handed
    out. -/
def insert (place : Nat) (t : Token) (s : Scanner) : Scanner :=
  if place < s.taken then s.push t
  else
    let before := place - s.taken
    { s with queue := s.queue.take before ++ t :: s.queue.drop before }

/-- The number of collections that a column closes, and the columns that
    stay. -/
def dedent (column : Int) : Int → List Int → Nat × Int × List Int
  | indent, [] => (0, indent, [])
  | indent, outer :: more =>
    if column < indent then
      let (n, kept) := dedent column outer more
      (n + 1, kept)
    else (0, indent, outer :: more)

/-- Closes the collections that are indented more than a column. Between
    brackets indentation means nothing. -/
def unroll (column : Int) (s : Scanner) : Scanner :=
  if s.isBracketed then s
  else
    let (n, indent, indents) := dedent column s.indent s.indents
    { s with queue := s.queue ++ List.replicate n .blockEnd, indent := indent, indents := indents }

/-- Opens a collection at a column if none is open there, with its token at a
    place. -/
def roll (column place : Nat) (t : Token) (s : Scanner) : Option Scanner :=
  if s.isBracketed ∨ (column : Int) ≤ s.indent then some s
  else if deepest ≤ s.indents.length then none
  else some ({ s with indent := column, indents := s.indent :: s.indents }.insert place t)

/-- Hands out the token at a place without regard to keys. -/
def release (place : Nat) (s : Scanner) : Scanner :=
  { s with awaited := s.awaited.filter fun (p, _) => p != place }

/-- Takes back that a key may have started. -/
def forgetKey (s : Scanner) : Scanner :=
  { s with possible := { s.possible with isPossible := false } }

/-- Gives up on the place where a key may have started. -/
def dropKey (s : Scanner) : Option Scanner :=
  if !s.possible.isPossible then some s
  else if s.possible.isRequired then none
  else some (s.forgetKey.release s.possible.place)

/-- Remembers that a key may start here. -/
def saveKey (s : Scanner) : Option Scanner :=
  if s.keyAllowed then
    s.dropKey.map fun t =>
      { t.release s.place with
        possible :=
          { place := s.place
            index := s.spot.index
            line := s.spot.line
            column := s.spot.column
            isRequired := !s.isBracketed && s.indent == s.spot.column
            isPossible := true }
        awaited := (s.place, s.around.length) :: (t.release s.place).awaited }
  else some s

/-- Passes over characters of one line. -/
def skip (n : Nat) (s : Scanner) : Scanner := { s with spot := s.spot.skip n }

/-- Sets whether a key may start. -/
def allow (allowed : Bool) (s : Scanner) : Scanner := { s with keyAllowed := allowed }

/-- Reads something. -/
def read {α : Type} (reading : Reading α) (s : Scanner) : Option (α × Scanner) :=
  (reading.run s.spot).map fun (a, spot) => (a, { s with spot := spot })

/-! ## Between tokens -/

open Yaml.Reading (next need takeBreak skipWhile skipLine fuel)

/-- The farthest that comments are looked for. -/
def farthest : Nat := 512

/-- How far the next comment is, counting from `start`, if only blanks and
    line ends of one byte come before it. The search ends with the first
    other character, which is taken in, together with the one after it if it
    is a line end too. -/
def nextComment? (start : Nat) : Reading (Option Nat) := do
  let isGapByte (r : Rune) : Bool := isBlank r || r == 10 || r == 13
  let before := (← get).rest.take start
  if before.any fun r => !isGapByte r then
    need (start + 1)
    return none
  let ahead := (← get).rest.drop start
  let distance := start + (ahead.takeWhile isGapByte).length
  if farthest ≤ distance then
    need farthest
    return none
  let r ← Reading.peek distance
  need (if isBreak r then min (distance + 2) farthest else distance + 1)
  return if r = code '#' then some distance else none

/-- Passes over blanks and line ends, up to an index. -/
def skipBetween : (fuel : Nat) → (index : Nat) → Reading Unit
  | 0, _ => return
  | n + 1, index => do
    if (← get).index < index then
      need 1
      if isBreak (← next) then
        let _ ← takeBreak
      else Reading.skip 1
      skipBetween n index

/-- Passes over comments, from the mark of one to the end of the line of the
    last that follows with nothing between them. -/
def skipComments : (fuel : Nat) → (start : Nat) → Reading Unit
  | 0, _ => return
  | n + 1, start => do
    match ← nextComment? start with
    | none => return
    | some distance =>
      skipBetween (distance + 1) ((← get).index + distance)
      skipLine
      skipComments n 1

/-- Passes over what stands between two tokens, and tells whether a key may
    start after it. Where one may, a tab is not passed over. A new line lets a
    key start, unless it is between brackets. -/
def skipGap (bracketed : Bool) : (fuel : Nat) → (allowed : Bool) → Reading Bool
  | 0, allowed => return allowed
  | n + 1, allowed => do
    need 1
    let s ← get
    if s.column = 0 ∧ s.isMarked then Reading.skip 1
    skipWhile fun r => r == 32 || (r == 9 && (bracketed || !allowed))
    if (← next) = code '#' then skipComments (← fuel) 0
    if isBreak (← next) then
      let _ ← takeBreak
      skipGap bracketed n (allowed || !bracketed)
    else return allowed

/-- Passes over a comment that ends the line of a token. -/
def skipRemark : Reading Unit := do
  let blanks := ((← get).rest.takeWhile isBlank).length
  if farthest ≤ blanks then need farthest
  else
    need (blanks + 1)
    if (← Reading.peek blanks) = code '#' then skipLine

/-! ## Tokens -/

/-- Ends the file, which also ends its last line. -/
def close (s : Scanner) : Option Scanner :=
  let spot := if s.spot.column = 0 then s.spot
    else { s.spot with column := 0, line := s.spot.line + 1 }
  let s : Scanner := { s with spot := spot }
  (s.unroll (-1)).dropKey.map fun s => (s.allow false).push .streamEnd

/-- Reads a directive. -/
def directive (s : Scanner) : Option Scanner := do
  let s ← (s.unroll (-1)).dropKey
  let (t, s) ← s.read Yaml.directive
  some ((s.allow false).push t)

/-- Reads a mark that bounds a document. -/
def documentMark (t : Token) (s : Scanner) : Option Scanner :=
  (s.unroll (-1)).dropKey.map fun s => ((s.allow false).skip 3).push t

/-- Opens a bracket. -/
def openBracket (t : Token) (s : Scanner) : Option Scanner := do
  let s ← s.saveKey
  if deepest ≤ s.around.length then none
  let s := { s with around := s.possible :: s.around, possible := { place := s.place } }
  some (((s.allow true).skip 1).push t)

/-- Closes a bracket. The token at the place of the last key between the
    brackets is waited for no more; if there was none, this is the opening
    bracket itself. -/
def closeBracket (t : Token) (s : Scanner) : Option Scanner :=
  s.dropKey.map fun s =>
    let s := match s.around with
      | [] => s
      | k :: more => { s.release s.possible.place with possible := k, around := more }
    ((s.allow false).skip 1).push t

/-- Reads the comma between the entries of a bracket. -/
def comma (s : Scanner) : Option Scanner :=
  s.dropKey.map fun s => ((s.allow true).skip 1).push .flowEntry

/-- Reads the dash before an entry. -/
def entry (s : Scanner) : Option Scanner := do
  if !s.isBracketed && !s.keyAllowed then none
  let s ← s.roll s.spot.column s.place .blockSequenceStart
  let s ← s.dropKey
  some (((s.allow true).skip 1).push .blockEntry)

/-- Reads the mark of a key that is not recognised by its colon. -/
def keyMark (s : Scanner) : Option Scanner := do
  if !s.isBracketed && !s.keyAllowed then none
  let s ← s.roll s.spot.column s.place .blockMappingStart
  let s ← s.dropKey
  some (((s.allow (!s.isBracketed)).skip 1).push .key)

/-- Reads a colon that follows no key on its line. -/
def bareColon (s : Scanner) : Option Scanner := do
  if !s.isBracketed && !s.keyAllowed then none
  let s ← s.roll s.spot.column s.place .blockMappingStart
  some (((s.allow (!s.isBracketed)).skip 1).push .value)

/-- Reads the colon before a value. -/
def colon (s : Scanner) : Option Scanner := do
  let k := s.possible
  if ← k.isAwaited? s.spot then
    let s ← (s.insert k.place .key).roll k.column k.place .blockMappingStart
    some ((((s.forgetKey.release k.place).allow false).skip 1).push .value)
  else s.forgetKey.bareColon

/-- Reads an anchor or an alias. -/
def label (make : Text → Token) (s : Scanner) : Option Scanner := do
  let (name, s) ← (← s.saveKey).read Yaml.label
  some ((s.allow false).push (make name))

/-- Reads a tag. -/
def tag (s : Scanner) : Option Scanner := do
  let (t, s) ← (← s.saveKey).read Yaml.tag
  some ((s.allow false).push t)

/-- Reads a block scalar. -/
def blockScalar (s : Scanner) : Option Scanner := do
  let (text, s) ← (← s.dropKey).read (block s.indent)
  some ((s.allow true).push (.scalar (Text.ofRunes text) false))

/-- Reads a quoted scalar. -/
def quotedScalar (s : Scanner) : Option Scanner := do
  let (text, s) ← (← s.saveKey).read quoted
  some ((s.allow false).push (.scalar (Text.ofRunes text) false))

/-- Passes over a comment after a token. -/
def remarked (s : Scanner) : Option Scanner := do
  let ((), s) ← s.read skipRemark
  some s

/-- Reads a plain scalar. A key may start after it if a line ended there. -/
def plainScalar (s : Scanner) : Option Scanner := do
  let ((text, lineEnded), s) ← (← s.saveKey).read (plain s.isBracketed (s.indent + 1).toNat)
  let s := (s.allow lineEnded).push (.scalar (Text.ofRunes text) true)
  if lineEnded then some s else s.remarked

/-- May a plain scalar start here? A dash, a question mark or a colon starts
    one only if something follows it. -/
def startsPlain (s : Scanner) : Bool :=
  let r := s.spot.next
  if r == code '-' then !isBlank (s.spot.peek 1)
  else if r == code '?' || r == code ':' then !s.isBracketed && !endsWord (s.spot.peek 1)
  else !(endsWord r || r == quote || r == apostrophe || isOneOf ",[]\x7b\x7d#&*!|>%@`" r)

/-- Reads a token that starts right here. -/
def token (s : Scanner) : Option Scanner :=
  let r := s.spot.next
  let stands := s.isBracketed || endsWord (s.spot.peek 1)
  if s.spot.isDone then s.close
  else if s.spot.column = 0 ∧ r = code '%' then s.directive
  else if s.spot.atDocumentMark then
    s.documentMark (if r = code '-' then .documentStart else .documentEnd)
  else if r = code '[' then (s.openBracket .flowSequenceStart).bind remarked
  else if r = 0x7B then (s.openBracket .flowMappingStart).bind remarked
  else if r = code ']' then (s.closeBracket .flowSequenceEnd).bind remarked
  else if r = 0x7D then (s.closeBracket .flowMappingEnd).bind remarked
  else if r = code ',' then s.comma.bind remarked
  else if r = code '-' ∧ endsWord (s.spot.peek 1) then s.entry
  else if r = code '?' ∧ stands then s.keyMark.bind remarked
  else if r = code ':' ∧ stands then s.colon.bind remarked
  else if r = code '*' then (s.label .alias).bind remarked
  else if r = code '&' then (s.label .anchor).bind remarked
  else if r = code '!' then s.tag.bind remarked
  else if (r = code '|' ∨ r = code '>') ∧ ¬ s.isBracketed then s.blockScalar
  else if r = apostrophe ∨ r = quote then s.quotedScalar.bind remarked
  else if s.startsPlain then s.plainScalar
  else none

/-- Reads the next token, and before it the ends of the collections that its
    column closes. -/
def step (s : Scanner) : Option Scanner := do
  let gap : Reading Bool := do skipGap s.isBracketed (← fuel) s.keyAllowed
  let (allowed, s) ← s.read gap
  let s := { s with keyAllowed := allowed }.unroll s.spot.column
  let ((), s) ← s.read (need 4)
  s.token

/-! ## Handing out -/

/-- The place where a key may have started inside the given number of
    brackets. -/
def possibleAt? (depth : Nat) (s : Scanner) : Option PossibleKey :=
  (s.possible :: s.around).reverse[depth]?

/-- Can the first token be handed out? -/
def isReady? (s : Scanner) : Option Bool :=
  if s.queue.length ≤ 2 then some false
  else match (s.awaited.lookup s.taken).bind s.possibleAt? with
    | none => some true
    | some k => (k.isAwaited? s.spot).map (!·)

/-- Reads tokens until the first can be handed out. -/
def readyAfter? : (fuel : Nat) → Scanner → Option Scanner
  | 0, _ => none
  | n + 1, s =>
    match s.isReady? with
    | none => none
    | some true => some s
    | some false => s.step.bind (readyAfter? n)

/-- Reads tokens until the first can be handed out. Every token takes at least
    one character, and at the end there are as many as are asked for. -/
def ready? (s : Scanner) : Option Scanner := readyAfter? (s.spot.size + 4) s

/-- Hands out the first token. -/
def advance (s : Scanner) : Scanner := { s with queue := s.queue.tail, taken := s.taken + 1 }

end Scanner

/-- The state before the first token of a file. -/
def Scanner.open? (file : Text) : Option Scanner := (Spot.open? file).map fun spot => { spot := spot }

end PocketScript.Yaml
