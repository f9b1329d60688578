import PocketScript.Yaml.Spot

/-!
# Marks and words of a settings file

The pieces that a settings file is made of, once indentation has been turned
into explicit starts and ends of collections.

A tag says what a value is meant to be. It is written with a handle, which
stands for a beginning of tags, and a suffix. A directive at the start of a
document can give handles a meaning.

## Main definitions

* `Token`: A piece of a settings file.
* `label`, `tag`, `directive`: Reading the pieces that are words of their own.
-/

namespace PocketScript.Yaml

open Yaml.Reading (next peek need skip span skipWhile fuel)

/-- A piece of a settings file. -/
inductive Token where
  | streamEnd
  | version (major minor : Nat)
  | handle (handle meaning : Text)
  | documentStart
  | documentEnd
  | blockSequenceStart
  | blockMappingStart
  | blockEnd
  | flowSequenceStart
  | flowSequenceEnd
  | flowMappingStart
  | flowMappingEnd
  | blockEntry
  | flowEntry
  | key
  | value
  | alias (name : Text)
  | anchor (name : Text)
  | tag (handle suffix : Text)
  | scalar (text : Text) (isPlain : Bool)
deriving Repr, DecidableEq

/-- Reads the name after the mark of an anchor or an alias. -/
def label : Reading Text := do
  skip 1
  let name ← span isNameRune
  let r ← next
  if name.isEmpty ∨ ¬ (endsWord r ∨ isOneOf "?:,]\x7d%@`" r) then failure
  return Text.ofRunes name

/-! ## Tags -/

/-- A character of a tag. -/
def isTagRune (r : Rune) : Bool := isNameRune r || r == apostrophe || isOneOf ";/?:@&=+$,.!~*()[]" r

/-- The number of bytes of a character, told by the first of them. -/
def sequenceLength (b : Nat) : Option Nat :=
  if b < 0x80 then some 1
  else if b < 0xC0 then none
  else if b < 0xE0 then some 2
  else if b < 0xF0 then some 3
  else if b < 0xF8 then some 4
  else none

/-- Reads a byte that a percent sign and two digits spell. -/
def spelledByte : Reading Nat := do
  need 3
  if (← next) ≠ code '%' then failure
  match hexDigit? (← peek 1), hexDigit? (← peek 2) with
  | some a, some b =>
    skip 3
    return 16 * a + b
  | _, _ => failure

/-- Reads bytes that go on with a character. -/
def spelledTail : Nat → Reading Text
  | 0 => return []
  | n + 1 => do
    let b ← spelledByte
    if b < 0x80 ∨ 0xC0 ≤ b then failure
    return b.toUInt8 :: (← spelledTail n)

/-- Reads a character that is spelled by its bytes. -/
def spelledRune : Reading Text := do
  let b ← spelledByte
  match sequenceLength b with
  | none => failure
  | some n => return b.toUInt8 :: (← spelledTail (n - 1))

/-- Reads on in a tag. -/
def tagFrom : (fuel : Nat) → Text → Reading Text
  | 0, t => return t
  | n + 1, t => do
    let r ← next
    if r = code '%' then
      let bytes ← spelledRune
      need 1
      tagFrom n (t ++ bytes)
    else if isTagRune r then
      skip 1
      need 1
      tagFrom n (t ++ r.encode)
    else return t

/-- Reads the characters of a tag after those that are known. -/
def tagText (start : Text) : Reading Text := do
  need 1
  tagFrom (← fuel) start

/-- Reads the characters of a tag, of which there has to be one. -/
def someTagText : Reading Text := do
  let t ← tagText []
  if t.isEmpty then failure
  return t

/-- Reads an exclamation mark with the name after it, and one more mark if
    there is one. -/
def tagHandle : Reading Text := do
  skip 1
  let name ← span isNameRune
  if (← next) = code '!' then
    skip 1
    return utf8 "!" ++ Text.ofRunes name ++ "!"
  else return utf8 "!" ++ Text.ofRunes name

/-- Is this a handle between two marks? -/
def isClosedHandle (t : Text) : Bool := 1 < t.length && t.getLast? == some 33

/-- Reads the handle and the suffix of a tag, which starts at its mark. A tag
    in angle brackets has no handle, and neither has the mark by itself. -/
def tagParts : Reading (Text × Text) := do
  need 2
  if (← peek 1) = code '<' then
    skip 2
    let suffix ← someTagText
    if (← next) ≠ code '>' then failure
    skip 1
    return ([], suffix)
  let handle ← tagHandle
  if isClosedHandle handle then return (handle, ← someTagText)
  let suffix ← tagText (handle.drop 1)
  if suffix.isEmpty then return ([], utf8 "!") else return (utf8 "!", suffix)

/-- Reads a tag, which starts at its mark and is followed by a gap. -/
def tag : Reading Token := do
  let (handle, suffix) ← tagParts
  need 1
  if !endsWord (← next) then failure
  return .tag handle suffix

/-! ## Directives -/

/-- Reads a number of at most two digits. -/
def versionNumber : Reading Nat := do
  let ds ← span isDigit
  if ds.isEmpty ∨ 2 < ds.length then failure
  return ds.foldl (fun n r => 10 * n + (r - 48)) 0

/-- Reads the version that a document is written in. -/
def version : Reading Token := do
  skipWhile isBlank
  let major ← versionNumber
  if (← next) ≠ code '.' then failure
  skip 1
  let minor ← versionNumber
  return .version major minor

/-- Reads a handle and its meaning. -/
def handleMeaning : Reading Token := do
  skipWhile isBlank
  if (← next) ≠ code '!' then failure
  let handle ← tagHandle
  need 1
  if ¬ (handle = utf8 "!" ∨ isClosedHandle handle) ∨ ¬ isBlank (← next) then failure
  skipWhile isBlank
  let meaning ← someTagText
  need 1
  if !endsWord (← next) then failure
  return .handle handle meaning

/-- Reads a directive, which starts at its mark and takes a line. -/
def directive : Reading Token := do
  skip 1
  let name ← span isNameRune
  if !endsWord (← next) then failure
  let token ←
    if Text.ofRunes name = utf8 "YAML" then version
    else if Text.ofRunes name = utf8 "TAG" then handleMeaning
    else failure
  Reading.finishLine
  return token

end PocketScript.Yaml
