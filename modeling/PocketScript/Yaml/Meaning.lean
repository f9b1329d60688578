import PocketScript.Number.Written
import PocketScript.Yaml.Node

/-!
# What scalars mean

A scalar in quotes is a text. Of those without quotes some words stand for
nothing and for truth values, and the others are texts as far as settings are
concerned. A tag overrides this. One of the usual tags demands a text, or a
kind that the words have to fit; under any other tag the words are a text.

## Main definitions

* `Meaning`: What a scalar stands for.
* `meaning?`: What a scalar with a tag stands for, if it fits the tag.
-/

namespace PocketScript.Yaml

/-- What a scalar stands for. Numbers and dates are not told apart. -/
inductive Meaning where
  | nothing
  | truth (b : Bool)
  | words (t : Text)
  | other
deriving Repr, DecidableEq

/-- Does the text stand for nothing? -/
def isNothing (t : Text) : Bool := [utf8 "", "~", "null", "Null", "NULL"].contains t

/-- The truth value that a text stands for. -/
def truth? (t : Text) : Option Bool :=
  if [utf8 "true", "True", "TRUE"].contains t then some true
  else if [utf8 "false", "False", "FALSE"].contains t then some false
  else none

/-! ## Numbers -/

/-- A text without the underscores that group digits. -/
def ungrouped (t : Text) : Text := t.filter (· != 95)

/-- The value of a digit in a base. -/
def digitIn? (base : Nat) (b : UInt8) : Option Nat :=
  (hexDigit? b.toNat).filter (· < base)

/-- The number that digits in a base name. -/
def number? (base : Nat) (t : Text) : Option Nat :=
  if t.isEmpty then none
  else t.foldl (fun n b => n.bind fun n => (digitIn? base b).map (base * n + ·)) (some 0)

/-- The natural number that a text names, in a base told by its first
    digits. -/
def natural? : Text → Option Nat
  | 48 :: 120 :: ds => number? 16 ds
  | 48 :: 88 :: ds => number? 16 ds
  | 48 :: 111 :: ds => number? 8 ds
  | 48 :: 79 :: ds => number? 8 ds
  | 48 :: 98 :: ds => number? 2 ds
  | 48 :: 66 :: ds => number? 2 ds
  | 48 :: d :: ds => number? 8 (d :: ds)
  | ds => number? 10 ds

/-- What a number is kept as: with a sign in 64 bits, without one, or as a
    fraction. -/
inductive Numeral where
  | signed
  | unsigned
  | fraction
deriving Repr, DecidableEq

/-- What a whole number is kept as, given how its digits are read. -/
def whole? (digits? : Text → Option Nat) (t : Text) : Option Numeral :=
  match t with
  | 45 :: ds => ((digits? ds).filter (· ≤ 0x8000000000000000)).map fun _ => .signed
  | 43 :: ds => ((digits? ds).filter (· < 0x8000000000000000)).map fun _ => .signed
  | ds =>
    match digits? ds with
    | none => none
    | some n =>
      if n < 0x8000000000000000 then some .signed
      else if n < 0x10000000000000000 then some .unsigned
      else none

/-- A decimal digit. -/
def isDigitByte (b : UInt8) : Bool := 48 ≤ b && b ≤ 57

/-- A text without the sign at its start. -/
def unsigned : Text → Text
  | 43 :: t => t
  | 45 :: t => t
  | t => t

/-- The power of ten at the end of a fraction, which may be missing. -/
def power? : Text → Option Int
  | [] => some 0
  | e :: t =>
    if e ≠ 101 ∧ e ≠ 69 then none
    else match t with
      | 45 :: ds => (number? 10 ds).map fun n => -(n : Int)
      | 43 :: ds => (number? 10 ds).map fun n => (n : Int)
      | ds => (number? 10 ds).map fun n => (n : Int)

/-- The digits of a fraction without sign as a whole number, and the power of
    ten that it is multiplied by. -/
def fraction? (t : Text) : Option (Nat × Int) :=
  let digits := t.takeWhile isDigitByte
  let (places, more) : Text × Text := match t.drop digits.length with
    | 46 :: more => (more.takeWhile isDigitByte, more.dropWhile isDigitByte)
    | more => ([], more)
  match number? 10 (digits ++ places), power? more with
  | some n, some e => some (n, e - places.length)
  | _, _ => none

/-- Is a number too large for a fraction of 64 bits? The least that is lies
    half a step above the greatest that can be kept. -/
def overflows (n : Nat) (power : Int) : Bool :=
  let limit := (twoTo 54 - 1) * twoTo 970
  let size := (Text.natural n).length
  if n = 0 ∨ power + size < 300 then false
  else if 320 < power + size then true
  else if 0 ≤ power then limit ≤ n * tenTo power.toNat
  else limit * tenTo (-power).toNat ≤ n

/-- Is the text a number with a point or a power of ten that is not too
    large? -/
def isFraction (t : Text) : Bool :=
  (fraction? (unsigned t)).any fun (n, power) => !overflows n power

/-- Does every underscore stand between two digits? -/
def groupsDigits : (before : UInt8) → Text → Bool
  | before, [] => before != 95
  | before, b :: t =>
    (if b = 95 then isDigitByte before else before != 95 || isDigitByte b) && groupsDigits b t

/-- What a number is kept as that has its sign after the mark of its base. -/
def inner? (base : Nat) (t : Text) : Option Numeral := whole? (number? base) t

/-- What the number is kept as that a text spells after its sign or first
    digit is known. -/
def counted? (t : Text) : Option Numeral :=
  let t := ungrouped t
  match whole? natural? t with
  | some k => some k
  | none =>
    if isFraction t then some .fraction
    else match t with
      | 48 :: 98 :: ds => inner? 2 ds
      | 48 :: 111 :: ds => inner? 8 ds
      | 45 :: 48 :: 98 :: ds => whole? (number? 2) (45 :: ds)
      | 45 :: 48 :: 111 :: ds => whole? (number? 8) (45 :: ds)
      | _ => none

/-- What the number is kept as that a text spells. Some words stand for what
    is no finite number. -/
def numeral? (t : Text) : Option Numeral :=
  if [utf8 ".inf", ".Inf", ".INF", ".nan", ".NaN", ".NAN"].contains t then some .fraction
  else if [utf8 "+.inf", "+.Inf", "+.INF", "-.inf", "-.Inf", "-.INF"].contains t then some .fraction
  else match t with
    | [] => none
    | b :: _ =>
      if b = 46 then
        (if groupsDigits 0 t ∧ isFraction (ungrouped t) then some .fraction else none)
      else if b = 43 ∨ b = 45 ∨ isDigitByte b then counted? t
      else none

/-! ## Times -/

/-- The number of days in a month. -/
def daysIn (year month : Nat) : Nat :=
  if month = 2 then
    (if year % 4 = 0 ∧ (year % 100 ≠ 0 ∨ year % 400 = 0) then 29 else 28)
  else if month = 4 ∨ month = 6 ∨ month = 9 ∨ month = 11 then 30
  else 31

/-- Reads a number of one or two digits. -/
def shortNumber? : Text → Option (Nat × Text)
  | a :: b :: t =>
    if !isDigitByte a then none
    else if isDigitByte b then some (10 * (a.toNat - 48) + (b.toNat - 48), t)
    else some (a.toNat - 48, b :: t)
  | [a] => if isDigitByte a then some (a.toNat - 48, []) else none
  | [] => none

/-- Reads a number of one or two digits that comes after a byte. -/
def numberAfter? (sep : UInt8) : Text → Option (Nat × Text)
  | b :: t => if b = sep then shortNumber? t else none
  | [] => none

/-- Reads a date: a year of four digits, a month and a day. -/
def date? (t : Text) : Option Text := do
  let year ← number? 10 (t.take 4)
  if (t.take 4).length ≠ 4 then none
  let (month, t) ← numberAfter? 45 (t.drop 4)
  let (day, t) ← numberAfter? 45 t
  if 1 ≤ month ∧ month ≤ 12 ∧ 1 ≤ day ∧ day ≤ daysIn year month then some t else none

/-- Passes over the digits of a fraction of a second, if there is one. -/
def fractionOfSecond (t : Text) : Text :=
  match t with
  | p :: d :: more =>
    if (p = 46 ∨ p = 44) ∧ isDigitByte d then more.dropWhile isDigitByte else t
  | _ => t

/-- Reads a time of day: hour, minute, second. -/
def clock? (t : Text) : Option Text := do
  let (hour, t) ← shortNumber? t
  let (minute, t) ← numberAfter? 58 t
  let (second, t) ← numberAfter? 58 t
  if hour < 24 ∧ minute < 60 ∧ second < 60 then some (fractionOfSecond t) else none

/-- Is this a time zone: a letter for none, or hours and minutes with a
    sign? -/
def isZone (t : Text) : Bool :=
  match t with
  | [90] => true
  | [sign, a, b, 58, c, d] =>
    (sign == 43 || sign == 45) && (number? 10 [a, b]).any (· ≤ 24) &&
      (number? 10 [c, d]).any (· ≤ 60)
  | _ => false

/-- Is the text a point in time: a date, a date and a time of day after
    blanks, or a date and a time of day with its zone after a letter? -/
def isTime (t : Text) : Bool :=
  match date? t with
  | none => false
  | some [] => true
  | some (32 :: t) => clock? (t.dropWhile (· == 32)) == some []
  | some (b :: t) => (b == 84 || b == 116) && (clock? t).any isZone

/-! ## Bytes in letters -/

/-- The six bits that a letter stands for. -/
def sextet? (b : UInt8) : Option Nat :=
  if 65 ≤ b ∧ b ≤ 90 then some (b.toNat - 65)
  else if 97 ≤ b ∧ b ≤ 122 then some (b.toNat - 71)
  else if isDigitByte b then some (b.toNat + 4)
  else if b = 43 then some 62
  else if b = 47 then some 63
  else none

/-- The bytes that letters stand for, four letters for three bytes. Equals
    signs fill up the last four. -/
def bytes? : Text → Option Text
  | [] => some []
  | [a, b, 61, 61] => do
    let n := (← sextet? a) * 64 + (← sextet? b)
    some [(n / 16).toUInt8]
  | [a, b, c, 61] => do
    let n := ((← sextet? a) * 64 + (← sextet? b)) * 64 + (← sextet? c)
    some [(n / 1024).toUInt8, (n / 4 % 256).toUInt8]
  | a :: b :: c :: d :: more => do
    let n := (((← sextet? a) * 64 + (← sextet? b)) * 64 + (← sextet? c)) * 64 + (← sextet? d)
    some ((n / 65536).toUInt8 :: (n / 256 % 256).toUInt8 :: (n % 256).toUInt8 :: (← bytes? more))
  | _ => none

/-! ## Meanings -/

/-- What a scalar without quotes and tag stands for. -/
def plainMeaning (t : Text) : Meaning :=
  if isNothing t then .nothing
  else match truth? t with
    | some b => .truth b
    | none => .words t

/-- A tag with the beginning that all usual tags have put shortly. -/
def shortTag (tag : Text) : Text :=
  match Text.dropStart? "tag:yaml.org,2002:" tag with
  | some kind => "!!" ++ kind
  | none => tag

/-- What a scalar stands for under a tag, if it fits. Under a tag that is none
    of the usual ones for scalars it stands for itself. -/
def taggedMeaning? (tag t : Text) : Option Meaning :=
  if tag = utf8 "!!binary" then (bytes? (t.filter fun b => b != 10 && b != 13)).map .words
  else if tag = utf8 "!!null" then (if isNothing t then some .nothing else none)
  else if tag = utf8 "!!bool" then (truth? t).map .truth
  else if tag = utf8 "!!int" then
    match numeral? t with
    | some .signed => some .other
    | some .unsigned => some .other
    | _ => none
  else if tag = utf8 "!!float" then
    match numeral? t with
    | some .signed => some .other
    | some .fraction => some .other
    | _ => none
  else if tag = utf8 "!!timestamp" then (if isTime t then some .other else none)
  else some (.words t)

/-- The mark of an entry that takes over the entries of another mapping. -/
def mergeMark : Text := "<<"

/-- What a scalar stands for, if it fits its tag. -/
def meaning? (tag : Option Text) (t : Text) (isPlain : Bool) : Option Meaning :=
  match tag.filter (· != utf8 "!") with
  | some tag => taggedMeaning? (shortTag tag) t
  | none => some (if isPlain then plainMeaning t else .words t)

end PocketScript.Yaml
