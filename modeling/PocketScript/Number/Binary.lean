/-!
# Binary numbers

The numbers of the language are IEEE-754 doubles. Everything that has to be
exact about them, their text and their remainders, is said over the integers
a double is made of: a finite double is `± m · 2 ^ q`.

## Main definitions

* `twoTo`, `tenTo`: Powers of two and of ten.
* `Binary`: A double taken apart.
* `Binary.ofFloat`: The parts of a double.
* `Binary.toFloat`: The double with given parts.
* `rounded`: A quotient as a natural number.
* `Binary.nearestUnits`, `Binary.nearest`: The double nearest to a quotient.
* `remainder`: The remainder of a division, with the sign of the dividend.
-/

namespace PocketScript

/-- A power of two. -/
def twoTo (n : Nat) : Nat := Nat.pow 2 n

/-- A power of ten. -/
def tenTo (n : Nat) : Nat := Nat.pow 10 n

/-- A double taken apart. The finite one is `± significand · 2 ^ exponent`. -/
inductive Binary where
  | nan
  | infinite (negative : Bool)
  | finite (negative : Bool) (significand : Nat) (exponent : Int)
deriving Repr, DecidableEq

namespace Binary

/-- The exponent of the smallest doubles. -/
def leastExponent : Int := -1074

/-- The least significand of a double that is not one of the smallest. -/
def hidden : Nat := twoTo 52

/-- The parts of a double, read off its 64 bits. -/
def ofBits (bits : Nat) : Binary :=
  let negative := bits / twoTo 63 % 2 == 1
  let field : Nat := bits / twoTo 52 % twoTo 11
  let fraction : Nat := bits % twoTo 52
  if field = 2047 then (if fraction = 0 then .infinite negative else .nan)
  else if field = 0 then .finite negative fraction leastExponent
  else .finite negative (hidden + fraction) ((field : Int) - 1075)

/-- The parts of a double. -/
def ofFloat (x : Float) : Binary := ofBits x.toBits.toNat

/-- The bits of `significand · 2 ^ exponent`, for a significand below
    `2 ^ 53` and an exponent that is not too large. The significand is doubled
    while there is room, at most `steps` times. -/
def finiteBits (steps significand : Nat) (exponent : Int) : Nat :=
  match steps with
  | 0 => 0
  | n + 1 =>
    if significand = 0 then 0
    else if hidden ≤ significand then
      (exponent + 1075).toNat * twoTo 52 + (significand - hidden)
    else if exponent ≤ leastExponent then significand
    else finiteBits n (2 * significand) (exponent - 1)

/-- The double with given parts. -/
def toFloat : Binary → Float
  | .nan => 0.0 / 0.0
  | .infinite negative => if negative then -1.0 / 0.0 else 1.0 / 0.0
  | .finite negative significand exponent =>
    let magnitude := finiteBits 54 significand exponent
    Float.ofBits (UInt64.ofNat (magnitude + if negative then twoTo 63 else 0))

end Binary

/-- A quotient as a natural number, the nearest one and half way between two the
    even one. -/
def rounded (a d : Nat) : Nat :=
  if 2 * (a % d) < d ∨ 2 * (a % d) = d ∧ a / d % 2 = 0 then a / d else a / d + 1

/-- The double nearest to a quotient of so many of the smallest double. The last place of
    its significand is worth `2 ^ place` of these. A quotient that is rounded up to twice
    the hidden bit moves on to the next place, and past the last place it is infinite. -/
def Binary.nearestUnits (n d : Nat) : Binary :=
  let place := (n / d).log2 - 52
  let m := rounded n (d * twoTo place)
  let (m, place) := if m = 2 * hidden then (hidden, place + 1) else (m, place)
  if 2045 < place then .infinite false else .finite false m (leastExponent + place)

/-- The double nearest to a quotient. -/
def Binary.nearest (a d : Nat) : Binary := Binary.nearestUnits (a * twoTo 1074) d

/-- The remainder of a division by repeated subtraction, exact and with the
    sign of the dividend. There is none of an infinite dividend or by zero, and
    an infinite divisor leaves the dividend as it is. -/
def remainder (x y : Float) : Float :=
  match Binary.ofFloat x, Binary.ofFloat y with
  | .finite negative a p, .finite _ b q =>
    if b = 0 then Binary.nan.toFloat
    else
      let least := min p q
      let r := (a * twoTo (p - least).toNat) % (b * twoTo (q - least).toNat)
      (Binary.finite negative r least).toFloat
  | .finite _ _ _, .infinite _ => x
  | _, _ => Binary.nan.toFloat

end PocketScript
