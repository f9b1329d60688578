import PocketScript.Number.Binary

/-!
# Shortest digits

The fewest decimal digits that name a double.

Every double is the nearest one to all the numbers of an interval around it,
which reaches half way to its two neighbours; the ends belong to it when its
significand is even. A decimal in that interval reads back as the double. For
one digit, two digits and so on, the two decimals with that many digits next
to the double are tried, and the first that lies in the interval is taken. Of
two that do, the nearer one is taken, and the one with an even last digit if
they are equally near. Seventeen digits always suffice.

All comparisons are between natural numbers: the double and the ends of its
interval are multiples of a quarter of its last place, and everything is
multiplied out.

## Main definitions

* `Decimal`: Digits and a power of ten.
* `Interval`: A double between the ends of its interval, on one scale.
* `Interval.pick?`: The decimal of a given grid that names the double.
* `Decimal.shortest`: The fewest digits that name a double.
-/

namespace PocketScript

/-- The number `digits · 10 ^ exponent`. -/
structure Decimal where
  digits : Nat
  exponent : Int
deriving Repr, DecidableEq, Inhabited

/-- A double and the ends of the interval of numbers nearest to it. All three
    are numerators over `scale`. -/
structure Interval where
  low : Nat
  value : Nat
  high : Nat
  scale : Nat
  closed : Bool
deriving Repr

namespace Interval

/-- The interval of `significand · 2 ^ exponent`. Below a power of two the
    neighbour is only half as far away. -/
def of (significand : Nat) (exponent : Int) : Interval :=
  let below := if significand = Binary.hidden ∧ Binary.leastExponent < exponent then 1 else 2
  let up := twoTo (exponent - 2).toNat
  { low := (4 * significand - below) * up
    value := 4 * significand * up
    high := (4 * significand + 2) * up
    scale := twoTo (2 - exponent).toNat
    closed := significand % 2 == 0 }

/-- Does the multiple `n · unit`, a numerator over the scale of the interval
    times `up`, lie in the interval? -/
def contains (i : Interval) (up mark : Nat) : Bool :=
  if i.closed then i.low * up ≤ mark && mark ≤ i.high * up
  else i.low * up < mark && mark < i.high * up

/-- The power of ten just above the value: the least `k` with
    `value < 10 ^ k`. -/
def magnitude (i : Interval) : Int :=
  let guess : Int :=
    ((Nat.toDigits 10 i.value).length : Int) - (Nat.toDigits 10 i.scale).length
  if i.scale * tenTo guess.toNat ≤ i.value * tenTo (-guess).toNat then guess + 1 else guess

/-- The decimal that names the value among the multiples of `10 ^ place`, if
    one of the two next to the value does. -/
def pick? (i : Interval) (place : Int) : Option Decimal :=
  let up := tenTo (-place).toNat
  let unit := i.scale * tenTo place.toNat
  let value := i.value * up
  let n := value / unit
  let below := value - n * unit
  let above := (n + 1) * unit - value
  match i.contains up (n * unit), i.contains up ((n + 1) * unit) with
  | true, false => some ⟨n, place⟩
  | false, true => some ⟨n + 1, place⟩
  | false, false => none
  | true, true =>
    if below < above ∨ (below = above ∧ n % 2 = 0) then some ⟨n, place⟩ else some ⟨n + 1, place⟩

/-- The first decimal that names the value, trying `count` grids, each ten
    times as fine as the one before. -/
def search (i : Interval) : (count : Nat) → (place : Int) → Decimal
  | 0, _ => ⟨0, 0⟩
  | n + 1, place => (i.pick? place).getD (search i n (place - 1))

end Interval

namespace Decimal

/-- The same number without zeros at the end of its digits, dropping at most
    `steps` of them. -/
def trimmed : (steps : Nat) → Decimal → Decimal
  | 0, d => d
  | n + 1, d =>
    if d.digits ≠ 0 ∧ d.digits % 10 = 0 then trimmed n ⟨d.digits / 10, d.exponent + 1⟩ else d

/-- The fewest digits that name `significand · 2 ^ exponent`. -/
def shortest (significand : Nat) (exponent : Int) : Decimal :=
  if significand = 0 then ⟨0, 0⟩
  else
    let i := Interval.of significand exponent
    trimmed 20 (i.search 18 (i.magnitude - 1))

end Decimal

end PocketScript
