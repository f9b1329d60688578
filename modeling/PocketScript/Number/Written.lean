import PocketScript.Number.Shortest
import PocketScript.Text.Basic

/-!
# Written numbers

The text of a number, and the number of a text.

Echo writes a number with the fewest digits that read back, positionally
however large or small it is. Listings meant for other programs switch to a
power of ten for very large and very small numbers. Both layouts place the
same digits; `Written` holds the texts of what is no finite number.

## Main definitions

* `Decimal.positional`: Digits with a point and zeros where needed.
* `Decimal.scientific`: One digit before the point, and a power of ten.
* `Number.text`: What echo writes.
* `Number.exchange?`: What listings for other programs write.
* `Number.ofDigits`: The double nearest to a written decimal.
-/

namespace PocketScript

namespace Decimal

/-- The digit `0` as a byte. -/
def zeroByte : UInt8 := 48

/-- The point as a byte. -/
def point : UInt8 := 46

/-- Digits laid out around the point, with zeros where the digits do not
    reach it. -/
def positional (d : Decimal) : Text :=
  let ds := Text.natural d.digits
  let whole : Int := ds.length + d.exponent
  if d.digits = 0 then [zeroByte]
  else if whole ≤ 0 then zeroByte :: point :: (List.replicate (-whole).toNat zeroByte ++ ds)
  else if 0 ≤ d.exponent then ds ++ List.replicate d.exponent.toNat zeroByte
  else ds.take whole.toNat ++ point :: ds.drop whole.toNat

/-- One digit before the point, then a power of ten. A positive power has a
    sign and at least two digits. -/
def scientific (d : Decimal) : Text :=
  let ds := Text.natural d.digits
  let power : Int := (ds.length : Int) - 1 + d.exponent
  let fraction := ds.drop 1
  ds.take 1 ++ (if fraction.isEmpty then [] else point :: fraction) ++ [101] ++
    (if power < 0 then Text.decimal power
     else 43 :: (if power < 10 then [zeroByte] else []) ++ Text.decimal power)

end Decimal

namespace Number

/-- The number as echo writes it: the fewest digits that read back, never with
    a power of ten. A negative zero keeps its sign. -/
def text (x : Float) : Text :=
  match Binary.ofFloat x with
  | .nan => "NaN"
  | .infinite negative => if negative then "-inf" else "inf"
  | .finite negative m q =>
    (if negative then [45] else []) ++ (Decimal.shortest m q).positional

/-- The number as listings for other programs write it: positionally from a
    millionth up to below `10 ^ 21`, with a power of ten outside. There is
    none for what is not finite. -/
def exchange? (x : Float) : Option Text :=
  match Binary.ofFloat x with
  | .finite negative m q =>
    let d := Decimal.shortest m q
    let top : Int := (Text.natural d.digits).length + d.exponent
    let body := if m ≠ 0 ∧ (top ≤ -6 ∨ 21 < top) then d.scientific else d.positional
    some ((if negative then [45] else []) ++ body)
  | _ => none

/-- The natural number that a run of digits names. -/
def natOfDigits (ds : Text) : Nat := ds.foldl (fun n b => 10 * n + (b.toNat - 48)) 0

/-- The double nearest to the decimal with these digits before and after the
    point. -/
def ofDigits (whole fraction : Text) : Float :=
  (Binary.nearest (natOfDigits (whole ++ fraction)) (tenTo fraction.length)).toFloat

end Number

end PocketScript
