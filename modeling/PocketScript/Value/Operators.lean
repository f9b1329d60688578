import PocketScript.Value.Basic

/-!
# Operators

What the operators compute. Arithmetic and comparison are for two numbers,
and addition also joins two strings; nothing else is defined, not even
equality of strings.

## Main definitions

* `Kind.underlying?`: The arithmetic inside a compound assignment.
* `Value.binary?`: An operator applied to two values.
* `Value.unary?`: A sign or negation applied to a value.
* `Value.step?`: A number stepped by one.
-/

namespace PocketScript

/-- The arithmetic operator inside a compound assignment. -/
def Kind.underlying? : Kind → Option Kind
  | .plusAssign => some .plus
  | .minusAssign => some .minus
  | .starAssign => some .star
  | .slashAssign => some .slash
  | .percentAssign => some .percent
  | _ => none

namespace Value

/-- An operator applied to two numbers. -/
def arithmetic? (op : Kind) (a b : Float) : Option Value :=
  match op with
  | .plus => some (number (a + b))
  | .minus => some (number (a - b))
  | .star => some (number (a * b))
  | .slash => some (number (a / b))
  | .percent => some (number (remainder a b))
  | .less => some (bool (decide (a < b)))
  | .lessEqual => some (bool (decide (a ≤ b)))
  | .greater => some (bool (decide (b < a)))
  | .greaterEqual => some (bool (decide (b ≤ a)))
  | .equal => some (bool (a == b))
  | .notEqual => some (bool (a != b))
  | _ => none

/-- An operator applied to two values, where it is defined. -/
def binary? (op : Kind) : Value → Value → Option Value
  | string a, string b => if op = .plus then some (string (a ++ b)) else none
  | number a, number b => arithmetic? op a b
  | _, _ => none

/-- A sign or negation applied to a value, where it is defined. -/
def unary? (op : Kind) (v : Value) : Option Value :=
  match op, v with
  | .bang, v => some (bool (!v.truthy))
  | .minus, number x => some (number (-x))
  | .plus, number x => some (number x)
  | _, _ => none

/-- A number one further up, or one further down for the operator that
    decreases. -/
def step? (op : Kind) : Value → Option Value
  | number x => some (number (x + if op = .decrement then -1 else 1))
  | _ => none

end Value

end PocketScript
