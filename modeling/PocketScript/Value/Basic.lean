import PocketScript.Value.Host

/-!
# Values

What an expression can evaluate to. Functions are values: a function written
in the language remembers the level it was declared in, and a native function
is whatever a host offers under a name of its choice.

Two functions are the same only if they come from the same declaration being
carried out, or the same registration. Every such event gets a stamp, and the
stamps are what is compared.

## Main definitions

* `Builtin`: A native function with its name.
* `Value`: A value.
* `Value.text`: What echo writes.
* `Value.truthy`: Does a value count as true?
* `Value.same`: Are two values equal?
* `Value.shown`: What a host can see of a value.
* `Given.among`: The value that a host gives.
-/

namespace PocketScript

/-- A native function under the name and arity it was registered with. -/
structure Builtin where
  name : Text
  arity : Int
  action : Native
  stamp : Nat
deriving Inhabited

/-- A value. -/
inductive Value where
  | null
  | bool (b : Bool)
  | number (x : Float)
  | string (t : Text)
  | function (f : Closure)
  | native (f : Builtin)
deriving Inhabited

namespace Value

/-- The value of a constant. -/
def ofLiteral : Literal → Value
  | .number x => number x
  | .string t => string t
  | .bool b => bool b
  | .null => null

/-- The name of a value's kind. -/
def kindName : Value → Text
  | null => "null"
  | bool _ => "bool"
  | number _ => "number"
  | string _ => "string"
  | function _ => "function"
  | native _ => "native function"

/-- What echo writes. -/
def text : Value → Text
  | null => "null"
  | bool b => Text.ofBool b
  | number x => Number.text x
  | string t => t
  | function f => "<function " ++ f.name ++ ">"
  | native f => "<native function " ++ f.name ++ ">"

/-- Does a value count as true? Only null and false do not. -/
def truthy : Value → Bool
  | null => false
  | bool b => b
  | _ => true

/-- Are two values equal? Values of different kinds never are, and a number
    that is none is not equal to itself. -/
def same : Value → Value → Bool
  | null, null => true
  | bool a, bool b => a == b
  | number a, number b => a == b
  | string a, string b => a == b
  | function f, function g => f.stamp == g.stamp
  | native f, native g => f.stamp == g.stamp
  | _, _ => false

/-- Can the value be called? -/
def isCallable : Value → Bool
  | function _ => true
  | native _ => true
  | _ => false

/-- What a host can see of a value. -/
def shown : Value → Face
  | null => .null
  | bool b => .bool b
  | number x => .number x
  | string t => .string t
  | function f => .function f
  | native f => .native f.name f.arity f.stamp

end Value

/-- The value that a host gives, which holds these values. It is null if there is
    none with that number. -/
def Given.among (held : List Value) : Given → Value
  | data l => .ofLiteral l
  | .held i => held.getD i .null

end PocketScript
