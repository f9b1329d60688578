import PocketScript.Text.Quoted

/-!
# Flags

The words of a command that start with a dash. Each command knows the names of
its flags, and every flag is a switch, which is on if it is given, or what
its value says. One dash and two mean the same. The first word that is no flag
ends them, and so does a pair of dashes, which is dropped.

## Main definitions

* `FlagFault`: Why flags could not be understood.
* `Flags`: The switches that were given, and the words after them.
* `Flags.parse`: Taking flags off the front of some words.
-/

namespace PocketScript

/-- Why flags could not be understood. -/
inductive FlagFault where
  | malformed (word : Text)
  | helpWanted
  | unknown (name : Text)
  | notTruth (name value : Text)
deriving Repr, DecidableEq

/-- The fault in words. -/
def FlagFault.message : FlagFault → Text
  | malformed word => "bad flag syntax: " ++ word
  | helpWanted => "flag: help requested"
  | unknown name => "flag provided but not defined: -" ++ name
  | notTruth name value =>
    "invalid boolean value " ++ value.quoted ++ " for -" ++ name ++ ": parse error"

/-- The truth value that a word stands for. -/
def Text.truth? (t : Text) : Option Bool :=
  if [utf8 "1", "t", "T", "TRUE", "true", "True"].contains t then some true
  else if [utf8 "0", "f", "F", "FALSE", "false", "False"].contains t then some false
  else none

/-- The switches that were given, the last one first, and the words after
    them. -/
structure Flags where
  switches : List (Text × Bool) := []
  operands : List Text := []
deriving Repr, DecidableEq

namespace Flags

/-- Is a switch on? Of several settings the last one counts. -/
def isOn (name : Text) (f : Flags) : Bool := (f.switches.lookup name).getD false

/-- The byte that flags start with. -/
def dash : UInt8 := 45

/-- The byte before the value of a flag. -/
def equals : UInt8 := 61

/-- What a word is to a command. -/
inductive Word where
  /-- The end of the flags, which is not an operand itself. -/
  | terminator
  | operand
  | flag (name : Text) (value : Option Text)
  | malformed
deriving Repr, DecidableEq

/-- A flag without its dashes, taken apart at the first equals sign. -/
def Word.ofBody : Text → Word
  | [] => .malformed
  | b :: rest =>
    if b = dash ∨ b = equals then .malformed
    else
      let name := b :: rest.takeWhile (· != equals)
      match rest.dropWhile (· != equals) with
      | [] => .flag name none
      | _ :: value => .flag name (some value)

/-- What a word is to a command. A dash by itself is an operand. -/
def Word.of : Text → Word
  | 45 :: 45 :: [] => .terminator
  | 45 :: 45 :: body => .ofBody body
  | [45] => .operand
  | 45 :: body => .ofBody body
  | _ => .operand

/-- The value of a flag that is known, from what was written after it. -/
def value (name : Text) : Option Text → Except FlagFault Bool
  | none => .ok true
  | some v =>
    match v.truth? with
    | some b => .ok b
    | none => .error (.notTruth name v)

/-- Takes flags off the front of some words, after some switches. -/
def parseAfter (known : List Text) (switches : List (Text × Bool)) :
    List Text → Except FlagFault Flags
  | [] => .ok ⟨switches, []⟩
  | word :: more =>
    match Word.of word with
    | .terminator => .ok ⟨switches, more⟩
    | .operand => .ok ⟨switches, word :: more⟩
    | .malformed => .error (.malformed word)
    | .flag name written =>
      if known.contains name then
        match value name written with
        | .ok b => parseAfter known ((name, b) :: switches) more
        | .error e => .error e
      else if name = utf8 "help" ∨ name = utf8 "h" then .error .helpWanted
      else .error (.unknown name)

/-- Takes the flags of a command off the front of its words. -/
def parse (known : List Text) (words : List Text) : Except FlagFault Flags :=
  parseAfter known [] words

end Flags

end PocketScript
