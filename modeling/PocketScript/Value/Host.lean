import PocketScript.Fault.Report
import PocketScript.Program.Tree

/-!
# Host functions

What a native function does is for the host to say, in the language of the host.
So a native function is a parameter here. All that there is to it is how it deals
with the session that it is called in.

That is what a `Script` records. It starts from what can be seen of the
arguments, asks the session for one thing after the other, and goes on with each
answer as it likes, until it gives a value or fails. It can read the clock, keep
something for later calls, walk through the levels and open new ones, look up, bind
and remove names at any level, make functions, send the output elsewhere, and have
the session carry out a source or a program, whose fault it may pass on or not.

Calling another native function by itself is no request of its own, since it comes to
what that function does, in its place. Nor is offering one from inside a run: that is
to make it and to bind it at the outermost level. Only the list of the functions on
offer stays as it was before the run.

The values stay with the session. A script sees their faces and knows them by
number: the arguments come first, and what it has looked up or made comes after
them, in order. So what it gives or binds is data, an argument, or a value of the
session that it got in one of these ways.

## Main definitions

* `Closure`: A function written in the language.
* `Face`: What a host can see of a value.
* `Given`: What a host gives.
* `Query`, `Query.Answer`: What a host asks of a session, and what it hears.
* `Work`: What a host has a session carry out.
* `Script`, `Native`: What a native function does.
* `Native.clock`: The native function of every session.
-/

namespace PocketScript

/-- The number of a level of bindings in a store. -/
abbrev LevelId := Nat

/-- A function written in the language, with the level it was declared in. -/
structure Closure where
  name : Text
  params : List Token
  body : List Stmt
  home : LevelId
  stamp : Nat
deriving Repr, Inhabited

/-- What a host can see of a value: all of it, but of a native function not what
    it does. -/
inductive Face where
  | null
  | bool (b : Bool)
  | number (x : Float)
  | string (t : Text)
  | function (f : Closure)
  | native (name : Text) (arity : Int) (stamp : Nat)
deriving Repr, Inhabited

/-- What a host gives: data, or one of the values that it holds. -/
inductive Given where
  | data (l : Literal)
  | held (i : Nat)
deriving Repr, Inhabited

/-- What a host asks of a session. -/
inductive Query where
  /-- To read the clock. -/
  | time
  /-- To hear what was kept. -/
  | kept
  /-- To keep something for later calls. -/
  | remember (t : Text)
  /-- To hear what the parser remarked on the last source. -/
  | remarks
  /-- To have what is written thrown away, or no longer. -/
  | mute (muted : Bool)
  /-- To hear the names that a level binds. -/
  | names (level : LevelId)
  /-- To hear which level a level lies in. -/
  | outer (level : LevelId)
  /-- To open a level inside another. -/
  | nest (level : LevelId)
  /-- To find a name, seen from a level. -/
  | lookup (level : LevelId) (name : Text)
  /-- To bind a name in a level. -/
  | bind (level : LevelId) (name : Text) (v : Given)
  /-- To remove a name from the nearest level that binds it. -/
  | remove (level : LevelId) (name : Text)
  /-- To make a function of the language. -/
  | make (name : Text) (params : List Token) (body : List Stmt) (home : LevelId)
deriving Inhabited

/-- What a host hears: the time in nanoseconds, what was kept, the remarks, the names,
    the levels, what can be seen of the value that was found, and whether there was a
    name to remove. -/
def Query.Answer : Query → Type
  | time => Int
  | kept => Text
  | remember _ => Unit
  | remarks => List GrammarFault
  | mute _ => Unit
  | names _ => List Text
  | outer _ => Option LevelId
  | nest _ => LevelId
  | lookup _ _ => Option Face
  | bind _ _ _ => Unit
  | remove _ _ => Bool
  | make _ _ _ _ => Unit

/-- What a host has a session carry out: a source, or a program as a tree. -/
inductive Work where
  | source (t : Text)
  | program (p : List Stmt)
deriving Inhabited

/-- What a native function does once it is called. -/
inductive Script where
  /-- Ends with a value. -/
  | give (v : Given)
  /-- Ends with a fault. -/
  | fail (e : Fault)
  /-- Asks the session and goes on with the answer. -/
  | ask (q : Query) (next : q.Answer → Script)
  /-- Makes a native function, to give or to bind it. -/
  | wrap (name : Text) (arity : Int) (action : List Face → Script) (next : Script)
  /-- Has the session carry out something and goes on with its fault, if there was
      one. -/
  | run (work : Work) (next : Option Fault → Script)
deriving Inhabited

/-- A native function: what it does with its arguments. -/
def Native := List Face → Script

instance : Inhabited Native := ⟨fun _ => default⟩

/-- The time in seconds. -/
def Native.clock : Native := fun _ =>
  .ask .time fun now => .give (.data (.number (Float.ofInt now / 1e9)))

end PocketScript
