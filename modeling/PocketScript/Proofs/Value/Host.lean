import PocketScript.Session.Basic

/-!
# Kinds of host functions

Statements about runs with native functions hold for kinds of native functions,
and a kind is said of what they do: what they ask for, and what they have carried
out. That goes for everything that a script comes to, whatever it hears, and for
the native functions that it makes.

Another kind looks away. Remarks, faults, and the parameters and the body of a
function are there for a host to see, and a discreet function makes nothing of
them. It does the same for functions that differ in nothing else, and a fault of
what it has carried out it passes on.

## Main definitions

* `Script.Within`: Nothing but certain things is done.
* `Script.Leaf`, `Native.Leaf`: Nothing is carried out.
* `Script.Inert`, `Native.Inert`: Nothing is carried out, and levels are left alone.
* `Script.Brings`, `Native.Brings`: Functions and programs are of a sort only.
* `Face.outside`, `Native.Discreet`: What functions are made of is not looked at.

## Theorems

* `Script.Within.mono`: What does less is of every kind that what does more is of.
* `Native.leaf_clock`, `Native.inert_clock`, `Native.brings_clock`,
  `Native.discreet_clock`: The clock is of every kind.
-/

namespace PocketScript

namespace Query

/-- Asks for a name to be bound or removed, or for a level to be opened. -/
def Changes : Query → Prop
  | bind _ _ _ => True
  | remove _ _ => True
  | nest _ => True
  | _ => False

/-- If a function is asked for, its body is of a sort. -/
def Brings (body : List Stmt → Prop) : Query → Prop
  | make _ _ b _ => body b
  | _ => True

end Query

/-- If a program is to be carried out, its statements are of a sort. -/
def Work.Brings (body : List Stmt → Prop) : Work → Prop
  | program p => body p
  | source _ => True

/-- Whatever it hears, the script asks for nothing but what is allowed, and has nothing
    else carried out. The native functions that it makes do no more. -/
def Script.Within (asks : Query → Prop) (runs : Work → Prop) : Script → Prop
  | give _ => True
  | fail _ => True
  | ask q next => asks q ∧ ∀ a, (next a).Within asks runs
  | wrap _ _ action next =>
    (∀ faces, (action faces).Within asks runs) ∧ next.Within asks runs
  | run work next => runs work ∧ ∀ e, (next e).Within asks runs

/-- What does nothing but some things does nothing but more things. -/
theorem Script.Within.mono {asks asks' : Query → Prop} {runs runs' : Work → Prop}
    {script : Script} (h : script.Within asks runs) (hasks : ∀ q, asks q → asks' q)
    (hruns : ∀ work, runs work → runs' work) : script.Within asks' runs' := by
  induction script with
  | give v => trivial
  | fail e => trivial
  | ask q next ih => exact ⟨hasks q h.1, fun a => ih a (h.2 a)⟩
  | wrap name arity action next ihaction ih =>
      exact ⟨fun faces => ihaction faces (h.1 faces), ih h.2⟩
  | run work next ih => exact ⟨hruns work h.1, fun e => ih e (h.2 e)⟩

namespace Script

/-- Nothing is carried out. -/
def Leaf (script : Script) : Prop := script.Within (fun _ => True) fun _ => False

/-- Nothing is carried out, and levels and their bindings are not touched. -/
def Inert (script : Script) : Prop := script.Within (fun q => ¬ q.Changes) fun _ => False

/-- Functions are made with bodies of a sort only, and only programs of that sort are
    carried out. -/
def Brings (body : List Stmt → Prop) (script : Script) : Prop :=
  script.Within (Query.Brings body) (Work.Brings body)

end Script

namespace Native

/-- A native function that has nothing carried out. -/
def Leaf (action : Native) : Prop := ∀ faces, (action faces).Leaf

/-- A native function that neither has anything carried out nor touches levels and
    their bindings. -/
def Inert (action : Native) : Prop := ∀ faces, (action faces).Inert

/-- A native function that makes functions with bodies of a sort only, and has only
    programs of that sort carried out. -/
def Brings (body : List Stmt → Prop) (action : Native) : Prop :=
  ∀ faces, (action faces).Brings body

theorem within_clock {asks : Query → Prop} (h : asks .time) (runs : Work → Prop)
    (faces : List Face) : (clock faces).Within asks runs := ⟨h, fun _ => trivial⟩

theorem leaf_clock : clock.Leaf := within_clock trivial _

theorem inert_clock : clock.Inert := within_clock id _

theorem brings_clock (body : List Stmt → Prop) : clock.Brings body := within_clock trivial _

end Native

/-- What can be seen of a value from outside: of a function not the names of its
    parameters and not its body. -/
def Face.outside : Face → Face
  | function f => function { f with params := f.params.map fun _ => default, body := [] }
  | v => v

/-- An answer without what is inside a function, and without remarks. -/
def Query.outside : (q : Query) → q.Answer → q.Answer
  | lookup _ _, found => Option.map Face.outside found
  | time, a => a
  | kept, a => a
  | remember _, a => a
  | remarks, _ => []
  | mute _, a => a
  | names _, a => a
  | outer _, a => a
  | nest _, a => a
  | bind _ _ _, a => a
  | remove _ _, a => a
  | make _ _ _ _, a => a

/-- The script does not go by what is inside a function nor by remarks, and it passes
    on the fault of what it has carried out. The native functions that it makes do
    likewise. -/
def Script.Discreet : Script → Prop
  | give _ => True
  | fail _ => True
  | ask q next => (∀ a b, q.outside a = q.outside b → next a = next b) ∧ ∀ a, (next a).Discreet
  | wrap _ _ action next =>
    (∀ faces faces', faces.map Face.outside = faces'.map Face.outside →
      action faces = action faces') ∧ (∀ faces, (action faces).Discreet) ∧ next.Discreet
  | run _ next => (next none).Discreet ∧ ∀ e, next (some e) = .fail e

namespace Native

/-- The same of a native function. -/
structure Discreet (action : Native) : Prop where
  outside : ∀ faces faces', faces.map Face.outside = faces'.map Face.outside →
    action faces = action faces'
  script : ∀ faces, (action faces).Discreet

theorem discreet_clock : clock.Discreet where
  outside _ _ _ := rfl
  script _ := by
    refine ⟨fun a b h => ?_, fun _ => trivial⟩
    have hsame : a = b := h
    rw [hsame]

end Native

end PocketScript
