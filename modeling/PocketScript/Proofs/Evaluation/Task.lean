import Mathlib.Logic.Relation
import PocketScript.Session.Evaluate

/-!
# What a run is doing

The evaluator says what comes of a run and not what happens on the way. Some
facts are about the way: whether a statement was carried out at all, or what
holds at every moment.

A task is a piece of work of a run: a function of the evaluator with its
counter and its arguments, the session included. Working on a task means
working on its parts, one after the other. Which parts there are depends on
what came of those before, so the parts of a task are computed with the
evaluator itself. Everything that a run does is a task that can be reached from
the first by going from tasks to their parts.

## Main definitions

* `Session.received`: The session in which the body of a function starts.
* `Task`: A piece of work.
* `Task.parts`: The tasks that a task hands on, in order.
* `Task.Reaches`: A task comes up while another is worked on.
* `Task.WithoutDelete`, `Task.quiet`: No delete statement is carried out.

## Theorems

* `callFunction_eq_finishCall`: A call is its body and what comes of it.
* `Task.parts_callFunction`, `Task.parts_interpret`: What calls and programs hand
  on.
* `Task.WithoutDelete.part`: What is true of a task is true of its parts.
* `Task.withoutDelete_of_parts`, `Task.withoutDelete_of_quiet`: And the other way
  round, so that it can be computed.
-/

namespace PocketScript

/-- The session in which the body of a function starts: with a new level that
    binds the parameters, and the call under way. -/
def Session.received (f : Closure) (args : List Value) (paren : Token) (s : Session) : Session :=
  (bindAll s.store.levels.size f.params args
    { s with store := (s.store.openLevel (some f.home)).2 }).enter f.name paren.pos

/-- A call is its body, carried out in a new level, and what comes of it. -/
theorem callFunction_eq_finishCall (n : Nat) (f : Closure) (args : List Value) (paren : Token)
    (s : Session) : callFunction (n + 1) f args paren s =
      finishCall (execAll n f.body s.store.levels.size (s.received f args paren)) := by
  rw [callFunction]
  rfl

/-- A piece of work of a run. -/
inductive Task where
  | eval (n : Nat) (e : Expr) (here : LevelId) (s : Session)
  | evalAll (n : Nat) (es : List Expr) (here : LevelId) (s : Session)
  | apply (n : Nat) (f : Value) (args : List Value) (paren : Token) (s : Session)
  | callFunction (n : Nat) (f : Closure) (args : List Value) (paren : Token) (s : Session)
  | callNative (n : Nat) (script : Script) (held : List Value) (s : Session)
  | exec (n : Nat) (st : Stmt) (here : LevelId) (s : Session)
  | execAll (n : Nat) (b : List Stmt) (here : LevelId) (s : Session)
  | execLoop (n : Nat) (condition : Expr) (b : List Stmt) (here : LevelId) (s : Session)
  | interpret (n : Nat) (program : List Stmt) (s : Session)
  | runSource (n : Nat) (source : Text) (s : Session)

namespace Outcome

variable {ε α : Type}

/-- The tasks that a result leads to. A fault leads to none. -/
def leading (o : Outcome ε α) (f : α → Session → List Task) : List Task :=
  match o with
  | .ok a s => f a s
  | .fault _ _ => []
  | .starved => []

/-- The tasks that a result or a fault leads to. -/
def leadingEither (o : Outcome ε Unit) (f : Option ε → Session → List Task) : List Task :=
  match o with
  | .ok () s => f none s
  | .fault e s => f (some e) s
  | .starved => []

end Outcome

namespace Task

/-- The tasks that a task hands on, in order. -/
def parts : Task → List Task
  | eval (n + 1) e here s =>
    match e with
    | .grouping inner _ => [eval n inner here s]
    | .assign _ value => [eval n value here s]
    | .augmented name _ value =>
      match s.store.get here name with
      | .ok _ => [eval n value here s]
      | .error _ => []
    | .unary _ operand => [eval n operand here s]
    | .binary left _ right =>
      eval n left here s :: (PocketScript.eval n left here s).leading fun _ s => [eval n right here s]
    | .logical left operator right =>
      eval n left here s :: (PocketScript.eval n left here s).leading fun a s =>
        if a.truthy = (operator.kind == .either) then [] else [eval n right here s]
    | .call callee paren args =>
      eval n callee here s :: (PocketScript.eval n callee here s).leading fun f s =>
        evalAll n args here s :: (PocketScript.evalAll n args here s).leading fun vs s =>
          [apply n f vs paren s]
    | _ => []
  | evalAll (n + 1) (e :: es) here s =>
    eval n e here s :: (PocketScript.eval n e here s).leading fun _ s => [evalAll n es here s]
  | apply (n + 1) (.function f) args paren s =>
    if f.params.length = args.length then [callFunction n f args paren s] else []
  | apply (n + 1) (.native f) args _ s =>
    if f.arity = args.length then [callNative n (f.action (args.map Value.shown)) args s] else []
  | callFunction (n + 1) f args paren s =>
    [execAll n f.body s.store.levels.size (s.received f args paren)]
  | callNative (n + 1) script held s =>
    match script with
    | .ask q next =>
      [callNative n (next (s.reply q held).answer) (held ++ (s.reply q held).shown)
        (s.reply q held).session]
    | .wrap name arity action next =>
      [callNative n next (held ++ [.native ⟨name, arity, action, s.stamps⟩]) s.stamp.2]
    | .run (.source t) next =>
      runSource n t s :: (PocketScript.runSource n t s).leadingEither fun e s =>
        [callNative n (next e) held s]
    | .run (.program p) next =>
      interpret n p s :: (PocketScript.interpret n p s).leadingEither fun e s =>
        [callNative n (next (e.map .runtime)) held s]
    | _ => []
  | exec (n + 1) st here s =>
    match st with
    | .expression value => [eval n value here s]
    | .echo _ value => [eval n value here s]
    | .giveBack _ (some value) => [eval n value here s]
    | .branch _ condition consequent alternate =>
      eval n condition here s :: (PocketScript.eval n condition here s).leading fun v s =>
        if v.truthy then [execAll n consequent here s]
        else match alternate with
          | some body => [execAll n body here s]
          | none => []
    | .loop _ condition body => [execLoop n condition body here s]
    | _ => []
  | execAll (n + 1) (st :: rest) here s =>
    exec n st here s :: (PocketScript.exec n st here s).leading fun signal s =>
      match signal with
      | .normal => [execAll n rest here s]
      | _ => []
  | execLoop (n + 1) condition body here s =>
    eval n condition here s :: (PocketScript.eval n condition here s).leading fun v s =>
      if v.truthy then
        execAll n body here s :: (PocketScript.execAll n body here s).leading fun signal s =>
          match signal with
          | .leave _ => []
          | .giveBack _ _ => []
          | _ => [execLoop n condition body here s]
      else []
  | interpret (n + 1) program s => [execAll n program Store.globals { s with calls := [] }]
  | runSource (n + 1) source s =>
    match Token.scan source with
    | .error _ => []
    | .ok tokens =>
      match (parse tokens).outcome with
      | .error _ => []
      | .ok program =>
        [interpret n program ((s.begin.keepRemarks (parse tokens).remarks).note
          (.parsed tokens.length program.length))]
  | _ => []

/-- A call hands on the body of the function. -/
@[simp] theorem parts_callFunction (n : Nat) (f : Closure) (args : List Value) (paren : Token)
    (s : Session) : (callFunction (n + 1) f args paren s).parts =
      [execAll n f.body s.store.levels.size (s.received f args paren)] := by
  rw [parts]

/-- A program hands on its statements, to be carried out at the outermost
    level. -/
@[simp] theorem parts_interpret (n : Nat) (program : List Stmt) (s : Session) :
    (interpret (n + 1) program s).parts =
      [execAll n program Store.globals { s with calls := [] }] := by
  rw [parts]

/-- The second task comes up while the first is worked on. -/
def Reaches : Task → Task → Prop := Relation.ReflTransGen fun task part => part ∈ task.parts

/-- The task is to carry out a delete statement. -/
def IsDelete : Task → Prop
  | exec _ (.delete _ _) _ _ => True
  | _ => False

instance : DecidablePred IsDelete := fun task =>
  decidable_of_iff ((match task with | exec _ (.delete _ _) _ _ => true | _ => false) = true) <| by
    unfold IsDelete
    split <;> simp

/-- No delete statement is carried out while the task is worked on. -/
def WithoutDelete (task : Task) : Prop := ∀ part, task.Reaches part → ¬ part.IsDelete

theorem WithoutDelete.part {task part : Task} (h : task.WithoutDelete) (hpart : part ∈ task.parts) :
    part.WithoutDelete :=
  fun inner hinner => h inner (.head hpart hinner)

theorem withoutDelete_of_parts {task : Task} (htask : ¬ task.IsDelete)
    (hparts : ∀ part ∈ task.parts, part.WithoutDelete) : task.WithoutDelete := by
  intro inner hinner
  rcases Relation.ReflTransGen.cases_head hinner with rfl | ⟨part, hpart, hrest⟩
  · exact htask
  · exact hparts part hpart inner hrest

/-- No delete statement is carried out in a task that is worked off in so many
    rounds of parts. -/
def quiet (task : Task) : (rounds : Nat) → Bool
  | 0 => false
  | n + 1 => decide (¬ task.IsDelete) && task.parts.all fun part => part.quiet n

theorem withoutDelete_of_quiet {rounds : Nat} {task : Task} (h : task.quiet rounds = true) :
    task.WithoutDelete := by
  induction rounds generalizing task with
  | zero => cases h
  | succ n ih =>
      rw [quiet, Bool.and_eq_true, decide_eq_true_eq, List.all_eq_true] at h
      exact withoutDelete_of_parts h.1 fun part hpart => ih (h.2 part hpart)

end Task

end PocketScript
