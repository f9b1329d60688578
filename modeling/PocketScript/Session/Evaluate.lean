import PocketScript.Program.Parser
import PocketScript.Session.Basic
import PocketScript.Token.Scan
import PocketScript.Value.Operators

/-!
# Evaluation

How programs run.

Evaluating an expression, carrying out a statement, calling a function and
running a source are one mutual recursion, because a native function can have
a program or a source carried out in the middle of a call. Programs need not end, so the
recursion is over a counter: every step into a part of a program and every
round of a loop uses one up. A run that uses it up is `starved`, apart from
every fault of the language; what a run gives with one counter it also gives
with any larger one.

Blocks open no level of bindings. A call opens a level inside the one where
its function was declared, never inside the caller's, and a fault records the
calls under way at the moment it is raised.

## Main definitions

* `Outcome`: A result and the session it leaves, a fault and the session it
  leaves, or starved.
* `Signal`: How a statement ended.
* `eval`, `exec`, `apply`: Expressions, statements and calls.
* `interpret`: A program at the outermost level.
* `runSource`: A source, from its text to its end.
-/

namespace PocketScript

/-- What came of a computation: a result or a fault, each with the session it
    leaves behind, or nothing because the counter was used up. -/
inductive Outcome (ε α : Type) where
  | ok (result : α) (session : Session)
  | fault (e : ε) (session : Session)
  | starved
deriving Inhabited

namespace Outcome

variable {ε ε' α β : Type}

/-- Goes on after a result. -/
@[inline] def andThen (o : Outcome ε α) (f : α → Session → Outcome ε β) : Outcome ε β :=
  match o with
  | ok a s => f a s
  | fault e s => fault e s
  | starved => starved

/-- Goes on after a result and after a fault. -/
@[inline] def either (o : Outcome ε Unit) (f : Option ε → Session → Outcome ε' β) : Outcome ε' β :=
  match o with
  | ok () s => f none s
  | fault e s => f (some e) s
  | starved => starved

end Outcome

/-- Raises a fault, recording the calls under way. -/
def Session.raise {α : Type} (e : RuntimeFault) (s : Session) : Outcome RuntimeFault α :=
  .fault (e.attach s.calls) s

/-- How a statement ended. Anything but `normal` ends the statements around it
    until a loop or a call receives it. -/
inductive Signal where
  | normal
  | giveBack (v : Value) (keyword : Token)
  | leave (keyword : Token)
  | next (keyword : Token)
deriving Inhabited

/-- Removes names one after the other, stopping at the first that is not
    bound. What was removed before stays removed. -/
def deleteAll (here : LevelId) : List Token → Session → Outcome RuntimeFault Signal
  | [], s => .ok .normal s
  | t :: ts, s =>
    match s.store.delete here t with
    | .ok store => deleteAll here ts { s with store := store }
    | .error e => s.raise e

/-- Declares a function in a level. -/
def declare (here : LevelId) (name : Token) (params : List Token) (body : List Stmt)
    (s : Session) : Session :=
  let (n, s) := s.stamp
  s.bind here name.lexeme (.function ⟨name.lexeme, params, body, here, n⟩)

/-- Binds parameters to arguments. -/
def bindAll (here : LevelId) (params : List Token) (args : List Value) (s : Session) : Session :=
  (params.zip args).foldl (fun s (p, v) => s.bind here p.lexeme v) s

/-- Ends a call: the call is left whatever came of the body. A break or
    continue that gets this far belongs to no loop. -/
def finishCall : Outcome RuntimeFault Signal → Outcome RuntimeFault Value
  | .ok .normal s => .ok .null s.leave
  | .ok (.giveBack v _) s => .ok v s.leave
  | .ok (.leave keyword) s => .fault ((RuntimeFault.strayControl keyword).attach s.calls) s.leave
  | .ok (.next keyword) s => .fault ((RuntimeFault.strayControl keyword).attach s.calls) s.leave
  | .fault e s => .fault e s.leave
  | .starved => .starved

/-- Starts a run: reads the clock, forgets the remarks on the last source. -/
def Session.begin (s : Session) : Session := { s.readClock.2 with remarks := [] }

/-- Records what the parser found. -/
def Session.keepRemarks (remarks : List GrammarFault) (s : Session) : Session :=
  remarks.foldl (fun s r => s.note (.remark r.pos.line r.message)) { s with remarks := remarks }

/-- Ends a run: the log gets a line, which takes a reading of the clock. -/
def Session.conclude (succeeded : Bool) (s : Session) : Session :=
  if s.logging then s.readClock.2.note (.finished succeeded) else s

/-- Shows the failing line on a fault that does not carry one yet. -/
def RuntimeFault.located (source : Text) (e : RuntimeFault) : RuntimeFault :=
  if e.codeFrame.isEmpty then { e with codeFrame := PocketScript.codeFrame source e.pos } else e

mutual

/-- Evaluates an expression, seen from a level. -/
def eval : (fuel : Nat) → Expr → LevelId → Session → Outcome RuntimeFault Value
  | 0, _, _, _ => .starved
  | n + 1, e, here, s =>
    match e with
    | .constant value _ => .ok (.ofLiteral value) s
    | .grouping inner _ => eval n inner here s
    | .reference name =>
      match s.store.get here name with
      | .ok v => .ok v s
      | .error e => s.raise e
    | .assign name value =>
      (eval n value here s).andThen fun v s => .ok v (s.bind here name.lexeme v)
    | .augmented name operator value =>
      match s.store.get here name with
      | .error e => s.raise e
      | .ok current =>
        (eval n value here s).andThen fun v s =>
          match operator.kind.underlying?.bind fun op => Value.binary? op current v with
          | some result => .ok result (s.bind here name.lexeme result)
          | none => s.raise (.badOperands operator current.kindName v.kindName)
    | .step operator name =>
      match s.store.get here name with
      | .error e => s.raise e
      | .ok current =>
        match current.step? operator.kind with
        | some result => .ok result (s.bind here name.lexeme result)
        | none => s.raise (.badOperand operator current.kindName)
    | .unary operator operand =>
      (eval n operand here s).andThen fun v s =>
        match v.unary? operator.kind with
        | some result => .ok result s
        | none => s.raise (.badOperand operator v.kindName)
    | .binary left operator right =>
      (eval n left here s).andThen fun a s =>
        (eval n right here s).andThen fun b s =>
          match Value.binary? operator.kind a b with
          | some result => .ok result s
          | none => s.raise (.badOperands operator a.kindName b.kindName)
    | .logical left operator right =>
      (eval n left here s).andThen fun a s =>
        if a.truthy = (operator.kind == .either) then .ok a s else eval n right here s
    | .call callee paren args =>
      (eval n callee here s).andThen fun f s =>
        (evalAll n args here s).andThen fun vs s => apply n f vs paren s

/-- Evaluates expressions from left to right. -/
def evalAll : (fuel : Nat) → List Expr → LevelId → Session → Outcome RuntimeFault (List Value)
  | 0, _, _, _ => .starved
  | _ + 1, [], _, s => .ok [] s
  | n + 1, e :: es, here, s =>
    (eval n e here s).andThen fun v s =>
      (evalAll n es here s).andThen fun vs s => .ok (v :: vs) s

/-- Calls a value with arguments. `paren` closes the argument list, and faults
    of the call are reported there. -/
def apply : (fuel : Nat) → Value → List Value → Token → Session → Outcome RuntimeFault Value
  | 0, _, _, _, _ => .starved
  | n + 1, f, args, paren, s =>
    match f with
    | .function f =>
      if f.params.length = args.length then callFunction n f args paren s
      else s.raise (.wrongArity paren f.params.length args.length)
    | .native f =>
      if f.arity = args.length then
        match callNative n (f.action (args.map Value.shown)) args s with
        | .ok v s => .ok v s
        | .fault (.runtime e) s => s.raise e
        | .fault e s => s.raise (.nativeFailed paren f.name e.message)
        | .starved => .starved
      else s.raise (.wrongArity paren f.arity args.length)
    | v => s.raise (.uncallable paren v.kindName)

/-- Calls a function with as many arguments as it has parameters, in a new
    level inside the one it was declared in. -/
def callFunction : (fuel : Nat) → Closure → List Value → Token → Session →
    Outcome RuntimeFault Value
  | 0, _, _, _, _ => .starved
  | n + 1, f, args, paren, s =>
    let (level, store) := s.store.openLevel (some f.home)
    let s := bindAll level f.params args { s with store := store }
    finishCall (execAll n f.body level (s.enter f.name paren.pos))

/-- Carries out what a native function does, which holds some values. -/
def callNative : (fuel : Nat) → Script → List Value → Session → Outcome Fault Value
  | 0, _, _, _ => .starved
  | n + 1, script, held, s =>
    match script with
    | .give v => .ok (v.among held) s
    | .fail e => .fault e s
    | .ask q next =>
      let r := s.reply q held
      callNative n (next r.answer) (held ++ r.shown) r.session
    | .wrap name arity action next =>
      let (k, s) := s.stamp
      callNative n next (held ++ [.native ⟨name, arity, action, k⟩]) s
    | .run (.source t) next => (runSource n t s).either fun e s => callNative n (next e) held s
    | .run (.program p) next =>
      (interpret n p s).either fun e s => callNative n (next (e.map .runtime)) held s

/-- Carries out a statement, seen from a level. -/
def exec : (fuel : Nat) → Stmt → LevelId → Session → Outcome RuntimeFault Signal
  | 0, _, _, _ => .starved
  | n + 1, st, here, s =>
    match st with
    | .expression value => (eval n value here s).andThen fun _ s => .ok .normal s
    | .echo _ value => (eval n value here s).andThen fun v s => .ok .normal (s.echo v.text)
    | .function name params body => .ok .normal (declare here name params body s)
    | .giveBack keyword none => .ok (.giveBack .null keyword) s
    | .giveBack keyword (some value) =>
      (eval n value here s).andThen fun v s => .ok (.giveBack v keyword) s
    | .delete _ targets => deleteAll here targets s
    | .branch _ condition consequent alternate =>
      (eval n condition here s).andThen fun v s =>
        if v.truthy then execAll n consequent here s
        else match alternate with
          | some body => execAll n body here s
          | none => .ok .normal s
    | .loop _ condition body => execLoop n condition body here s
    | .leave keyword => .ok (.leave keyword) s
    | .next keyword => .ok (.next keyword) s

/-- Carries out statements until one of them does not end normally. -/
def execAll : (fuel : Nat) → List Stmt → LevelId → Session → Outcome RuntimeFault Signal
  | 0, _, _, _ => .starved
  | _ + 1, [], _, s => .ok .normal s
  | n + 1, st :: rest, here, s =>
    (exec n st here s).andThen fun signal s =>
      match signal with
      | .normal => execAll n rest here s
      | other => .ok other s

/-- Carries out a loop: tests, runs the body and starts again. -/
def execLoop : (fuel : Nat) → Expr → List Stmt → LevelId → Session →
    Outcome RuntimeFault Signal
  | 0, _, _, _, _ => .starved
  | n + 1, condition, body, here, s =>
    (eval n condition here s).andThen fun v s =>
      if v.truthy then
        (execAll n body here s).andThen fun signal s =>
          match signal with
          | .leave _ => .ok .normal s
          | .giveBack v keyword => .ok (.giveBack v keyword) s
          | _ => execLoop n condition body here s
      else .ok .normal s

/-- Carries out a program at the outermost level, with no call under way. A
    break or continue that gets this far belongs to no loop. -/
def interpret : (fuel : Nat) → List Stmt → Session → Outcome RuntimeFault Unit
  | 0, _, _ => .starved
  | n + 1, program, s =>
    (execAll n program Store.globals { s with calls := [] }).andThen fun signal s =>
      match signal with
      | .leave keyword => s.raise (.strayControl keyword)
      | .next keyword => s.raise (.strayControl keyword)
      | _ => .ok () s

/-- Scans, parses and carries out a source. A fault of the running program
    gets the failing line of this source to show. -/
def runSource : (fuel : Nat) → Text → Session → Outcome Fault Unit
  | 0, _, _ => .starved
  | n + 1, source, s =>
    let s := s.begin
    match Token.scan source with
    | .error e => .fault (.lexical e) s
    | .ok tokens =>
      let parsed := parse tokens
      let s := s.keepRemarks parsed.remarks
      match parsed.outcome with
      | .error e => .fault (.grammar e) s
      | .ok program =>
        match interpret n program (s.note (.parsed tokens.length program.length)) with
        | .ok () s => .ok () (s.conclude true)
        | .fault e s => .fault (.runtime (e.located source)) (s.conclude false)
        | .starved => .starved

end

/-- The counter that front ends supply. No program that ends within a lifetime
    uses it up. -/
def ampleFuel : Nat := 1000000000000

/-- Runs a source in a session: what came of it, and the session afterwards.
    There is nothing only if the program did not end. -/
def Session.run (source : Text) (s : Session) : Option (Option Fault × Session) :=
  match runSource ampleFuel source s with
  | .ok () s => some (none, s)
  | .fault e s => some (some e, s)
  | .starved => none

/-- Runs a source without a reading of the clock, remarks, log or code frame,
    which is what a host does that scans and parses by itself. -/
def Session.runQuietly (source : Text) (s : Session) : Option (Option Fault × Session) :=
  match Token.scan source with
  | .error e => some (some (.lexical e), s)
  | .ok tokens =>
    match (parse tokens).outcome with
    | .error e => some (some (.grammar e), s)
    | .ok program =>
      match interpret ampleFuel program s with
      | .ok () s => some (none, s)
      | .fault e s => some (some (.runtime e), s)
      | .starved => none

end PocketScript
