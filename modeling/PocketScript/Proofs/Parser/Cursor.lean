import PocketScript.Program.Parser

/-!
# Parsing with a cursor

The parser as one writes it for an array of tokens: an index says where the
reading has come to, tokens are looked up at the index or just before it, and
taking a token moves the index on by one.

A list of tokens cannot be read past its end, and a reader that returns the
rest of a list cannot lose its place. With an index both can go wrong, and so
can a loop that goes round without moving it. Here each of these is an end of
its own, a `Mishap`, beside the faults in what is parsed:

* every look at the array is checked, and fails where there is no token;
* the cursor moves by `step` alone, which refuses to leave a token that ends
  the input;
* every loop compares, at the end of each round, where it is with where the
  round began.

Nothing here avoids mishaps. That none of them ever comes up is a theorem about
these definitions, and so is that they parse exactly what `parse` does.

## Main definitions

* `Cursor.Mishap`, `Cursor.Halt`: How a walk can stop early.
* `Cursor.Walk`: A computation that moves a cursor and makes remarks.
* `Cursor.peek`, `Cursor.previous`: Looking at tokens.
* `Cursor.step`: Moving on.
* `Cursor.moved`: The check at the end of a round.
* `Cursor.program`: Parsing a program.
* `Cursor.completed`, `Cursor.walk`: Parsing a list of tokens from the start.
* `Cursor.parsed?`, `Cursor.ending`: What came of it.
-/

namespace PocketScript

open Reading (mismatch badTarget noExpression excess)

namespace Cursor

/-- What must not happen to a walk. -/
inductive Mishap where
  | outOfRange
  | pastEnd
  | idle
  | starved
deriving Repr, DecidableEq

/-- Why a walk stopped before its end. -/
inductive Halt where
  | fault (e : GrammarFault)
  | mishap (m : Mishap)
deriving Repr

/-- Where a walk has come to, and the remarks it has made. -/
structure Spot where
  current : Nat := 0
  remarks : List GrammarFault := []
deriving Repr

/-- A computation that moves a cursor and makes remarks, or stops early. -/
abbrev Walk := EStateM Halt Spot

/-- The index of the next token. -/
def here : Walk Nat := do return (← get).current

/-- Makes remarks. -/
def remark (more : List GrammarFault) : Walk Unit :=
  modify fun spot => { spot with remarks := spot.remarks ++ more }

/-- The check at the end of a round of a loop that began at `start`. -/
def moved (start : Nat) : Walk Unit := do
  if (← here) ≤ start then throw (.mishap .idle)

/-- Stops with a fault. -/
def refuse {α : Type} (e : GrammarFault) : Walk α := throw (.fault e)

section Tokens

variable (tokens : Array Token)

/-- The token at an index. -/
def tokenAt (i : Nat) : Walk Token :=
  match tokens[i]? with
  | some t => pure t
  | none => throw (.mishap .outOfRange)

/-- The next token. -/
def peek : Walk Token := do tokenAt tokens (← here)

/-- The token before the next one, or the first at the start. -/
def previous : Walk Token := do
  let i ← here
  tokenAt tokens (if i = 0 then 0 else i - 1)

/-- Does the next token end the input? -/
def isAtEnd : Walk Bool := do return (← peek tokens).isEnd

/-- Is the next token of kind `k`? At the end of the input it is of none. -/
def check (k : Kind) : Walk Bool := do
  if ← isAtEnd tokens then return false
  else return (← peek tokens).kind == k

/-- Moves on by one. A token that ends the input is never left. -/
def step : Walk Unit := do
  if ← isAtEnd tokens then throw (.mishap .pastEnd)
  else modify fun spot => { spot with current := spot.current + 1 }

/-- Takes the next token, unless it ends the input. -/
def advance : Walk Token := do
  if ← isAtEnd tokens then previous tokens
  else
    step tokens
    previous tokens

/-- Takes the next token if it is of one of these kinds. -/
def takeOf : List Kind → Walk (Option Token)
  | [] => return none
  | k :: ks => do
    if ← check tokens k then
      let _ ← advance tokens
      return some (← previous tokens)
    else takeOf ks

/-- Takes a token of kind `k`. -/
def consume (k : Kind) (detail : Text) : Walk Token := do
  if ← check tokens k then advance tokens
  else refuse (mismatch k detail (← peek tokens))

/-- Nothing where the next token is of kind `k`, and otherwise what `w` finds. -/
def unlessNext {α : Type} (k : Kind) (w : Walk (List α)) : Walk (List α) := do
  if ← check tokens k then return [] else w

/-- Takes names with commas between them, at least one. -/
def names (detail : Text) (remarks : Nat → Token → List GrammarFault) :
    (fuel count : Nat) → Walk (List Token)
  | 0, _ => throw (.mishap .starved)
  | n + 1, count => do
    let start ← here
    remark (remarks count (← peek tokens))
    let name ← consume tokens .identifier detail
    moved start
    match ← takeOf tokens [.comma] with
    | some _ => return name :: (← names detail remarks n (count + 1))
    | none => return [name]

mutual

/-- An expression. -/
def expression : (fuel : Nat) → Walk Expr
  | 0 => throw (.mishap .starved)
  | n + 1 => do
    let left ← chain n .either
    match ← takeOf tokens [.assign] with
    | some op =>
      match left with
      | .reference name => return .assign name (← expression n)
      | _ => refuse (badTarget op "Invalid assignment target")
    | none =>
      match ← takeOf tokens compounds with
      | some op =>
        match left with
        | .reference name => return .augmented name op (← expression n)
        | _ => refuse (badTarget op "Invalid assignment target")
      | none => return left

/-- A chain of operands joined by the operators of a rung. -/
def chain : (fuel : Nat) → Rung → Walk Expr
  | 0, _ => throw (.mishap .starved)
  | n + 1, rung => do
    let left ← operand n rung
    links n rung left

/-- The loop of a chain: an operator and an operand in each round. -/
def links : (fuel : Nat) → Rung → Expr → Walk Expr
  | 0, _, _ => throw (.mishap .starved)
  | n + 1, rung, left => do
    let start ← here
    match ← takeOf tokens rung.operators with
    | some op =>
      let right ← operand n rung
      moved start
      links n rung (rung.combine left op right)
    | none => return left

/-- An operand of a chain. -/
def operand : (fuel : Nat) → Rung → Walk Expr
  | 0, _ => throw (.mishap .starved)
  | n + 1, rung =>
    match rung.above with
    | some next => chain n next
    | none => signed n

/-- An operand with any number of signs in front of it. -/
def signed : (fuel : Nat) → Walk Expr
  | 0 => throw (.mishap .starved)
  | n + 1 => do
    match ← takeOf tokens signs with
    | some op => return .unary op (← signed n)
    | none => stepped n

/-- A call, or a step operator and the name it steps. -/
def stepped : (fuel : Nat) → Walk Expr
  | 0 => throw (.mishap .starved)
  | n + 1 => do
    match ← takeOf tokens steps with
    | some op =>
      match ← called n with
      | .reference name => return .step op name
      | _ => refuse (badTarget op "Invalid target in prefix operation")
    | none => called n

/-- An expression with any number of argument lists behind it. -/
def called : (fuel : Nat) → Walk Expr
  | 0 => throw (.mishap .starved)
  | n + 1 => do
    let e ← suffixed n
    calls n e

/-- The loop of a call: an argument list in each round. -/
def calls : (fuel : Nat) → Expr → Walk Expr
  | 0, _ => throw (.mishap .starved)
  | n + 1, e => do
    let start ← here
    match ← takeOf tokens [.leftParen] with
    | some _ =>
      let args ← unlessNext tokens .rightParen (arguments n 0)
      let paren ← consume tokens .rightParen "Expected ')' after arguments"
      moved start
      calls n (.call e paren args)
    | none => return e

/-- The loop of an argument list: an argument in each round. -/
def arguments : (fuel count : Nat) → Walk (List Expr)
  | 0, _ => throw (.mishap .starved)
  | n + 1, count => do
    let start ← here
    remark (excess "Can't have more than 255 arguments" count (← peek tokens))
    let arg ← expression n
    moved start
    match ← takeOf tokens [.comma] with
    | some _ => return arg :: (← arguments n (count + 1))
    | none => return [arg]

/-- A primary expression, or a name and the operator that steps it. -/
def suffixed : (fuel : Nat) → Walk Expr
  | 0 => throw (.mishap .starved)
  | n + 1 => do
    let e ← primary n
    match ← takeOf tokens steps with
    | some op =>
      match e with
      | .reference name => return .step op name
      | _ => refuse (badTarget op "Invalid target in suffix operation")
    | none => return e

/-- A constant, a name or an expression in parentheses. -/
def primary : (fuel : Nat) → Walk Expr
  | 0 => throw (.mishap .starved)
  | n + 1 => do
    let t ← peek tokens
    if t.kind ∈ constants then
      let _ ← advance tokens
      return .constant t.value t.pos
    else if t.kind = .identifier then
      let _ ← advance tokens
      return .reference t
    else if t.kind = .leftParen then
      let _ ← advance tokens
      let inner ← expression n
      let _ ← consume tokens .rightParen "Expected ')' after expression"
      return .grouping inner t.pos
    else refuse (noExpression t)

end

/-- An expression and the semicolon after it. -/
def terminated (fuel : Nat) (detail : Text) : Walk Expr := do
  let e ← expression tokens fuel
  let _ ← consume tokens .semicolon detail
  return e

/-- What follows the keyword that returns from a function. -/
def giveBack (fuel : Nat) (keyword : Token) : Walk Stmt := do
  if ← check tokens .semicolon then
    let _ ← consume tokens .semicolon "Expected ';' after return value"
    return .giveBack keyword none
  else return .giveBack keyword (some (← terminated tokens fuel "Expected ';' after return value"))

/-- The names after the keyword that deletes variables. -/
def delete (keyword : Token) : Walk Stmt := do
  let targets ← names tokens "Expected variable name after 'del'" (fun _ _ => []) tokens.size 0
  let _ ← consume tokens .semicolon "Expected ';' after 'del' statement"
  return .delete keyword targets

/-- The parameters of a function up to the closing parenthesis. -/
def parameters : Walk (List Token) := do
  let params ← unlessNext tokens .rightParen <|
    names tokens "Expected parameter name" (excess "Can't have more than 255 parameters")
      tokens.size 0
  let _ ← consume tokens .rightParen "Expected ')' after parameters"
  return params

mutual

/-- A statement. The keyword in front decides its form. -/
def statement : (fuel : Nat) → Walk Stmt
  | 0 => throw (.mishap .starved)
  | n + 1 => do
    match ← takeOf tokens [.funcWord] with
    | some _ =>
      let name ← consume tokens .identifier "Expected function name"
      let _ ← consume tokens .leftParen "Expected '(' after function name"
      let params ← parameters tokens
      return .function name params (← block n "function body")
    | none =>
    match ← takeOf tokens [.returnWord] with
    | some keyword => giveBack tokens n keyword
    | none =>
    match ← takeOf tokens [.delWord] with
    | some keyword => delete tokens keyword
    | none =>
    match ← takeOf tokens [.whileWord] with
    | some keyword =>
      let condition ← expression tokens n
      return .loop keyword condition (← block n "while body")
    | none =>
    match ← takeOf tokens [.ifWord] with
    | some keyword => branch n keyword
    | none =>
    match ← takeOf tokens [.echoWord] with
    | some keyword => return .echo keyword (← terminated tokens n "Expected ';' after value")
    | none =>
    match ← takeOf tokens [.breakWord] with
    | some keyword =>
      let _ ← consume tokens .semicolon "Expected ';' after 'break'"
      return .leave keyword
    | none =>
    match ← takeOf tokens [.continueWord] with
    | some keyword =>
      let _ ← consume tokens .semicolon "Expected ';' after 'continue'"
      return .next keyword
    | none => return .expression (← terminated tokens n "Expected ';' after expression")

/-- What follows the keyword of a branch. -/
def branch : (fuel : Nat) → Token → Walk Stmt
  | 0, _ => throw (.mishap .starved)
  | n + 1, keyword => do
    let condition ← expression tokens n
    let consequent ← block n "if body"
    match ← takeOf tokens [.elseWord] with
    | none => return .branch keyword condition consequent none
    | some _ =>
      match ← takeOf tokens [.ifWord] with
      | some i => return .branch keyword condition consequent (some [← branch n i])
      | none => return .branch keyword condition consequent (some (← block n "else body"))

/-- Statements between braces. -/
def block : (fuel : Nat) → (context : Text) → Walk (List Stmt)
  | 0, _ => throw (.mishap .starved)
  | n + 1, context => do
    let _ ← consume tokens .leftBrace ("Expected '\x7b' before " ++ context)
    let body ← statements n
    let _ ← consume tokens .rightBrace ("Expected '\x7d' after " ++ context)
    return body

/-- The loop of a block: a statement in each round. -/
def statements : (fuel : Nat) → Walk (List Stmt)
  | 0 => throw (.mishap .starved)
  | n + 1 => do
    if ← check tokens .rightBrace then return []
    else if ← isAtEnd tokens then return []
    else
      let start ← here
      let s ← statement n
      moved start
      return s :: (← statements n)

end

/-- The loop of a program: a statement in each round. -/
def program : (fuel : Nat) → Walk (List Stmt)
  | 0 => throw (.mishap .starved)
  | n + 1 => do
    if ← isAtEnd tokens then return []
    else
      let start ← here
      let s ← statement tokens n
      moved start
      return s :: (← program n)

end Tokens

/-- The tokens that are walked through. Where the last one does not end the
    input, one that does is added, at the position of the last. -/
def completed (ts : List Token) : Array Token :=
  match ts.getLast? with
  | none => #[.endAt .start]
  | some t => if t.isEnd then ts.toArray else ts.toArray.push (.endAt t.pos)

/-- Walks through a list of tokens from the start. -/
def walk (fuel : Nat) (ts : List Token) : EStateM.Result Halt Spot (List Stmt) :=
  program (completed ts) fuel {}

/-- Where a walk ended. -/
def ending : EStateM.Result Halt Spot (List Stmt) → Spot
  | .ok _ spot => spot
  | .error _ spot => spot

/-- What came of a walk, if there was no mishap. -/
def parsed? : EStateM.Result Halt Spot (List Stmt) → Option Parsed
  | .ok p spot => some ⟨.ok p, spot.remarks⟩
  | .error (.fault e) spot => some ⟨.error e, spot.remarks⟩
  | .error (.mishap _) _ => none

end Cursor

end PocketScript
