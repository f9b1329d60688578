import PocketScript.Program.Reading
import PocketScript.Program.Tree

/-!
# Parsing

From tokens to programs, by descending through the grammar.

The grammar of expressions is a ladder: every rung reads a chain of operands
joined by its own operators, and its operands are read one rung further up.
The top of the ladder leads to the signs and negations, then to increments in
front of a name, to calls, to increments behind a name and to the primary
expressions. Assignment stands at the foot of the ladder and associates to the
right; every chain associates to the left.

Whether something can be assigned to is decided after it was read: the target
of an assignment or an increment has to be a bare name.

The descent is bounded by a counter. Every cycle through the grammar takes at
least one token, so the number of tokens bounds it, and `parse` supplies more
than is ever used.

## Main definitions

* `Rung`: The chains of operators, loosest first.
* `expression`: Reading an expression.
* `statement`, `block`: Reading a statement and a list of them in braces.
* `parse`: The program of a list of tokens.
-/

namespace PocketScript

/-- The chains of operators, loosest first. -/
inductive Rung where
  | either
  | both
  | equality
  | comparison
  | term
  | factor
deriving Repr, DecidableEq

namespace Rung

/-- The rung that the operands of a chain stand on, if there is one. -/
def above : Rung → Option Rung
  | either => some both
  | both => some equality
  | equality => some comparison
  | comparison => some term
  | term => some factor
  | factor => none

/-- The operators that join the operands of a chain. -/
def operators : Rung → List Kind
  | either => [.either]
  | both => [.both]
  | equality => [.equal, .notEqual]
  | comparison => [.less, .lessEqual, .greater, .greaterEqual]
  | term => [.plus, .minus]
  | factor => [.star, .slash, .percent]

/-- Joins two operands. The two loosest rungs evaluate their right operand
    only when it matters, which makes them forms of their own. -/
def combine : Rung → Expr → Token → Expr → Expr
  | either => .logical
  | both => .logical
  | _ => .binary

end Rung

/-- The operators that stand in front of an operand. -/
def signs : List Kind := [.bang, .minus, .plus]

/-- The operators that step a variable by one. -/
def steps : List Kind := [.increment, .decrement]

/-- The operators that compute and assign. -/
def compounds : List Kind :=
  [.plusAssign, .minusAssign, .starAssign, .slashAssign, .percentAssign]

/-- The kinds of tokens that are constants. -/
def constants : List Kind := [.trueWord, .falseWord, .nullWord, .number, .string]

open Reading

mutual

/-- Reads an expression: a chain of the loosest rung, which may turn out to be
    the target of an assignment. -/
def expression (stop : Token) : (fuel : Nat) → List Token → Reading Expr
  | 0, _ => starved
  | n + 1, ts =>
    (chain stop n .either ts).andThen fun left rest =>
      match rest with
      | [] => done left [] []
      | op :: rest' =>
        if op.kind = .assign then
          match left with
          | .reference name => (expression stop n rest').map (.assign name)
          | _ => failed (badTarget op "Invalid assignment target") []
        else if op.kind ∈ compounds then
          match left with
          | .reference name => (expression stop n rest').map (.augmented name op)
          | _ => failed (badTarget op "Invalid assignment target") []
        else done left (op :: rest') []

/-- Reads a chain of operands joined by the operators of a rung. -/
def chain (stop : Token) : (fuel : Nat) → Rung → List Token → Reading Expr
  | 0, _, _ => starved
  | n + 1, rung, ts =>
    (operand stop n rung ts).andThen fun left rest => links stop n rung left rest

/-- Reads the operators and operands that go on with a chain. -/
def links (stop : Token) : (fuel : Nat) → Rung → Expr → List Token → Reading Expr
  | 0, _, _, _ => starved
  | _ + 1, _, left, [] => done left [] []
  | n + 1, rung, left, op :: rest =>
    if op.kind ∈ rung.operators then
      (operand stop n rung rest).andThen fun right rest' =>
        links stop n rung (rung.combine left op right) rest'
    else done left (op :: rest) []

/-- Reads an operand of a chain. -/
def operand (stop : Token) : (fuel : Nat) → Rung → List Token → Reading Expr
  | 0, _, _ => starved
  | n + 1, rung, ts =>
    match rung.above with
    | some r => chain stop n r ts
    | none => signed stop n ts

/-- Reads an operand with any number of signs in front of it. -/
def signed (stop : Token) : (fuel : Nat) → List Token → Reading Expr
  | 0, _ => starved
  | n + 1, [] => stepped stop n []
  | n + 1, op :: rest =>
    if op.kind ∈ signs then (signed stop n rest).map (.unary op)
    else stepped stop n (op :: rest)

/-- Reads a call, or a step operator and the name it steps. -/
def stepped (stop : Token) : (fuel : Nat) → List Token → Reading Expr
  | 0, _ => starved
  | n + 1, [] => called stop n []
  | n + 1, op :: rest =>
    if op.kind ∈ steps then
      (called stop n rest).andThen fun e rest' =>
        match e with
        | .reference name => done (.step op name) rest' []
        | _ => failed (badTarget op "Invalid target in prefix operation") []
    else called stop n (op :: rest)

/-- Reads an expression with any number of argument lists behind it. -/
def called (stop : Token) : (fuel : Nat) → List Token → Reading Expr
  | 0, _ => starved
  | n + 1, ts => (suffixed stop n ts).andThen fun e rest => calls stop n e rest

/-- Reads the argument lists that follow a callee. -/
def calls (stop : Token) : (fuel : Nat) → Expr → List Token → Reading Expr
  | 0, _, _ => starved
  | _ + 1, e, [] => done e [] []
  | n + 1, e, t :: rest =>
    if t.kind = .leftParen then
      (if nextIs .rightParen rest then done [] rest [] else arguments stop n 0 rest).andThen
        fun args rest' =>
          (expect stop .rightParen "Expected ')' after arguments" rest').andThen
            fun paren rest'' => calls stop n (.call e paren args) rest''
    else done e (t :: rest) []

/-- Reads arguments with commas between them, at least one, after `count`
    others. -/
def arguments (stop : Token) : (fuel count : Nat) → List Token → Reading (List Expr)
  | 0, _, _ => starved
  | n + 1, count, ts =>
    Reading.noting (excess "Can't have more than 255 arguments" count (peek stop ts))
      ((expression stop n ts).andThen fun arg rest =>
        match rest with
        | [] => done [arg] [] []
        | c :: rest' =>
          if c.kind = .comma then (arguments stop n (count + 1) rest').map (arg :: ·)
          else done [arg] (c :: rest') [])

/-- Reads a primary expression, or a name and the operator that steps it. -/
def suffixed (stop : Token) : (fuel : Nat) → List Token → Reading Expr
  | 0, _ => starved
  | n + 1, ts =>
    (primary stop n ts).andThen fun e rest =>
      match rest with
      | [] => done e [] []
      | op :: rest' =>
        if op.kind ∈ steps then
          match e with
          | .reference name => done (.step op name) rest' []
          | _ => failed (badTarget op "Invalid target in suffix operation") []
        else done e (op :: rest') []

/-- Reads a constant, a name or an expression in parentheses. -/
def primary (stop : Token) : (fuel : Nat) → List Token → Reading Expr
  | 0, _ => starved
  | _ + 1, [] => failed (noExpression stop) []
  | n + 1, t :: rest =>
    if t.kind ∈ constants then done (.constant t.value t.pos) rest []
    else if t.kind = .identifier then done (.reference t) rest []
    else if t.kind = .leftParen then
      (expression stop n rest).andThen fun inner rest' =>
        (expect stop .rightParen "Expected ')' after expression" rest').map
          fun _ => .grouping inner t.pos
    else failed (noExpression t) []

end

/-- Reads an expression and the semicolon after it. -/
def terminated (stop : Token) (fuel : Nat) (detail : Text) (ts : List Token) : Reading Expr :=
  (expression stop fuel ts).andThen fun e rest =>
    (expect stop .semicolon detail rest).map fun _ => e

/-- Reads what follows the keyword that returns from a function. -/
def giveBack (stop : Token) (fuel : Nat) (keyword : Token) (ts : List Token) : Reading Stmt :=
  if nextIs .semicolon ts then
    (expect stop .semicolon "Expected ';' after return value" ts).map
      fun _ => .giveBack keyword none
  else
    (terminated stop fuel "Expected ';' after return value" ts).map
      fun e => .giveBack keyword (some e)

/-- Reads the names after the keyword that deletes variables. -/
def delete (stop keyword : Token) (ts : List Token) : Reading Stmt :=
  (names stop "Expected variable name after 'del'" (fun _ _ => []) 0 ts).andThen
    fun targets rest =>
      (expect stop .semicolon "Expected ';' after 'del' statement" rest).map
        fun _ => .delete keyword targets

/-- Reads the parameters of a function up to the closing parenthesis. -/
def parameters (stop : Token) (ts : List Token) : Reading (List Token) :=
  (if nextIs .rightParen ts then done [] ts []
   else names stop "Expected parameter name"
      (excess "Can't have more than 255 parameters") 0 ts).andThen
    fun params rest =>
      (expect stop .rightParen "Expected ')' after parameters" rest).map fun _ => params

mutual

/-- Reads a statement. The keyword in front decides its form. -/
def statement (stop : Token) : (fuel : Nat) → List Token → Reading Stmt
  | 0, _ => starved
  | n + 1, [] => (terminated stop n "Expected ';' after expression" []).map .expression
  | n + 1, t :: rest =>
    match t.kind with
    | .funcWord =>
      (expect stop .identifier "Expected function name" rest).andThen fun name rest =>
        (expect stop .leftParen "Expected '(' after function name" rest).andThen fun _ rest =>
          (parameters stop rest).andThen fun params rest =>
            (block stop n "function body" rest).map fun body => .function name params body
    | .returnWord => giveBack stop n t rest
    | .delWord => delete stop t rest
    | .whileWord =>
      (expression stop n rest).andThen fun condition rest =>
        (block stop n "while body" rest).map fun body => .loop t condition body
    | .ifWord => branch stop n t rest
    | .echoWord => (terminated stop n "Expected ';' after value" rest).map (.echo t)
    | .breakWord =>
      (expect stop .semicolon "Expected ';' after 'break'" rest).map fun _ => .leave t
    | .continueWord =>
      (expect stop .semicolon "Expected ';' after 'continue'" rest).map fun _ => .next t
    | _ => (terminated stop n "Expected ';' after expression" (t :: rest)).map .expression

/-- Reads what follows the keyword of a branch. After an else there is either
    a block or another branch. -/
def branch (stop : Token) : (fuel : Nat) → Token → List Token → Reading Stmt
  | 0, _, _ => starved
  | n + 1, keyword, ts =>
    (expression stop n ts).andThen fun condition rest =>
      (block stop n "if body" rest).andThen fun consequent rest =>
        match rest with
        | [] => done (.branch keyword condition consequent none) [] []
        | e :: rest' =>
          if e.kind = .elseWord then
            match rest' with
            | [] =>
              (block stop n "else body" []).map
                fun alternate => .branch keyword condition consequent (some alternate)
            | i :: rest'' =>
              if i.kind = .ifWord then
                (branch stop n i rest'').map
                  fun nested => .branch keyword condition consequent (some [nested])
              else
                (block stop n "else body" (i :: rest'')).map
                  fun alternate => .branch keyword condition consequent (some alternate)
          else done (.branch keyword condition consequent none) (e :: rest') []

/-- Reads statements between braces. `context` says whose body they are. -/
def block (stop : Token) : (fuel : Nat) → (context : Text) → List Token → Reading (List Stmt)
  | 0, _, _ => starved
  | n + 1, context, ts =>
    (expect stop .leftBrace ("Expected '\x7b' before " ++ context) ts).andThen fun _ rest =>
      (statements stop n rest).andThen fun body rest =>
        (expect stop .rightBrace ("Expected '\x7d' after " ++ context) rest).map fun _ => body

/-- Reads statements up to a closing brace or the end of input. -/
def statements (stop : Token) : (fuel : Nat) → List Token → Reading (List Stmt)
  | 0, _ => starved
  | _ + 1, [] => done [] [] []
  | n + 1, t :: rest =>
    if t.kind = .rightBrace then done [] (t :: rest) []
    else
      (statement stop n (t :: rest)).andThen fun s rest =>
        (statements stop n rest).map (s :: ·)

end

/-- Reads statements up to the end of input. -/
def program (stop : Token) : (fuel : Nat) → List Token → Reading (List Stmt)
  | 0, _ => starved
  | _ + 1, [] => done [] [] []
  | n + 1, t :: rest =>
    (statement stop n (t :: rest)).andThen fun s rest => (program stop n rest).map (s :: ·)

/-- What came of parsing: a program or a fault, and the remarks. -/
structure Parsed where
  outcome : Except GrammarFault (List Stmt)
  remarks : List GrammarFault

/-- The token that ends a list of tokens: the first that says so, or else one
    that stands where the last token does. -/
def endToken (ts : List Token) : Token :=
  match ts.find? Token.isEnd with
  | some t => t
  | none => .endAt ((ts.getLast?.map Token.pos).getD .start)

/-- A depth of descent that is never used up: a cycle through the grammar
    takes a token and passes fewer than this many forms. -/
def descentBound (ts : List Token) : Nat := 32 * (ts.length + 1)

/-- The program of a list of tokens. Only the tokens before the first that
    ends the input are looked at. -/
def parse (ts : List Token) : Parsed :=
  let stop := endToken ts
  let before := ts.takeWhile fun t => !t.isEnd
  match program stop (descentBound before) before with
  | .done p _ remarks => ⟨.ok p, remarks⟩
  | .failed e remarks => ⟨.error e, remarks⟩
  | .starved => ⟨.error (noExpression stop), []⟩

end PocketScript
