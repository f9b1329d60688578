import PocketScript.Token.Basic

/-!
# Programs as trees

The forms of expressions and statements. A tree keeps the tokens that carry
meaning at run time or in messages: operators, names, keywords, and the
closing parenthesis of a call. The other punctuation is gone.

A branch distinguishes having no else part from having an empty one, and an
else-if is an else part that holds a single branch.

## Main definitions

* `Expr`, `Stmt`: Expressions and statements.
* `Expr.pos`, `Stmt.pos`: The position a form is reported at.
* `Token.value`: The constant that a literal token stands for.
-/

namespace PocketScript

/-- An expression. -/
inductive Expr where
  | constant (value : Literal) (pos : Position)
  | grouping (inner : Expr) (pos : Position)
  | reference (name : Token)
  | assign (name : Token) (value : Expr)
  | augmented (name operator : Token) (value : Expr)
  | step (operator name : Token)
  | unary (operator : Token) (operand : Expr)
  | binary (left : Expr) (operator : Token) (right : Expr)
  | logical (left : Expr) (operator : Token) (right : Expr)
  | call (callee : Expr) (paren : Token) (args : List Expr)
deriving Repr, Inhabited

/-- A statement. -/
inductive Stmt where
  | function (name : Token) (params : List Token) (body : List Stmt)
  | giveBack (keyword : Token) (value : Option Expr)
  | delete (keyword : Token) (targets : List Token)
  | loop (keyword : Token) (condition : Expr) (body : List Stmt)
  | branch (keyword : Token) (condition : Expr) (consequent : List Stmt)
      (alternate : Option (List Stmt))
  | expression (value : Expr)
  | echo (keyword : Token) (value : Expr)
  | leave (keyword : Token)
  | next (keyword : Token)
deriving Repr, Inhabited

/-- The position an expression is reported at: its operator, its name, or the
    closing parenthesis of a call. -/
def Expr.pos : Expr → Position
  | constant _ p => p
  | grouping _ p => p
  | reference name => name.pos
  | assign name _ => name.pos
  | augmented name _ _ => name.pos
  | step operator _ => operator.pos
  | unary operator _ => operator.pos
  | binary _ operator _ => operator.pos
  | logical _ operator _ => operator.pos
  | call _ paren _ => paren.pos

/-- The position a statement is reported at: its keyword, or that of its
    expression. -/
def Stmt.pos : Stmt → Position
  | function name _ _ => name.pos
  | giveBack keyword _ => keyword.pos
  | delete keyword _ => keyword.pos
  | loop keyword _ _ => keyword.pos
  | branch keyword _ _ _ => keyword.pos
  | expression value => value.pos
  | echo keyword _ => keyword.pos
  | leave keyword => keyword.pos
  | next keyword => keyword.pos

/-- The constant that a literal token stands for. A token built by hand may
    lack its value, and then stands for the simplest constant of its kind. -/
def Token.value (t : Token) : Literal :=
  t.literal.getD <| match t.kind with
    | .trueWord => .bool true
    | .falseWord => .bool false
    | .string => .string []
    | .number => .number 0
    | _ => .null

end PocketScript
