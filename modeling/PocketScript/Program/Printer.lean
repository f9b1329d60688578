import PocketScript.Program.Tree
import PocketScript.Text.Quoted

/-!
# Printed programs

A program as nested parentheses with the operator in front, one statement to a
line and two blanks for every level of nesting. The print shows everything of
a program except positions.

## Main definitions

* `Expr.print`: An expression.
* `Stmt.print`: A statement at a level of nesting.
* `printProgram`: A program.
-/

namespace PocketScript

/-- A constant. Strings are quoted, so that they cannot be mistaken for
    anything else. -/
def Literal.print : Literal → Text
  | .string t => t.quoted
  | l => l.text

mutual

/-- An expression with its operator in front. -/
def Expr.print : Expr → Text
  | .constant value _ => value.print
  | .grouping inner _ => "(group " ++ inner.print ++ ")"
  | .reference name => name.lexeme
  | .assign name value => "(= " ++ name.lexeme ++ " " ++ value.print ++ ")"
  | .augmented name operator value =>
    "(" ++ operator.lexeme ++ " " ++ name.lexeme ++ " " ++ value.print ++ ")"
  | .step operator name => "(" ++ operator.lexeme ++ " " ++ name.lexeme ++ ")"
  | .unary operator operand => "(" ++ operator.lexeme ++ " " ++ operand.print ++ ")"
  | .binary left operator right =>
    "(" ++ operator.lexeme ++ " " ++ left.print ++ " " ++ right.print ++ ")"
  | .logical left operator right =>
    "(" ++ operator.lexeme ++ " " ++ left.print ++ " " ++ right.print ++ ")"
  | .call callee _ args => "(call " ++ callee.print ++ Expr.printArgs args ++ ")"

/-- Arguments, each with a blank in front. -/
def Expr.printArgs : List Expr → Text
  | [] => []
  | e :: es => " " ++ e.print ++ Expr.printArgs es

end

/-- The targets of a deletion, each with a blank in front. -/
def Stmt.printTargets : List Token → Text
  | [] => []
  | t :: ts => " " ++ t.lexeme ++ Stmt.printTargets ts

/-- The blanks in front of a line. -/
def indentation (depth : Nat) : Text := Text.spaces (2 * depth)

mutual

/-- A statement at a level of nesting. -/
def Stmt.print (depth : Nat) : Stmt → Text
  | .expression value => indentation depth ++ "(expr " ++ value.print ++ ")\n"
  | .echo _ value => indentation depth ++ "(echo " ++ value.print ++ ")\n"
  | .giveBack _ none => indentation depth ++ "(return)\n"
  | .giveBack _ (some value) => indentation depth ++ "(return " ++ value.print ++ ")\n"
  | .delete _ targets =>
    indentation depth ++ "(del" ++ Stmt.printTargets targets ++ ")\n"
  | .leave _ => indentation depth ++ "(break)\n"
  | .next _ => indentation depth ++ "(continue)\n"
  | .function name params body =>
    indentation depth ++ "(func " ++ name.lexeme ++ " (" ++
      Text.join " " (params.map Token.lexeme) ++ ")\n" ++
      Stmt.printAll (depth + 1) body ++ indentation depth ++ ")\n"
  | .loop _ condition body =>
    indentation depth ++ "(while " ++ condition.print ++ "\n" ++
      Stmt.printAll (depth + 1) body ++ indentation depth ++ ")\n"
  | .branch _ condition consequent alternate =>
    indentation depth ++ "(if " ++ condition.print ++ "\n" ++
      Stmt.printAll (depth + 1) consequent ++ Stmt.printElse depth alternate ++
      indentation depth ++ ")\n"

/-- Statements one after the other. -/
def Stmt.printAll (depth : Nat) : List Stmt → Text
  | [] => []
  | s :: ss => s.print depth ++ Stmt.printAll depth ss

/-- The else part of a branch, if there is one. -/
def Stmt.printElse (depth : Nat) : Option (List Stmt) → Text
  | none => []
  | some body => indentation depth ++ "else\n" ++ Stmt.printAll (depth + 1) body

end

/-- A program, one statement after the other. -/
def printProgram (p : List Stmt) : Text := Stmt.printAll 0 p

end PocketScript
