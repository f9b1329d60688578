import PocketScript.Program.Tree

/-!
# Outlines

The forms of a program in the order they are met when walking down the tree,
each before its parts.

## Main definitions

* `Landmark`: A form with its position, or the start of an else part.
* `outline`: The landmarks of a program.
-/

namespace PocketScript

/-- A form with its position, or the start of an else part with the number of
    its statements. -/
inductive Landmark where
  | form (name : Text) (pos : Position)
  | otherwise (count : Nat)
deriving Repr, DecidableEq

mutual

/-- The landmarks of an expression. -/
def Expr.outline : Expr → List Landmark
  | .constant _ p => [.form "Constant" p]
  | .grouping inner p => .form "Grouping" p :: inner.outline
  | .reference name => [.form "Variable" name.pos]
  | .assign name value => .form "Assign" name.pos :: value.outline
  | .augmented name _ value => .form "AugAssign" name.pos :: value.outline
  | .step operator _ => [.form "Prefix" operator.pos]
  | .unary operator operand => .form "Unary" operator.pos :: operand.outline
  | .binary left operator right =>
    .form "Binary" operator.pos :: (left.outline ++ right.outline)
  | .logical left operator right =>
    .form "Logical" operator.pos :: (left.outline ++ right.outline)
  | .call callee paren args => .form "Call" paren.pos :: (callee.outline ++ Expr.outlineAll args)

/-- The landmarks of expressions one after the other. -/
def Expr.outlineAll : List Expr → List Landmark
  | [] => []
  | e :: es => e.outline ++ Expr.outlineAll es

end

mutual

/-- The landmarks of a statement. -/
def Stmt.outline : Stmt → List Landmark
  | .function name _ body => .form "Function" name.pos :: Stmt.outlineAll body
  | .giveBack keyword none => [.form "Return" keyword.pos]
  | .giveBack keyword (some value) => .form "Return" keyword.pos :: value.outline
  | .delete keyword _ => [.form "Delete" keyword.pos]
  | .loop keyword condition body =>
    .form "While" keyword.pos :: (condition.outline ++ Stmt.outlineAll body)
  | .branch keyword condition consequent alternate =>
    .form "If" keyword.pos ::
      (condition.outline ++ Stmt.outlineAll consequent ++ Stmt.outlineElse alternate)
  | .expression value => .form "Expr" value.pos :: value.outline
  | .echo keyword value => .form "Echo" keyword.pos :: value.outline
  | .leave keyword => [.form "Break" keyword.pos]
  | .next keyword => [.form "Continue" keyword.pos]

/-- The landmarks of statements one after the other. -/
def Stmt.outlineAll : List Stmt → List Landmark
  | [] => []
  | s :: ss => s.outline ++ Stmt.outlineAll ss

/-- The landmarks of an else part. -/
def Stmt.outlineElse : Option (List Stmt) → List Landmark
  | none => []
  | some body => .otherwise body.length :: Stmt.outlineAll body

end

/-- The landmarks of a program. -/
def outline (p : List Stmt) : List Landmark := Stmt.outlineAll p

end PocketScript
