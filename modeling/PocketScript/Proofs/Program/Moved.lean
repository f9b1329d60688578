import Mathlib.Data.List.Forall2
import PocketScript.Proofs.Grammar

/-!
# Programs at other positions

Moving the tokens of a program moves its tree and changes nothing else.

The grammar looks at the kinds of tokens only, so it derives the moved tree
from the moved tokens, whatever the moving does to positions
(`Derives.moved`). It may well put all tokens in one place: `unplaced` does,
and two programs are the same up to positions if unplaced they are equal.

## Main definitions

* `Token.moved`, `Expr.moved`, `Stmt.moved`: Tokens and trees at other
  positions.
* `unplaced`: The position that stands for none.

## Theorems

* `Stmt.movedAll_movedAll`: Moving twice.
* `Grammar.Derives.moved`: Moved tokens derive the moved tree.
* `Grammar.Derives.append`: Two programs in a row.
-/

namespace PocketScript

/-- A token at another position. -/
def Token.moved (f : Position → Position) (t : Token) : Token := { t with pos := f t.pos }

mutual

/-- An expression at other positions. -/
def Expr.moved (f : Position → Position) : Expr → Expr
  | .constant value pos => .constant value (f pos)
  | .grouping inner pos => .grouping (inner.moved f) (f pos)
  | .reference name => .reference (name.moved f)
  | .assign name value => .assign (name.moved f) (value.moved f)
  | .augmented name operator value =>
    .augmented (name.moved f) (operator.moved f) (value.moved f)
  | .step operator name => .step (operator.moved f) (name.moved f)
  | .unary operator operand => .unary (operator.moved f) (operand.moved f)
  | .binary left operator right => .binary (left.moved f) (operator.moved f) (right.moved f)
  | .logical left operator right => .logical (left.moved f) (operator.moved f) (right.moved f)
  | .call callee paren args => .call (callee.moved f) (paren.moved f) (Expr.movedAll f args)

/-- Expressions at other positions. -/
def Expr.movedAll (f : Position → Position) : List Expr → List Expr
  | [] => []
  | e :: es => e.moved f :: Expr.movedAll f es

end

mutual

/-- A statement at other positions. -/
def Stmt.moved (f : Position → Position) : Stmt → Stmt
  | .function name params body =>
    .function (name.moved f) (params.map (Token.moved f)) (Stmt.movedAll f body)
  | .giveBack keyword value => .giveBack (keyword.moved f) (value.map (Expr.moved f))
  | .delete keyword targets => .delete (keyword.moved f) (targets.map (Token.moved f))
  | .loop keyword condition body =>
    .loop (keyword.moved f) (condition.moved f) (Stmt.movedAll f body)
  | .branch keyword condition consequent alternate =>
    .branch (keyword.moved f) (condition.moved f) (Stmt.movedAll f consequent)
      (Stmt.movedElse f alternate)
  | .expression value => .expression (value.moved f)
  | .echo keyword value => .echo (keyword.moved f) (value.moved f)
  | .leave keyword => .leave (keyword.moved f)
  | .next keyword => .next (keyword.moved f)

/-- Statements at other positions. -/
def Stmt.movedAll (f : Position → Position) : List Stmt → List Stmt
  | [] => []
  | st :: rest => st.moved f :: Stmt.movedAll f rest

/-- An else part at other positions. -/
def Stmt.movedElse (f : Position → Position) : Option (List Stmt) → Option (List Stmt)
  | none => none
  | some body => some (Stmt.movedAll f body)

end

/-- The position of everything whose position does not count. -/
def unplaced : Position → Position := fun _ => .start

theorem Expr.movedAll_eq_map (f : Position → Position) (es : List Expr) :
    Expr.movedAll f es = es.map (Expr.moved f) := by
  induction es with
  | nil => rw [Expr.movedAll]; rfl
  | cons e es ih => rw [Expr.movedAll, ih, List.map_cons]

theorem Stmt.movedAll_append (f : Position → Position) (b c : List Stmt) :
    Stmt.movedAll f (b ++ c) = Stmt.movedAll f b ++ Stmt.movedAll f c := by
  induction b with
  | nil => rw [Stmt.movedAll]; rfl
  | cons st b ih => rw [List.cons_append, Stmt.movedAll, Stmt.movedAll, ih, List.cons_append]

section

variable (f g : Position → Position)

theorem Token.moved_moved (t : Token) : (t.moved f).moved g = t.moved (g ∘ f) := rfl

theorem Token.map_moved_moved (ts : List Token) :
    (ts.map (Token.moved f)).map (Token.moved g) = ts.map (Token.moved (g ∘ f)) := by
  rw [List.map_map]
  rfl

mutual

theorem Expr.moved_moved : ∀ e : Expr, (e.moved f).moved g = e.moved (g ∘ f)
  | .constant _ _ => by simp only [Expr.moved, Function.comp_apply]
  | .grouping inner _ => by simp only [Expr.moved, Expr.moved_moved inner, Function.comp_apply]
  | .reference _ => by simp only [Expr.moved, Token.moved_moved]
  | .assign _ value => by simp only [Expr.moved, Token.moved_moved, Expr.moved_moved value]
  | .augmented _ _ value => by simp only [Expr.moved, Token.moved_moved, Expr.moved_moved value]
  | .step _ _ => by simp only [Expr.moved, Token.moved_moved]
  | .unary _ operand => by simp only [Expr.moved, Token.moved_moved, Expr.moved_moved operand]
  | .binary left _ right => by
      simp only [Expr.moved, Token.moved_moved, Expr.moved_moved left, Expr.moved_moved right]
  | .logical left _ right => by
      simp only [Expr.moved, Token.moved_moved, Expr.moved_moved left, Expr.moved_moved right]
  | .call callee _ args => by
      simp only [Expr.moved, Token.moved_moved, Expr.moved_moved callee,
        Expr.movedAll_movedAll args]

theorem Expr.movedAll_movedAll : ∀ es : List Expr,
    Expr.movedAll g (Expr.movedAll f es) = Expr.movedAll (g ∘ f) es
  | [] => by simp only [Expr.movedAll]
  | e :: es => by simp only [Expr.movedAll, Expr.moved_moved e, Expr.movedAll_movedAll es]

end

mutual

theorem Stmt.moved_moved : ∀ st : Stmt, (st.moved f).moved g = st.moved (g ∘ f)
  | .function _ params body => by
      simp only [Stmt.moved, Token.moved_moved, Token.map_moved_moved f g params,
        Stmt.movedAll_movedAll body]
  | .giveBack _ value => by
      cases value <;> simp [Stmt.moved, Token.moved_moved, Expr.moved_moved]
  | .delete _ targets => by
      simp only [Stmt.moved, Token.moved_moved, Token.map_moved_moved f g targets]
  | .loop _ condition body => by
      simp only [Stmt.moved, Token.moved_moved, Expr.moved_moved f g condition,
        Stmt.movedAll_movedAll body]
  | .branch _ condition consequent alternate => by
      simp only [Stmt.moved, Token.moved_moved, Expr.moved_moved f g condition,
        Stmt.movedAll_movedAll consequent, Stmt.movedElse_movedElse alternate]
  | .expression value => by simp only [Stmt.moved, Expr.moved_moved f g value]
  | .echo _ value => by simp only [Stmt.moved, Token.moved_moved, Expr.moved_moved f g value]
  | .leave _ => by simp only [Stmt.moved, Token.moved_moved]
  | .next _ => by simp only [Stmt.moved, Token.moved_moved]

theorem Stmt.movedAll_movedAll : ∀ b : List Stmt,
    Stmt.movedAll g (Stmt.movedAll f b) = Stmt.movedAll (g ∘ f) b
  | [] => by simp only [Stmt.movedAll]
  | st :: rest => by
      simp only [Stmt.movedAll, Stmt.moved_moved st, Stmt.movedAll_movedAll rest]

theorem Stmt.movedElse_movedElse : ∀ alternate : Option (List Stmt),
    Stmt.movedElse g (Stmt.movedElse f alternate) = Stmt.movedElse (g ∘ f) alternate
  | none => by simp only [Stmt.movedElse]
  | some body => by simp only [Stmt.movedElse, Stmt.movedAll_movedAll body]

end

end

namespace Grammar

/-- The meaning of a form at other positions. -/
def Form.moved (f : Position → Position) : (form : Form) → form.Tree → form.Tree
  | .assignment, e => Expr.moved f e
  | .chain _, e => Expr.moved f e
  | .operand _, e => Expr.moved f e
  | .unary, e => Expr.moved f e
  | .prefixed, e => Expr.moved f e
  | .called, e => Expr.moved f e
  | .suffixed, e => Expr.moved f e
  | .primary, e => Expr.moved f e
  | .arguments, es => Expr.movedAll f es
  | .listed, es => Expr.movedAll f es
  | .parameters, ts => List.map (Token.moved f) ts
  | .named, ts => List.map (Token.moved f) ts
  | .statement, st => Stmt.moved f st
  | .conditional, st => Stmt.moved f st
  | .block, b => Stmt.movedAll f b
  | .statements, b => Stmt.movedAll f b

/-- Moved tokens derive the moved tree. -/
theorem Derives.moved (f : Position → Position) {form : Form} {ts : List Token} {tree : form.Tree}
    (h : Derives form ts tree) : Derives form (ts.map (Token.moved f)) (form.moved f tree) := by
  -- Moving a token keeps its kind, so each rule applies as it did.
  induction h with
  | value _ ih => exact .value ih
  | assign hname hop _ ih =>
      simp only [List.map_cons, Form.moved, Expr.moved]
      exact .assign hname hop ih
  | augmented hname hop _ ih =>
      simp only [List.map_cons, Form.moved, Expr.moved]
      exact .augmented hname hop ih
  | single _ ih => exact .single ih
  | logical hrung _ hop _ ihl ihr =>
      simp only [List.map_append, List.map_cons, Form.moved, Expr.moved]
      exact .logical hrung ihl hop ihr
  | binary heither hboth _ hop _ ihl ihr =>
      simp only [List.map_append, List.map_cons, Form.moved, Expr.moved]
      exact .binary heither hboth ihl hop ihr
  | tighter hnext _ ih => exact .tighter hnext ih
  | tightest _ ih => exact .tightest ih
  | sign hop _ ih =>
      simp only [List.map_cons, Form.moved, Expr.moved]
      exact .sign hop ih
  | unsigned _ ih => exact .unsigned ih
  | stepBefore hop hname =>
      simp only [List.map_cons, List.map_nil, Form.moved, Expr.moved]
      exact .stepBefore hop hname
  | unstepped _ ih => exact .unstepped ih
  | callee _ ih => exact .callee ih
  | call _ hleft _ hright ihf ihargs =>
      simp only [List.map_append, List.map_cons, List.map_nil, Form.moved, Expr.moved]
      exact .call ihf hleft ihargs hright
  | noArguments =>
      simp only [List.map_nil, Form.moved, Expr.movedAll]
      exact .noArguments
  | someArguments _ ih => exact .someArguments ih
  | lastExpression _ ih =>
      simp only [Form.moved, Expr.movedAll]
      exact .lastExpression ih
  | nextExpression _ hcomma _ ihe ihes =>
      simp only [List.map_append, List.map_cons, Form.moved, Expr.movedAll]
      exact .nextExpression ihe hcomma ihes
  | stepAfter hop hname =>
      simp only [List.map_cons, List.map_nil, Form.moved, Expr.moved]
      exact .stepAfter hop hname
  | bare _ ih => exact .bare ih
  | @constant t l hl =>
      simp only [List.map_cons, List.map_nil, Form.moved, Expr.moved]
      exact .constant (t := t.moved f) hl
  | name hkind =>
      simp only [List.map_cons, List.map_nil, Form.moved, Expr.moved]
      exact .name hkind
  | @grouping ts e left right hleft _ hright ih =>
      simp only [List.map_append, List.map_cons, List.map_nil, Form.moved, Expr.moved]
      -- A grouping has no token of its own and takes the position of its
      -- parenthesis.
      have hgrouping : Derives .primary (left.moved f :: (ts.map (Token.moved f) ++ [right.moved f]))
          (Expr.grouping (e.moved f) (left.moved f).pos) := .grouping hleft ih hright
      exact hgrouping
  | noParameters => exact .noParameters
  | someParameters _ ih => exact .someParameters ih
  | lastName hkind => exact .lastName hkind
  | nextName hkind hcomma _ ih => exact .nextName hkind hcomma ih
  | function hkeyword hname hleft _ hright _ ihparams ihbody =>
      simp only [List.map_append, List.map_cons, Form.moved, Stmt.moved]
      exact .function hkeyword hname hleft ihparams hright ihbody
  | giveBackNothing hkeyword hsemicolon =>
      simp only [List.map_cons, List.map_nil, Form.moved, Stmt.moved]
      exact .giveBackNothing hkeyword hsemicolon
  | giveBack hkeyword _ hsemicolon ih =>
      simp only [List.map_append, List.map_cons, List.map_nil, Form.moved, Stmt.moved]
      exact .giveBack hkeyword ih hsemicolon
  | delete hkeyword _ hsemicolon ih =>
      simp only [List.map_append, List.map_cons, List.map_nil, Form.moved, Stmt.moved]
      exact .delete hkeyword ih hsemicolon
  | loop hkeyword _ _ ihe ihb =>
      simp only [List.map_append, List.map_cons, Form.moved, Stmt.moved]
      exact .loop hkeyword ihe ihb
  | conditional _ ih => exact .conditional ih
  | branch hkeyword _ _ ihe ihb =>
      simp only [List.map_append, List.map_cons, Form.moved, Stmt.moved, Stmt.movedElse]
      exact .branch hkeyword ihe ihb
  | branchElse hkeyword _ _ helse _ ihe ihb ihc =>
      simp only [List.map_append, List.map_cons, Form.moved, Stmt.moved, Stmt.movedElse]
      exact .branchElse hkeyword ihe ihb helse ihc
  | branchElseIf hkeyword _ _ helse _ ihe ihb ihc =>
      simp only [List.map_append, List.map_cons, Form.moved, Stmt.moved, Stmt.movedElse,
        Stmt.movedAll]
      exact .branchElseIf hkeyword ihe ihb helse ihc
  | echo hkeyword _ hsemicolon ih =>
      simp only [List.map_append, List.map_cons, List.map_nil, Form.moved, Stmt.moved]
      exact .echo hkeyword ih hsemicolon
  | leave hkeyword hsemicolon =>
      simp only [List.map_cons, List.map_nil, Form.moved, Stmt.moved]
      exact .leave hkeyword hsemicolon
  | next hkeyword hsemicolon =>
      simp only [List.map_cons, List.map_nil, Form.moved, Stmt.moved]
      exact .next hkeyword hsemicolon
  | expression _ hsemicolon ih =>
      simp only [List.map_append, List.map_cons, List.map_nil, Form.moved, Stmt.moved]
      exact .expression ih hsemicolon
  | block hleft _ hright ih =>
      simp only [List.map_append, List.map_cons, List.map_nil, Form.moved]
      exact .block hleft ih hright
  | noStatements =>
      simp only [List.map_nil, Form.moved, Stmt.movedAll]
      exact .noStatements
  | nextStatement _ _ ihst ihrest =>
      simp only [List.map_append, Form.moved, Stmt.movedAll]
      exact .nextStatement ihst ihrest

/-- Two programs in a row are a program. An else cannot start the second, so
    nothing of it is taken for a part of the first. -/
theorem Derives.append {ts us : List Token} {p q : List Stmt} (hp : Derives .statements ts p)
    (hq : Derives .statements us q) : Derives .statements (ts ++ us) (p ++ q) := by
  induction p generalizing ts with
  | nil =>
      cases hp
      exact hq
  | cons st p ih =>
      cases hp with
      | nextStatement hst hrest =>
          rw [List.append_assoc]
          exact .nextStatement hst (ih hrest)

end Grammar

end PocketScript
