import PocketScript.Proofs.Evaluation.Likeness

/-!
# Corresponding programs

What it takes for two programs to run alike.

Removing statements that are never reached and writing a program with other
line breaks both change the tree of a program and nothing that it does. The
arguments are the same: follow the two runs side by side and see that they
stay in step. `Correspondence` keeps what differs between them, which is the
relation on programs, apart from what does not, which is the relation on
everything that programs produce.

A correspondence relates tokens, expressions, statements and lists of
statements, and has to say only what related things look like one level down:
the same form, with related parts. Lists may differ in one way. After a
statement that never ends normally the rest is not looked at, so it need not
be related.

## Main definitions

* `Stmt.Diverts`: A statement never ends normally.
* `ExprCases`, `StmtCases`, `BodyCases`: Related parts of related programs.
* `Correspondence`: A relation between programs that run alike.

## Theorems

* `ExprCases.refl`, `StmtCases.refl`: A program is of its own form.
* `ExprCases.symm`, `StmtCases.symm`: Having one form has no direction.
-/

namespace PocketScript

/-- The statement never ends normally, whatever the session. -/
def Stmt.Diverts (st : Stmt) : Prop := ∀ n here s t, exec n st here s ≠ .ok .normal t

/-- Expressions of one form with related parts. -/
inductive ExprCases (token : Token → Token → Prop) (expr : Expr → Expr → Prop) :
    Expr → Expr → Prop where
  | constant (v : Literal) (p p' : Position) :
      ExprCases token expr (.constant v p) (.constant v p')
  | grouping {e e' : Expr} {p p' : Position} : expr e e' →
      ExprCases token expr (.grouping e p) (.grouping e' p')
  | reference {name name' : Token} : token name name' →
      ExprCases token expr (.reference name) (.reference name')
  | assign {name name' : Token} {e e' : Expr} : token name name' → expr e e' →
      ExprCases token expr (.assign name e) (.assign name' e')
  | augmented {name name' op op' : Token} {e e' : Expr} :
      token name name' → token op op' → expr e e' →
      ExprCases token expr (.augmented name op e) (.augmented name' op' e')
  | step {op op' name name' : Token} : token op op' → token name name' →
      ExprCases token expr (.step op name) (.step op' name')
  | unary {op op' : Token} {e e' : Expr} : token op op' → expr e e' →
      ExprCases token expr (.unary op e) (.unary op' e')
  | binary {l l' r r' : Expr} {op op' : Token} : expr l l' → token op op' → expr r r' →
      ExprCases token expr (.binary l op r) (.binary l' op' r')
  | logical {l l' r r' : Expr} {op op' : Token} : expr l l' → token op op' → expr r r' →
      ExprCases token expr (.logical l op r) (.logical l' op' r')
  | call {f f' : Expr} {paren paren' : Token} {args args' : List Expr} :
      expr f f' → token paren paren' → List.Forall₂ expr args args' →
      ExprCases token expr (.call f paren args) (.call f' paren' args')

/-- Statements of one form with related parts. -/
inductive StmtCases (token : Token → Token → Prop) (expr : Expr → Expr → Prop)
    (body : List Stmt → List Stmt → Prop) : Stmt → Stmt → Prop where
  | function {name name' : Token} {params params' : List Token} {b b' : List Stmt} :
      token name name' → List.Forall₂ token params params' → body b b' →
      StmtCases token expr body (.function name params b) (.function name' params' b')
  | giveBackNothing {k k' : Token} : token k k' →
      StmtCases token expr body (.giveBack k none) (.giveBack k' none)
  | giveBack {k k' : Token} {e e' : Expr} : token k k' → expr e e' →
      StmtCases token expr body (.giveBack k (some e)) (.giveBack k' (some e'))
  | delete {k k' : Token} {targets targets' : List Token} : List.Forall₂ token targets targets' →
      StmtCases token expr body (.delete k targets) (.delete k' targets')
  | loop {k k' : Token} {e e' : Expr} {b b' : List Stmt} : expr e e' → body b b' →
      StmtCases token expr body (.loop k e b) (.loop k' e' b')
  | branch {k k' : Token} {e e' : Expr} {b b' : List Stmt} : expr e e' → body b b' →
      StmtCases token expr body (.branch k e b none) (.branch k' e' b' none)
  | branchElse {k k' : Token} {e e' : Expr} {b b' c c' : List Stmt} :
      expr e e' → body b b' → body c c' →
      StmtCases token expr body (.branch k e b (some c)) (.branch k' e' b' (some c'))
  | expression {e e' : Expr} : expr e e' →
      StmtCases token expr body (.expression e) (.expression e')
  | echo {k k' : Token} {e e' : Expr} : expr e e' →
      StmtCases token expr body (.echo k e) (.echo k' e')
  | leave {k k' : Token} : token k k' → StmtCases token expr body (.leave k) (.leave k')
  | next {k k' : Token} : token k k' → StmtCases token expr body (.next k) (.next k')

/-- Lists of related statements. What follows a statement that never ends
    normally does not count. -/
inductive BodyCases (stmt : Stmt → Stmt → Prop) (body : List Stmt → List Stmt → Prop) :
    List Stmt → List Stmt → Prop where
  | nil : BodyCases stmt body [] []
  | cons {st st' : Stmt} {rest rest' : List Stmt} : stmt st st' → body rest rest' ∨ st.Diverts →
      BodyCases stmt body (st :: rest) (st' :: rest')

section

variable {token : Token → Token → Prop} {expr : Expr → Expr → Prop}
  {body : List Stmt → List Stmt → Prop}

theorem ExprCases.refl (htoken : ∀ t, token t t) (hexpr : ∀ e, expr e e) (e : Expr) :
    ExprCases token expr e e := by
  cases e with
  | constant v p => exact .constant v p p
  | grouping e p => exact .grouping (hexpr e)
  | reference t => exact .reference (htoken t)
  | assign t e => exact .assign (htoken t) (hexpr e)
  | augmented t op e => exact .augmented (htoken t) (htoken op) (hexpr e)
  | step op t => exact .step (htoken op) (htoken t)
  | unary op e => exact .unary (htoken op) (hexpr e)
  | binary l op r => exact .binary (hexpr l) (htoken op) (hexpr r)
  | logical l op r => exact .logical (hexpr l) (htoken op) (hexpr r)
  | call f paren args =>
      exact .call (hexpr f) (htoken paren) (List.forall₂_same.mpr fun e _ => hexpr e)

theorem StmtCases.refl (htoken : ∀ t, token t t) (hexpr : ∀ e, expr e e) (hbody : ∀ b, body b b)
    (st : Stmt) : StmtCases token expr body st st := by
  have htokens : ∀ ts : List Token, List.Forall₂ token ts ts :=
    fun ts => List.forall₂_same.mpr fun t _ => htoken t
  cases st with
  | function name params b => exact .function (htoken name) (htokens params) (hbody b)
  | giveBack k value =>
      cases value with
      | none => exact .giveBackNothing (htoken k)
      | some e => exact .giveBack (htoken k) (hexpr e)
  | delete k targets => exact .delete (htokens targets)
  | loop k e b => exact .loop (hexpr e) (hbody b)
  | branch k e b alternate =>
      cases alternate with
      | none => exact .branch (hexpr e) (hbody b)
      | some c => exact .branchElse (hexpr e) (hbody b) (hbody c)
  | expression e => exact .expression (hexpr e)
  | echo k e => exact .echo (hexpr e)
  | leave k => exact .leave (htoken k)
  | next k => exact .next (htoken k)

theorem ExprCases.symm (htoken : ∀ {t t'}, token t t' → token t' t)
    (hexpr : ∀ {e e'}, expr e e' → expr e' e) {e e' : Expr} (h : ExprCases token expr e e') :
    ExprCases token expr e' e := by
  cases h with
  | constant v p p' => exact .constant v p' p
  | grouping he => exact .grouping (hexpr he)
  | reference ht => exact .reference (htoken ht)
  | assign ht he => exact .assign (htoken ht) (hexpr he)
  | augmented ht hop he => exact .augmented (htoken ht) (htoken hop) (hexpr he)
  | step hop ht => exact .step (htoken hop) (htoken ht)
  | unary hop he => exact .unary (htoken hop) (hexpr he)
  | binary hl hop hr => exact .binary (hexpr hl) (htoken hop) (hexpr hr)
  | logical hl hop hr => exact .logical (hexpr hl) (htoken hop) (hexpr hr)
  | call hf hparen hargs => exact .call (hexpr hf) (htoken hparen) (hargs.flip.imp fun _ _ => hexpr)

theorem StmtCases.symm (htoken : ∀ {t t'}, token t t' → token t' t)
    (hexpr : ∀ {e e'}, expr e e' → expr e' e) (hbody : ∀ {b b'}, body b b' → body b' b)
    {st st' : Stmt} (h : StmtCases token expr body st st') : StmtCases token expr body st' st := by
  cases h with
  | function hname hparams hb =>
      exact .function (htoken hname) (hparams.flip.imp fun _ _ => htoken) (hbody hb)
  | giveBackNothing hk => exact .giveBackNothing (htoken hk)
  | giveBack hk he => exact .giveBack (htoken hk) (hexpr he)
  | delete htargets => exact .delete (htargets.flip.imp fun _ _ => htoken)
  | loop he hb => exact .loop (hexpr he) (hbody hb)
  | branch he hb => exact .branch (hexpr he) (hbody hb)
  | branchElse he hb hc => exact .branchElse (hexpr he) (hbody hb) (hbody hc)
  | expression he => exact .expression (hexpr he)
  | echo he => exact .echo (hexpr he)
  | leave hk => exact .leave (htoken hk)
  | next hk => exact .next (htoken hk)

end

/-- A relation between programs that run alike. -/
structure Correspondence extends Likeness where
  expr : Expr → Expr → Prop
  stmt : Stmt → Stmt → Prop
  expr_cases : ∀ {e e' : Expr}, expr e e' → ExprCases token expr e e'
  stmt_cases : ∀ {st st' : Stmt}, stmt st st' → StmtCases token expr body st st'
  body_cases : ∀ {b b' : List Stmt}, body b b' → BodyCases stmt body b b'

end PocketScript
