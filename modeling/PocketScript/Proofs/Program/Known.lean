import PocketScript.Proofs.Parser.Exact
import PocketScript.Value.Operators

/-!
# Operators and names of a program

Trees keep operators and names as tokens, and a token can be of any kind. A tree that
was parsed keeps an operator where one is wanted, of those that belong there, and an
identifier where a name is wanted. That goes for trees of any tokens, also of tokens
that no source is scanned to: the parser looks at the kind before it takes a token.

A tree has these tokens wherever such a form stands in it, so what is said is said of
all expressions and statements of a tree, of those in the bodies of functions too.

## Main definitions

* `Expr.Every`, `Stmt.Every`: All expressions and statements of a tree are of some sort.
* `Expr.Known`, `Stmt.Known`: The operators and names of a form are what they have to be.

## Theorems

* `Grammar.Derives.known`: So they are wherever a form is derived from tokens.
* `Stmt.known_of_parse`: So they are in every program that is parsed.
-/

namespace PocketScript

section

variable (A : Expr → Prop) (B : Stmt → Prop)

mutual

/-- An expression and all expressions in it are of the sort. -/
def Expr.Every : Expr → Prop
  | .constant value pos => A (.constant value pos)
  | .grouping inner pos => A (.grouping inner pos) ∧ inner.Every
  | .reference name => A (.reference name)
  | .assign name value => A (.assign name value) ∧ value.Every
  | .augmented name operator value => A (.augmented name operator value) ∧ value.Every
  | .step operator name => A (.step operator name)
  | .unary operator operand => A (.unary operator operand) ∧ operand.Every
  | .binary left operator right => A (.binary left operator right) ∧ left.Every ∧ right.Every
  | .logical left operator right => A (.logical left operator right) ∧ left.Every ∧ right.Every
  | .call callee paren args => A (.call callee paren args) ∧ callee.Every ∧ Expr.EveryAll args

/-- Expressions and all expressions in them are of the sort. -/
def Expr.EveryAll : List Expr → Prop
  | [] => True
  | e :: es => e.Every ∧ Expr.EveryAll es

end

mutual

/-- A statement and all statements and expressions in it are of their sorts. -/
def Stmt.Every : Stmt → Prop
  | .function name params body => B (.function name params body) ∧ Stmt.EveryAll body
  | .giveBack keyword none => B (.giveBack keyword none)
  | .giveBack keyword (some value) => B (.giveBack keyword (some value)) ∧ value.Every A
  | .delete keyword targets => B (.delete keyword targets)
  | .loop keyword condition body =>
    B (.loop keyword condition body) ∧ condition.Every A ∧ Stmt.EveryAll body
  | .branch keyword condition consequent alternate =>
    B (.branch keyword condition consequent alternate) ∧ condition.Every A ∧
      Stmt.EveryAll consequent ∧ Stmt.EveryElse alternate
  | .expression value => B (.expression value) ∧ value.Every A
  | .echo keyword value => B (.echo keyword value) ∧ value.Every A
  | .leave keyword => B (.leave keyword)
  | .next keyword => B (.next keyword)

/-- Statements and all statements and expressions in them are of their sorts. -/
def Stmt.EveryAll : List Stmt → Prop
  | [] => True
  | st :: rest => st.Every ∧ Stmt.EveryAll rest

/-- The same for an else part. -/
def Stmt.EveryElse : Option (List Stmt) → Prop
  | none => True
  | some body => Stmt.EveryAll body

end

end

/-- The operator and the name of an expression are of the kinds that its form is for. -/
def Expr.Known : Expr → Prop
  | .assign name _ => name.kind = .identifier
  | .augmented name operator _ =>
    name.kind = .identifier ∧ operator.kind.underlying?.isSome = true
  | .step operator name => name.kind = .identifier ∧ operator.kind ∈ [Kind.increment, .decrement]
  | .unary operator _ => operator.kind ∈ [Kind.bang, .minus, .plus]
  | .binary _ operator _ =>
    operator.kind ∈ [Kind.equal, .notEqual, .less, .lessEqual, .greater, .greaterEqual, .plus,
      .minus, .star, .slash, .percent]
  | .logical _ operator _ => operator.kind ∈ [Kind.both, .either]
  | _ => True

/-- The names of a statement are identifiers. -/
def Stmt.Known : Stmt → Prop
  | .function name params _ => ∀ t ∈ name :: params, t.kind = .identifier
  | .delete _ targets => ∀ t ∈ targets, t.kind = .identifier
  | _ => True

namespace Grammar

/-- Everything in a tree is known, of whatever form it is. -/
def Form.Known : (f : Form) → f.Tree → Prop
  | assignment, e => e.Every Expr.Known
  | chain _, e => e.Every Expr.Known
  | operand _, e => e.Every Expr.Known
  | unary, e => e.Every Expr.Known
  | prefixed, e => e.Every Expr.Known
  | called, e => e.Every Expr.Known
  | suffixed, e => e.Every Expr.Known
  | primary, e => e.Every Expr.Known
  | arguments, es => Expr.EveryAll Expr.Known es
  | listed, es => Expr.EveryAll Expr.Known es
  | parameters, ts => ∀ t ∈ ts, t.kind = .identifier
  | named, ts => ∀ t ∈ ts, t.kind = .identifier
  | statement, st => st.Every Expr.Known Stmt.Known
  | conditional, st => st.Every Expr.Known Stmt.Known
  | block, b => Stmt.EveryAll Expr.Known Stmt.Known b
  | statements, b => Stmt.EveryAll Expr.Known Stmt.Known b

/-- Everything in a tree is known that is derived from tokens. -/
theorem Derives.known {f : Form} {ts : List Token} {tree : f.Tree} (h : Derives f ts tree) :
    f.Known tree := by
  induction h with
  | value _ ih => exact ih
  | assign hname _ _ ih => exact ⟨hname, ih⟩
  | augmented hname hop _ ih =>
      have hall : ∀ k ∈ [Kind.plusAssign, .minusAssign, .starAssign, .slashAssign, .percentAssign],
          k.underlying?.isSome = true := by decide
      exact ⟨⟨hname, hall _ hop⟩, ih⟩
  | single _ ih => exact ih
  | logical hrung _ hjoins _ ihl ihr => exact ⟨hjoins.mem_logical hrung, ihl, ihr⟩
  | binary heither hboth _ hjoins _ ihl ihr =>
      exact ⟨hjoins.mem_joiners heither hboth, ihl, ihr⟩
  | tighter _ _ ih => exact ih
  | tightest _ ih => exact ih
  | sign hop _ ih => exact ⟨hop, ih⟩
  | unsigned _ ih => exact ih
  | stepBefore hop hname => exact ⟨hname, hop⟩
  | unstepped _ ih => exact ih
  | callee _ ih => exact ih
  | call _ _ _ _ ihf ihargs => exact ⟨trivial, ihf, ihargs⟩
  | noArguments => trivial
  | someArguments _ ih => exact ih
  | lastExpression _ ih => exact ⟨ih, trivial⟩
  | nextExpression _ _ _ ih ihs => exact ⟨ih, ihs⟩
  | stepAfter hop hname => exact ⟨hname, hop⟩
  | bare _ ih => exact ih
  | constant _ => trivial
  | name _ => trivial
  | grouping _ _ _ ih => exact ⟨trivial, ih⟩
  | noParameters => exact fun _ hmem => absurd hmem List.not_mem_nil
  | someParameters _ ih => exact ih
  | lastName hname => exact List.forall_mem_singleton.mpr hname
  | nextName hname _ _ ih => exact List.forall_mem_cons.mpr ⟨hname, ih⟩
  | function _ hname _ _ _ _ ihparams ihbody =>
      exact ⟨List.forall_mem_cons.mpr ⟨hname, ihparams⟩, ihbody⟩
  | giveBackNothing _ _ => trivial
  | giveBack _ _ _ ih => exact ⟨trivial, ih⟩
  | delete _ _ _ ih => exact ih
  | loop _ _ _ ih ihbody => exact ⟨trivial, ih, ihbody⟩
  | conditional _ ih => exact ih
  | branch _ _ _ ih ihbody => exact ⟨trivial, ih, ihbody, trivial⟩
  | branchElse _ _ _ _ _ ih ihbody ihelse => exact ⟨trivial, ih, ihbody, ihelse⟩
  | branchElseIf _ _ _ _ _ ih ihbody ihnested => exact ⟨trivial, ih, ihbody, ihnested, trivial⟩
  | echo _ _ _ ih => exact ⟨trivial, ih⟩
  | leave _ _ => trivial
  | next _ _ => trivial
  | expression _ _ ih => exact ⟨trivial, ih⟩
  | block _ _ _ ih => exact ih
  | noStatements => trivial
  | nextStatement _ _ ih ihs => exact ⟨ih, ihs⟩

end Grammar

/-- Everything in a parsed program is known. -/
theorem Stmt.known_of_parse {ts : List Token} {p : List Stmt} (h : (parse ts).outcome = .ok p) :
    Stmt.EveryAll Expr.Known Stmt.Known p := ((parse_eq_ok_iff ts p).mp h).known

end PocketScript
