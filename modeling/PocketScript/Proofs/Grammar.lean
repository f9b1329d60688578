import PocketScript.Program.Parser

/-!
# The grammar

What it means for tokens to write a program, said without a parser.

`Derives form ts tree` holds when the tokens `ts`, all of them, are one
occurrence of a form and `tree` is what they mean. Each constructor is a
production. There is no lookahead, no order in which productions are tried and
no counter: a chain of operators is left recursive, which is what makes it
associate to the left, and an assignment is right recursive.

The targets of assignments and of steps are names. The productions say so by
asking for a single token that is an identifier, so a name in parentheses or
a call in that place derives nothing.

A constant is written by a single token, and what the token says is a matter of its
kind and of the value it carries (`Denotes`).

Two facts about the grammar alone are needed to follow it with a parser. A
form starts with a token that tells it apart from what could stand in its
place (`Derives.starts`), and a tree that is a bare name was written as a
single identifier (`Derives.reference`), which is why a parser may read an
operand first and look at it afterwards.

## Main definitions

* `Grammar.Form`, `Grammar.Form.Tree`: The forms and what they mean.
* `Grammar.Denotes`: The constants that tokens write.
* `Grammar.Derives`: The productions.
* `Grammar.Form.starters`: The kinds that a form can start with.

## Theorems

* `Grammar.denotes_iff`: What a token writes is what the parser takes it for.
* `Grammar.Derives.starts`: Every form starts with one of its starters.
* `Grammar.Derives.reference`: A bare name is a single token.
-/

namespace PocketScript

namespace Grammar

/-- The forms of the language. `listed` are expressions with commas between
    them, at least one, and `named` are names with commas between them. -/
inductive Form where
  | assignment
  | chain (rung : Rung)
  | operand (rung : Rung)
  | unary
  | prefixed
  | called
  | suffixed
  | primary
  | arguments
  | listed
  | parameters
  | named
  | statement
  | conditional
  | block
  | statements
deriving DecidableEq

/-- What an occurrence of a form means. -/
@[reducible] def Form.Tree : Form → Type
  | assignment => Expr
  | chain _ => Expr
  | operand _ => Expr
  | unary => Expr
  | prefixed => Expr
  | called => Expr
  | suffixed => Expr
  | primary => Expr
  | arguments => List Expr
  | listed => List Expr
  | parameters => List Token
  | named => List Token
  | statement => Stmt
  | conditional => Stmt
  | block => List Stmt
  | statements => List Stmt

/-- The operators that join the operands of each rung. -/
inductive Joins : Rung → Kind → Prop where
  | or : Joins .either .either
  | and : Joins .both .both
  | equal : Joins .equality .equal
  | notEqual : Joins .equality .notEqual
  | less : Joins .comparison .less
  | lessEqual : Joins .comparison .lessEqual
  | greater : Joins .comparison .greater
  | greaterEqual : Joins .comparison .greaterEqual
  | plus : Joins .term .plus
  | minus : Joins .term .minus
  | star : Joins .factor .star
  | slash : Joins .factor .slash
  | percent : Joins .factor .percent

/-- The rung that the operands of a rung stand on. A factor has none: its
    operands are unary expressions. -/
inductive Tighter : Rung → Rung → Prop where
  | and : Tighter .either .both
  | equality : Tighter .both .equality
  | comparison : Tighter .equality .comparison
  | term : Tighter .comparison .term
  | factor : Tighter .term .factor

/-- The constants that tokens of a kind write. A token that carries a value writes that
    value. One that carries none writes what its word says, and as a string or a number
    the empty string or zero. -/
inductive Denotes : Kind → Option Literal → Literal → Prop where
  | carried {k : Kind} {l : Literal} :
      k ∈ [Kind.trueWord, .falseWord, .nullWord, .number, .string] → Denotes k (some l) l
  | trueWord : Denotes .trueWord none (.bool true)
  | falseWord : Denotes .falseWord none (.bool false)
  | nullWord : Denotes .nullWord none .null
  | emptyString : Denotes .string none (.string [])
  | zero : Denotes .number none (.number 0)

/-- The productions. -/
inductive Derives : (form : Form) → List Token → form.Tree → Prop where
  -- assignment := or | IDENT "=" assignment | IDENT ("+=" | ...) assignment
  | value {ts : List Token} {e : Expr} :
      Derives (.chain .either) ts e → Derives .assignment ts e
  | assign {name op : Token} {ts : List Token} {e : Expr} :
      name.kind = .identifier → op.kind = .assign → Derives .assignment ts e →
      Derives .assignment (name :: op :: ts) (Expr.assign name e)
  | augmented {name op : Token} {ts : List Token} {e : Expr} :
      name.kind = .identifier →
      op.kind ∈ [Kind.plusAssign, .minusAssign, .starAssign, .slashAssign, .percentAssign] →
      Derives .assignment ts e →
      Derives .assignment (name :: op :: ts) (Expr.augmented name op e)
  -- or := and ("||" and)*, and so on up to factor := unary (("*" | "/" | "%") unary)*
  | single {rung : Rung} {ts : List Token} {e : Expr} :
      Derives (.operand rung) ts e → Derives (.chain rung) ts e
  | logical {rung : Rung} {ts us : List Token} {left right : Expr} {op : Token} :
      rung = .either ∨ rung = .both → Derives (.chain rung) ts left → Joins rung op.kind →
      Derives (.operand rung) us right →
      Derives (.chain rung) (ts ++ op :: us) (Expr.logical left op right)
  | binary {rung : Rung} {ts us : List Token} {left right : Expr} {op : Token} :
      rung ≠ .either → rung ≠ .both → Derives (.chain rung) ts left → Joins rung op.kind →
      Derives (.operand rung) us right →
      Derives (.chain rung) (ts ++ op :: us) (Expr.binary left op right)
  | tighter {rung next : Rung} {ts : List Token} {e : Expr} :
      Tighter rung next → Derives (.chain next) ts e → Derives (.operand rung) ts e
  | tightest {ts : List Token} {e : Expr} :
      Derives .unary ts e → Derives (.operand .factor) ts e
  -- unary := ("!" | "-" | "+") unary | prefix
  | sign {op : Token} {ts : List Token} {e : Expr} :
      op.kind ∈ [Kind.bang, .minus, .plus] → Derives .unary ts e →
      Derives .unary (op :: ts) (Expr.unary op e)
  | unsigned {ts : List Token} {e : Expr} : Derives .prefixed ts e → Derives .unary ts e
  -- prefix := ("++" | "--") IDENT | call
  | stepBefore {op name : Token} :
      op.kind ∈ [Kind.increment, .decrement] → name.kind = .identifier →
      Derives .prefixed [op, name] (Expr.step op name)
  | unstepped {ts : List Token} {e : Expr} : Derives .called ts e → Derives .prefixed ts e
  -- call := suffix ("(" args? ")")*
  | callee {ts : List Token} {e : Expr} : Derives .suffixed ts e → Derives .called ts e
  | call {ts us : List Token} {f : Expr} {args : List Expr} {left right : Token} :
      Derives .called ts f → left.kind = .leftParen → Derives .arguments us args →
      right.kind = .rightParen →
      Derives .called (ts ++ left :: (us ++ [right])) (Expr.call f right args)
  | noArguments : Derives .arguments [] ([] : List Expr)
  | someArguments {ts : List Token} {es : List Expr} :
      Derives .listed ts es → Derives .arguments ts es
  | lastExpression {ts : List Token} {e : Expr} :
      Derives .assignment ts e → Derives .listed ts [e]
  | nextExpression {ts us : List Token} {e : Expr} {es : List Expr} {comma : Token} :
      Derives .assignment ts e → comma.kind = .comma → Derives .listed us es →
      Derives .listed (ts ++ comma :: us) (e :: es)
  -- suffix := IDENT ("++" | "--") | primary
  | stepAfter {op name : Token} :
      op.kind ∈ [Kind.increment, .decrement] → name.kind = .identifier →
      Derives .suffixed [name, op] (Expr.step op name)
  | bare {ts : List Token} {e : Expr} : Derives .primary ts e → Derives .suffixed ts e
  -- primary := NUMBER | STRING | "true" | "false" | "null" | IDENT | "(" expr ")"
  | constant {t : Token} {l : Literal} :
      Denotes t.kind t.literal l → Derives .primary [t] (Expr.constant l t.pos)
  | name {t : Token} : t.kind = .identifier → Derives .primary [t] (Expr.reference t)
  | grouping {ts : List Token} {e : Expr} {left right : Token} :
      left.kind = .leftParen → Derives .assignment ts e → right.kind = .rightParen →
      Derives .primary (left :: (ts ++ [right])) (Expr.grouping e left.pos)
  -- funcDecl := "func" IDENT "(" params? ")" block
  | noParameters : Derives .parameters [] ([] : List Token)
  | someParameters {ts names : List Token} :
      Derives .named ts names → Derives .parameters ts names
  | lastName {t : Token} : t.kind = .identifier → Derives .named [t] [t]
  | nextName {t comma : Token} {ts names : List Token} :
      t.kind = .identifier → comma.kind = .comma → Derives .named ts names →
      Derives .named (t :: comma :: ts) (t :: names)
  | function {keyword name left right : Token} {ts us params : List Token} {body : List Stmt} :
      keyword.kind = .funcWord → name.kind = .identifier → left.kind = .leftParen →
      Derives .parameters ts params → right.kind = .rightParen → Derives .block us body →
      Derives .statement (keyword :: name :: left :: (ts ++ right :: us))
        (Stmt.function name params body)
  -- returnStmt := "return" expr? ";"
  | giveBackNothing {keyword semicolon : Token} :
      keyword.kind = .returnWord → semicolon.kind = .semicolon →
      Derives .statement [keyword, semicolon] (Stmt.giveBack keyword none)
  | giveBack {keyword semicolon : Token} {ts : List Token} {e : Expr} :
      keyword.kind = .returnWord → Derives .assignment ts e → semicolon.kind = .semicolon →
      Derives .statement (keyword :: (ts ++ [semicolon])) (Stmt.giveBack keyword (some e))
  -- delStmt := "del" IDENT ("," IDENT)* ";"
  | delete {keyword semicolon : Token} {ts names : List Token} :
      keyword.kind = .delWord → Derives .named ts names → semicolon.kind = .semicolon →
      Derives .statement (keyword :: (ts ++ [semicolon])) (Stmt.delete keyword names)
  -- whileStmt := "while" expr block
  | loop {keyword : Token} {ts us : List Token} {e : Expr} {body : List Stmt} :
      keyword.kind = .whileWord → Derives .assignment ts e → Derives .block us body →
      Derives .statement (keyword :: (ts ++ us)) (Stmt.loop keyword e body)
  -- ifStmt := "if" expr block ("else" (ifStmt | block))?
  | conditional {ts : List Token} {s : Stmt} :
      Derives .conditional ts s → Derives .statement ts s
  | branch {keyword : Token} {ts us : List Token} {e : Expr} {body : List Stmt} :
      keyword.kind = .ifWord → Derives .assignment ts e → Derives .block us body →
      Derives .conditional (keyword :: (ts ++ us)) (Stmt.branch keyword e body none)
  | branchElse {keyword otherwise : Token} {ts us vs : List Token} {e : Expr}
      {body alternate : List Stmt} :
      keyword.kind = .ifWord → Derives .assignment ts e → Derives .block us body →
      otherwise.kind = .elseWord → Derives .block vs alternate →
      Derives .conditional (keyword :: (ts ++ (us ++ otherwise :: vs)))
        (Stmt.branch keyword e body (some alternate))
  | branchElseIf {keyword otherwise : Token} {ts us vs : List Token} {e : Expr}
      {body : List Stmt} {nested : Stmt} :
      keyword.kind = .ifWord → Derives .assignment ts e → Derives .block us body →
      otherwise.kind = .elseWord → Derives .conditional vs nested →
      Derives .conditional (keyword :: (ts ++ (us ++ otherwise :: vs)))
        (Stmt.branch keyword e body (some [nested]))
  -- echoStmt := "echo" expr ";"
  | echo {keyword semicolon : Token} {ts : List Token} {e : Expr} :
      keyword.kind = .echoWord → Derives .assignment ts e → semicolon.kind = .semicolon →
      Derives .statement (keyword :: (ts ++ [semicolon])) (Stmt.echo keyword e)
  -- breakStmt := "break" ";" and continueStmt := "continue" ";"
  | leave {keyword semicolon : Token} :
      keyword.kind = .breakWord → semicolon.kind = .semicolon →
      Derives .statement [keyword, semicolon] (Stmt.leave keyword)
  | next {keyword semicolon : Token} :
      keyword.kind = .continueWord → semicolon.kind = .semicolon →
      Derives .statement [keyword, semicolon] (Stmt.next keyword)
  -- exprStmt := expr ";"
  | expression {semicolon : Token} {ts : List Token} {e : Expr} :
      Derives .assignment ts e → semicolon.kind = .semicolon →
      Derives .statement (ts ++ [semicolon]) (Stmt.expression e)
  -- block := "{" stmt* "}"
  | block {left right : Token} {ts : List Token} {body : List Stmt} :
      left.kind = .leftBrace → Derives .statements ts body → right.kind = .rightBrace →
      Derives .block (left :: (ts ++ [right])) body
  | noStatements : Derives .statements [] ([] : List Stmt)
  | nextStatement {ts us : List Token} {s : Stmt} {ss : List Stmt} :
      Derives .statement ts s → Derives .statements us ss →
      Derives .statements (ts ++ us) (s :: ss)

theorem joins_iff {rung : Rung} {k : Kind} : Joins rung k ↔ k ∈ rung.operators := by
  constructor
  · intro h
    cases h <;> decide
  · intro h
    cases rung <;> simp only [Rung.operators, List.mem_cons, List.not_mem_nil, or_false] at h <;>
      rcases h with rfl | rfl | rfl | rfl <;> constructor

/-- The operators of the rungs that do not evaluate both operands in any case. -/
theorem Joins.mem_logical {rung : Rung} {k : Kind} (h : Joins rung k)
    (hrung : rung = .either ∨ rung = .both) : k ∈ [Kind.both, .either] := by
  cases h with
  | or => decide
  | and => decide
  | _ => exact absurd hrung (by decide)

/-- The operators of the other rungs. -/
theorem Joins.mem_joiners {rung : Rung} {k : Kind} (h : Joins rung k) (heither : rung ≠ .either)
    (hboth : rung ≠ .both) :
    k ∈ [Kind.equal, .notEqual, .less, .lessEqual, .greater, .greaterEqual, .plus, .minus, .star,
      .slash, .percent] := by
  cases h with
  | or => exact absurd rfl heither
  | and => exact absurd rfl hboth
  | _ => decide

theorem tighter_iff {rung next : Rung} : Tighter rung next ↔ rung.above = some next := by
  constructor
  · intro h
    cases h <;> rfl
  · intro h
    cases rung <;> cases h <;> constructor

theorem Denotes.mem_constants {k : Kind} {carried : Option Literal} {l : Literal}
    (h : Denotes k carried l) : k ∈ constants := by
  cases h with
  | carried hk => exact hk
  | _ => decide

/-- The parser takes a token of the right kind for the constant that it writes. -/
theorem denotes_iff {t : Token} {l : Literal} :
    Denotes t.kind t.literal l ↔ t.kind ∈ constants ∧ t.value = l := by
  obtain ⟨k, u, literal, p⟩ := t
  constructor
  · intro h
    refine ⟨h.mem_constants, ?_⟩
    cases h <;> rfl
  · rintro ⟨hk, rfl⟩
    cases literal with
    | some l => exact .carried hk
    | none =>
        simp only [constants, List.mem_cons, List.not_mem_nil, or_false] at hk
        rcases hk with rfl | rfl | rfl | rfl | rfl
        · exact .trueWord
        · exact .falseWord
        · exact .nullWord
        · exact .zero
        · exact .emptyString

/-- Joining a chain and an operand by an operator of the rung makes a longer
    chain, whichever form the rung gives its nodes. -/
theorem Derives.link {rung : Rung} {ts us : List Token} {left right : Expr} {op : Token}
    (hl : Derives (.chain rung) ts left) (hop : op.kind ∈ rung.operators)
    (hr : Derives (.operand rung) us right) :
    Derives (.chain rung) (ts ++ op :: us) (rung.combine left op right) := by
  have hj := joins_iff.mpr hop
  cases rung with
  | either => exact .logical (Or.inl rfl) hl hj hr
  | both => exact .logical (Or.inr rfl) hl hj hr
  | equality => exact .binary (by decide) (by decide) hl hj hr
  | comparison => exact .binary (by decide) (by decide) hl hj hr
  | term => exact .binary (by decide) (by decide) hl hj hr
  | factor => exact .binary (by decide) (by decide) hl hj hr

/-- The kinds that an expression without an operator in front starts with. -/
def primaryStarters : List Kind := [.identifier, .leftParen] ++ constants

/-- The kinds that an expression starts with. -/
def expressionStarters : List Kind := signs ++ steps ++ primaryStarters

/-- The kinds that a form can start with. Forms that can be empty have none. -/
def Form.starters : Form → List Kind
  | assignment => expressionStarters
  | chain _ => expressionStarters
  | operand _ => expressionStarters
  | unary => expressionStarters
  | prefixed => steps ++ primaryStarters
  | called => primaryStarters
  | suffixed => primaryStarters
  | primary => primaryStarters
  | listed => expressionStarters
  | named => [.identifier]
  | statement =>
    [.funcWord, .returnWord, .delWord, .whileWord, .ifWord, .echoWord, .breakWord,
      .continueWord] ++ expressionStarters
  | conditional => [.ifWord]
  | block => [.leftBrace]
  | arguments => []
  | parameters => []
  | statements => []

/-- The forms that cannot be empty. -/
def Form.isSolid : Form → Bool
  | arguments => false
  | parameters => false
  | statements => false
  | _ => true

/-- There is a first token, and it is of one of these kinds. -/
def StartsIn (ks : List Kind) (ts : List Token) : Prop := ∃ t us, ts = t :: us ∧ t.kind ∈ ks

theorem StartsIn.mono {ks ls : List Kind} {ts : List Token} (h : StartsIn ks ts)
    (hsub : ks ⊆ ls) : StartsIn ls ts := by
  rcases h with ⟨t, us, rfl, hk⟩
  exact ⟨t, us, rfl, hsub hk⟩

theorem StartsIn.append {ks : List Kind} {ts : List Token} (h : StartsIn ks ts)
    (us : List Token) : StartsIn ks (ts ++ us) := by
  rcases h with ⟨t, vs, rfl, hk⟩
  exact ⟨t, vs ++ us, rfl, hk⟩

theorem startsIn_cons {ks : List Kind} {t : Token} {ts : List Token} (h : t.kind ∈ ks) :
    StartsIn ks (t :: ts) := ⟨t, ts, rfl, h⟩

/-- A form that cannot be empty starts with one of its starters. -/
theorem Derives.starts {f : Form} {ts : List Token} {tree : f.Tree} (h : Derives f ts tree) :
    f.isSolid = true → StartsIn f.starters ts := by
  induction h with
  | value _ ih => exact ih
  | assign hn _ _ _ => intro _; exact startsIn_cons (by rw [hn]; decide)
  | augmented hn _ _ _ => intro _; exact startsIn_cons (by rw [hn]; decide)
  | single _ ih => exact ih
  | logical _ _ _ _ ih _ => intro _; exact (ih rfl).append _
  | binary _ _ _ _ _ ih _ => intro _; exact (ih rfl).append _
  | tighter _ _ ih => exact ih
  | tightest _ ih => exact ih
  | sign hop _ _ => intro _; exact startsIn_cons (List.mem_append_left _ (List.mem_append_left _ hop))
  | unsigned _ ih => intro _; exact (ih rfl).mono (by decide)
  | stepBefore hop _ => intro _; exact startsIn_cons (List.mem_append_left _ hop)
  | unstepped _ ih => intro _; exact (ih rfl).mono (by decide)
  | callee _ ih => exact ih
  | call _ _ _ _ ih _ => intro _; exact (ih rfl).append _
  | noArguments => intro h; exact absurd h (by decide)
  | someArguments _ _ => intro h; exact absurd h (by decide)
  | lastExpression _ ih => exact ih
  | nextExpression _ _ _ ih _ => intro _; exact (ih rfl).append _
  | stepAfter _ hn => intro _; exact startsIn_cons (by rw [hn]; decide)
  | bare _ ih => exact ih
  | constant h => intro _; exact startsIn_cons (List.mem_append_right _ h.mem_constants)
  | name hk => intro _; exact startsIn_cons (by rw [hk]; decide)
  | grouping hl _ _ _ => intro _; exact startsIn_cons (by rw [hl]; decide)
  | noParameters => intro h; exact absurd h (by decide)
  | someParameters _ _ => intro h; exact absurd h (by decide)
  | lastName hk => intro _; exact startsIn_cons (by rw [hk]; decide)
  | nextName hk _ _ _ => intro _; exact startsIn_cons (by rw [hk]; decide)
  | function hk _ _ _ _ _ _ _ => intro _; exact startsIn_cons (by rw [hk]; decide)
  | giveBackNothing hk _ => intro _; exact startsIn_cons (by rw [hk]; decide)
  | giveBack hk _ _ _ => intro _; exact startsIn_cons (by rw [hk]; decide)
  | delete hk _ _ _ => intro _; exact startsIn_cons (by rw [hk]; decide)
  | loop hk _ _ _ _ => intro _; exact startsIn_cons (by rw [hk]; decide)
  | conditional _ ih => intro _; exact (ih rfl).mono (by decide)
  | branch hk _ _ _ _ => intro _; exact startsIn_cons (by rw [hk]; decide)
  | branchElse hk _ _ _ _ _ _ _ => intro _; exact startsIn_cons (by rw [hk]; decide)
  | branchElseIf hk _ _ _ _ _ _ _ => intro _; exact startsIn_cons (by rw [hk]; decide)
  | echo hk _ _ _ => intro _; exact startsIn_cons (by rw [hk]; decide)
  | leave hk _ => intro _; exact startsIn_cons (by rw [hk]; decide)
  | next hk _ => intro _; exact startsIn_cons (by rw [hk]; decide)
  | expression _ _ ih => intro _; exact ((ih rfl).append _).mono (by decide)
  | block hl _ _ _ => intro _; exact startsIn_cons (by rw [hl]; decide)
  | noStatements => intro h; exact absurd h (by decide)
  | nextStatement _ _ _ _ => intro h; exact absurd h (by decide)

/-- The expression that an occurrence of a form means, if it means one. -/
def Form.expr? : (f : Form) → f.Tree → Option Expr
  | assignment, e => some e
  | chain _, e => some e
  | operand _, e => some e
  | unary, e => some e
  | prefixed, e => some e
  | called, e => some e
  | suffixed, e => some e
  | primary, e => some e
  | _, _ => none

/-- An expression that means a bare name is that name and nothing else. -/
theorem Derives.reference {f : Form} {ts : List Token} {tree : f.Tree} (h : Derives f ts tree)
    (name : Token) :
    f.expr? tree = some (.reference name) → ts = [name] ∧ name.kind = .identifier := by
  induction h with
  | value _ ih => exact ih
  | single _ ih => exact ih
  | tighter _ _ ih => exact ih
  | tightest _ ih => exact ih
  | unsigned _ ih => exact ih
  | unstepped _ ih => exact ih
  | callee _ ih => exact ih
  | bare _ ih => exact ih
  | name hk =>
      intro h
      simp only [Form.expr?, Option.some.injEq, Expr.reference.injEq] at h
      subst h
      exact ⟨rfl, hk⟩
  | _ => intro h; simp [Form.expr?] at h

end Grammar

end PocketScript
