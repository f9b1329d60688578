import PocketScript.Proofs.Grammar
import PocketScript.Proofs.Parser.Reading

/-!
# Completeness of the parser

Whatever the grammar derives, the parser reads, and it reads that tree.

A parser reads as much as it can, and a derivation says how much there is. The
two agree when the tokens after the form cannot go on with it. For each rung
of the ladder there is a list of kinds that could (`operandExtenders`): the
operators of every tighter rung, the parenthesis of a call and the steps. The
operators of a rung are not among those that go on with its own operands,
which is why a chain is read to its end and no further.

The proof is an induction on derivations. `Accepts` says for each form what
its reader does with tokens that derive it, whatever follows. Chains and calls
are left recursive in the grammar and loops in the parser, so for them
`Accepts` is said with the loop that comes next: if the loop, started with
this tree, ends in some way, then so does the reader.

How far the counter must reach is left open by `Reading.Settles`.

## Main definitions

* `Clear`: The next token is of none of these kinds.
* `operandExtenders`, `assignmentExtenders`: The kinds that go on with a form.
* `Accepts`: What the reader of a form does with tokens that derive it.

## Theorems

* `Grammar.Derives.accepts`: Derivable tokens are accepted.
* `program_complete`: A derivable program is read.
-/

namespace PocketScript

open Grammar Reading

/-- The next token, if there is one, is of none of these kinds. -/
def Clear (ks : List Kind) (ts : List Token) : Prop := ∀ t us, ts = t :: us → t.kind ∉ ks

theorem clear_nil (ks : List Kind) : Clear ks [] := fun _ _ h => nomatch h

theorem clear_cons {ks : List Kind} {t : Token} {ts : List Token} (h : t.kind ∉ ks) :
    Clear ks (t :: ts) := by
  intro u us hu
  rw [← (List.cons.inj hu).1]
  exact h

theorem Clear.head {ks : List Kind} {t : Token} {ts : List Token} (h : Clear ks (t :: ts)) :
    t.kind ∉ ks := h t ts rfl

theorem Clear.mono {ks ls : List Kind} {ts : List Token} (h : Clear ks ts) (hsub : ls ⊆ ks) :
    Clear ls ts := fun t us hts hk => h t us hts (hsub hk)

theorem Clear.head_ne {k : Kind} {t : Token} {ts : List Token} (h : Clear [k] (t :: ts)) :
    t.kind ≠ k := fun hk => h.head (List.mem_singleton.mpr hk)

theorem Clear.insert {k : Kind} {ks : List Kind} {ts : List Token} (hk : Clear [k] ts)
    (hks : Clear ks ts) : Clear (k :: ks) ts := by
  intro t us hts hmem
  rcases List.mem_cons.mp hmem with heq | hmem
  · exact hk t us hts (List.mem_singleton.mpr heq)
  · exact hks t us hts hmem

/-- A form that starts in one of some kinds is clear of all others. -/
theorem clear_of_startsIn {ks ls : List Kind} {ts : List Token} (h : StartsIn ks ts)
    (hdis : ∀ k ∈ ks, k ∉ ls) : Clear ls ts := by
  rcases h with ⟨t, us, rfl, hk⟩
  exact clear_cons (hdis _ hk)

theorem nextIs_head {k : Kind} {t : Token} (ht : t.kind = k) (ts : List Token) :
    nextIs k (t :: ts) = true := by
  rw [nextIs, ht]
  exact beq_self_eq_true k

theorem nextIs_of_startsIn {ks : List Kind} {k : Kind} {ts : List Token} (h : StartsIn ks ts)
    (hk : k ∉ ks) (us : List Token) : nextIs k (ts ++ us) = false := by
  rcases h with ⟨t, vs, rfl, ht⟩
  simp only [List.cons_append, nextIs, beq_eq_false_iff_ne]
  intro htk
  rw [htk] at ht
  exact hk ht

/-- The kinds that go on with a call. -/
def callExtenders : List Kind := .leftParen :: steps

/-- The kinds that go on with an operand of a rung: what goes on with a call,
    and the operators of every tighter rung. -/
def operandExtenders : Rung → List Kind
  | .factor => callExtenders
  | .term => Rung.factor.operators ++ callExtenders
  | .comparison => Rung.term.operators ++ (Rung.factor.operators ++ callExtenders)
  | .equality =>
    Rung.comparison.operators ++
      (Rung.term.operators ++ (Rung.factor.operators ++ callExtenders))
  | .both =>
    Rung.equality.operators ++ (Rung.comparison.operators ++
      (Rung.term.operators ++ (Rung.factor.operators ++ callExtenders)))
  | .either =>
    Rung.both.operators ++ (Rung.equality.operators ++ (Rung.comparison.operators ++
      (Rung.term.operators ++ (Rung.factor.operators ++ callExtenders))))

/-- The kinds that go on with a chain of a rung. -/
def chainExtenders (r : Rung) : List Kind := r.operators ++ operandExtenders r

/-- The kinds that go on with an expression. -/
def assignmentExtenders : List Kind := .assign :: (compounds ++ chainExtenders .either)

theorem chainExtenders_of_tighter {r next : Rung} (h : Tighter r next) :
    chainExtenders next = operandExtenders r := by
  cases h <;> rfl

/-- The operators of a rung do not go on with its operands. -/
theorem operators_not_extend (r : Rung) : ∀ k ∈ r.operators, k ∉ operandExtenders r := by
  cases r <;> decide

/-- What the reader of a form does with tokens that derive it, whatever comes
    after them. -/
def Accepts (stop : Token) : (f : Form) → List Token → f.Tree → Prop
  | .assignment, ts, e => ∀ rest, Clear assignmentExtenders rest →
    Settles (fun n => expression stop n (ts ++ rest)) e rest
  | .chain r, ts, e => ∀ rest x rest', Clear (operandExtenders r) rest →
    Settles (fun n => links stop n r e rest) x rest' →
    Settles (fun n => chain stop n r (ts ++ rest)) x rest'
  | .operand r, ts, e => ∀ rest, Clear (operandExtenders r) rest →
    Settles (fun n => operand stop n r (ts ++ rest)) e rest
  | .unary, ts, e => ∀ rest, Clear callExtenders rest →
    Settles (fun n => signed stop n (ts ++ rest)) e rest
  | .prefixed, ts, e => ∀ rest, Clear callExtenders rest →
    Settles (fun n => stepped stop n (ts ++ rest)) e rest
  | .called, ts, e => ∀ rest x rest', Clear steps rest →
    Settles (fun n => calls stop n e rest) x rest' →
    Settles (fun n => called stop n (ts ++ rest)) x rest'
  | .suffixed, ts, e => ∀ rest, Clear steps rest →
    Settles (fun n => suffixed stop n (ts ++ rest)) e rest
  | .primary, ts, e => ∀ rest, Settles (fun n => primary stop n (ts ++ rest)) e rest
  | .arguments, ts, es => ∀ right rest, right.kind = .rightParen →
    Settles (fun n => if nextIs .rightParen (ts ++ right :: rest) then
      done [] (ts ++ right :: rest) [] else arguments stop n 0 (ts ++ right :: rest))
      es (right :: rest)
  | .listed, ts, es => ∀ count rest, Clear (.comma :: assignmentExtenders) rest →
    Settles (fun n => arguments stop n count (ts ++ rest)) es rest
  | .parameters, ts, params => ∀ right rest, right.kind = .rightParen →
    (parameters stop (ts ++ right :: rest)).Gives params rest
  | .named, ts, names => ∀ detail remarks count rest, Clear [.comma] rest →
    (Reading.names stop detail remarks count (ts ++ rest)).Gives names rest
  | .statement, ts, s => ∀ rest, Clear [.elseWord] rest →
    Settles (fun n => statement stop n (ts ++ rest)) s rest
  | .conditional, ts, s => ∃ keyword us, ts = keyword :: us ∧ keyword.kind = .ifWord ∧
    ∀ rest, Clear [.elseWord] rest →
      Settles (fun n => branch stop n keyword (us ++ rest)) s rest
  | .block, ts, body => ∀ context rest,
    Settles (fun n => block stop n context (ts ++ rest)) body rest
  | .statements, ts, body =>
    (∀ right rest, right.kind = .rightBrace →
      Settles (fun n => statements stop n (ts ++ right :: rest)) body (right :: rest)) ∧
    Settles (fun n => program stop n ts) body []

section Expressions

variable {stop : Token}

/-- A chain that nothing goes on with is read to its end. -/
theorem accepts_chain_end {r : Rung} {ts : List Token} {e : Expr}
    (h : Accepts stop (.chain r) ts e) {rest : List Token} (hc : Clear (chainExtenders r) rest) :
    Settles (fun n => chain stop n r (ts ++ rest)) e rest := by
  refine h rest e rest (hc.mono (List.subset_append_right _ _)) (settles_succ ?_)
  cases rest with
  | nil => exact settles_const ⟨[], rfl⟩
  | cons op rest =>
      have hop : op.kind ∉ r.operators := fun hm => hc.head (List.mem_append_left _ hm)
      simp only [links, if_neg hop]
      exact settles_const ⟨[], rfl⟩

theorem accepts_called_end {ts : List Token} {e : Expr} (h : Accepts stop .called ts e)
    {rest : List Token} (hc : Clear callExtenders rest) :
    Settles (fun n => called stop n (ts ++ rest)) e rest := by
  refine h rest e rest (hc.mono (List.subset_cons_self _ _)) (settles_succ ?_)
  cases rest with
  | nil => exact settles_const ⟨[], rfl⟩
  | cons t rest =>
      have ht : t.kind ≠ .leftParen := fun hk => hc.head (by rw [hk]; decide)
      simp only [calls, if_neg ht]
      exact settles_const ⟨[], rfl⟩

theorem accepts_value {ts : List Token} {e : Expr} (h : Accepts stop (.chain .either) ts e) :
    Accepts stop .assignment ts e := by
  intro rest hc
  refine settles_succ ?_
  simp only [expression]
  have hchain : Clear (chainExtenders .either) rest :=
    hc.mono (fun k hk => List.mem_cons_of_mem _ (List.mem_append_right _ hk))
  refine settles_andThen (accepts_chain_end h hchain) ?_
  cases rest with
  | nil => exact settles_const ⟨[], rfl⟩
  | cons op rest =>
      have ha : op.kind ≠ .assign := fun hk => hc.head (by rw [hk]; decide)
      have hcomp : op.kind ∉ compounds := fun hm =>
        hc.head (List.mem_cons_of_mem _ (List.mem_append_left _ hm))
      simp only [if_neg ha, if_neg hcomp]
      exact settles_const ⟨[], rfl⟩

/-- A name is read as a primary expression, and at every rung above it, when
    something follows that cannot go on with it. -/
theorem settles_primary_name {t : Token} (ht : t.kind = .identifier) (rest : List Token) :
    Settles (fun n => primary stop n (t :: rest)) (.reference t) rest := by
  refine settles_succ ?_
  have hk : t.kind ∉ constants := by rw [ht]; decide
  simp only [primary, if_neg hk, if_pos ht]
  exact settles_const ⟨[], rfl⟩

theorem accepts_bare {ts : List Token} {e : Expr} (h : Accepts stop .primary ts e) :
    Accepts stop .suffixed ts e := by
  intro rest hc
  refine settles_succ ?_
  simp only [suffixed]
  refine settles_andThen (h rest) ?_
  cases rest with
  | nil => exact settles_const ⟨[], rfl⟩
  | cons op rest =>
      simp only [if_neg hc.head]
      exact settles_const ⟨[], rfl⟩

theorem accepts_callee {ts : List Token} {e : Expr} (h : Accepts stop .suffixed ts e) :
    Accepts stop .called ts e := by
  intro rest x rest' hc hcalls
  refine settles_succ ?_
  simp only [called]
  exact settles_andThen (h rest hc) hcalls

theorem accepts_unstepped {ts : List Token} {e : Expr} (hd : Derives .called ts e)
    (h : Accepts stop .called ts e) : Accepts stop .prefixed ts e := by
  intro rest hc
  refine settles_succ ?_
  rcases hd.starts rfl with ⟨t, us, rfl, ht⟩
  have hs : t.kind ∉ steps := (by decide : ∀ k ∈ primaryStarters, k ∉ steps) _ ht
  simp only [List.cons_append, stepped, if_neg hs]
  exact accepts_called_end h hc

theorem accepts_unsigned {ts : List Token} {e : Expr} (hd : Derives .prefixed ts e)
    (h : Accepts stop .prefixed ts e) : Accepts stop .unary ts e := by
  intro rest hc
  refine settles_succ ?_
  rcases hd.starts rfl with ⟨t, us, rfl, ht⟩
  have hs : t.kind ∉ signs := (by decide : ∀ k ∈ steps ++ primaryStarters, k ∉ signs) _ ht
  simp only [List.cons_append, signed, if_neg hs]
  exact h rest hc

theorem accepts_sign {op : Token} {ts : List Token} {e : Expr} (hop : op.kind ∈ signs)
    (h : Accepts stop .unary ts e) : Accepts stop .unary (op :: ts) (Expr.unary op e) := by
  intro rest hc
  refine settles_succ ?_
  simp only [List.cons_append, signed, if_pos hop]
  exact settles_map (h rest hc)

theorem accepts_tightest {ts : List Token} {e : Expr} (h : Accepts stop .unary ts e) :
    Accepts stop (.operand .factor) ts e := by
  intro rest hc
  refine settles_succ ?_
  simp only [operand, Rung.above]
  exact h rest hc

theorem accepts_tighter {r next : Rung} {ts : List Token} {e : Expr} (hr : Tighter r next)
    (h : Accepts stop (.chain next) ts e) : Accepts stop (.operand r) ts e := by
  intro rest hc
  refine settles_succ ?_
  simp only [operand, tighter_iff.mp hr]
  exact accepts_chain_end h (by rw [chainExtenders_of_tighter hr]; exact hc)

theorem accepts_single {r : Rung} {ts : List Token} {e : Expr}
    (h : Accepts stop (.operand r) ts e) : Accepts stop (.chain r) ts e := by
  intro rest x rest' hc hlinks
  refine settles_succ ?_
  simp only [chain]
  exact settles_andThen (h rest hc) hlinks

/-- One more link. The operator stops the operand before it, and the loop goes
    round once more. -/
theorem accepts_link {r : Rung} {ts us : List Token} {left right : Expr} {op : Token}
    (hl : Accepts stop (.chain r) ts left) (hop : op.kind ∈ r.operators)
    (hr : Accepts stop (.operand r) us right) :
    Accepts stop (.chain r) (ts ++ op :: us) (r.combine left op right) := by
  intro rest x rest' hc hlinks
  rw [List.append_assoc]
  refine hl (op :: us ++ rest) x rest' (clear_cons (operators_not_extend r _ hop)) ?_
  refine settles_succ ?_
  simp only [List.cons_append, links, if_pos hop]
  exact settles_andThen (hr rest hc) hlinks

/-- A name followed by something that cannot go on with it is read as a bare
    name at every rung, so that it can be found to be a target. -/
theorem accepts_name {t : Token} (ht : t.kind = .identifier) :
    Accepts stop .primary [t] (Expr.reference t) := settles_primary_name ht

theorem accepts_name_called {t : Token} (ht : t.kind = .identifier) :
    Accepts stop .called [t] (Expr.reference t) :=
  accepts_callee (accepts_bare (accepts_name ht))

theorem accepts_name_operand {t : Token} (ht : t.kind = .identifier) :
    ∀ r : Rung, Accepts stop (.operand r) [t] (Expr.reference t) := by
  have hfactor : Accepts stop (.operand .factor) [t] (Expr.reference t) :=
    accepts_tightest (accepts_unsigned (.unstepped (.callee (.bare (.name ht))))
      (accepts_unstepped (.callee (.bare (.name ht))) (accepts_name_called ht)))
  have hterm := accepts_tighter .factor (accepts_single hfactor)
  have hcomparison := accepts_tighter .term (accepts_single hterm)
  have hequality := accepts_tighter .comparison (accepts_single hcomparison)
  have hboth := accepts_tighter .equality (accepts_single hequality)
  have heither := accepts_tighter .and (accepts_single hboth)
  intro r
  cases r with
  | either => exact heither
  | both => exact hboth
  | equality => exact hequality
  | comparison => exact hcomparison
  | term => exact hterm
  | factor => exact hfactor

/-- The target of an assignment is read as a chain that stops at the
    operator. -/
theorem settles_target {name op : Token} (hn : name.kind = .identifier)
    (hop : op.kind ∉ chainExtenders .either) (rest : List Token) :
    Settles (fun n => chain stop n .either (name :: op :: rest)) (.reference name)
      (op :: rest) :=
  accepts_chain_end (accepts_single (accepts_name_operand hn .either)) (clear_cons hop)

theorem accepts_assign {name op : Token} {ts : List Token} {e : Expr}
    (hn : name.kind = .identifier) (hop : op.kind = .assign)
    (h : Accepts stop .assignment ts e) :
    Accepts stop .assignment (name :: op :: ts) (Expr.assign name e) := by
  intro rest hc
  refine settles_succ ?_
  simp only [List.cons_append, expression]
  refine settles_andThen (settles_target hn (by rw [hop]; decide) _) ?_
  simp only [if_pos hop]
  exact settles_map (h rest hc)

theorem accepts_augmented {name op : Token} {ts : List Token} {e : Expr}
    (hn : name.kind = .identifier) (hop : op.kind ∈ compounds)
    (h : Accepts stop .assignment ts e) :
    Accepts stop .assignment (name :: op :: ts) (Expr.augmented name op e) := by
  intro rest hc
  have ha : op.kind ≠ .assign := fun hk => absurd hop (by rw [hk]; decide)
  have hstop : ∀ k ∈ compounds, k ∉ chainExtenders .either := by decide
  refine settles_succ ?_
  simp only [List.cons_append, expression]
  refine settles_andThen (settles_target hn (hstop _ hop) _) ?_
  simp only [if_neg ha, if_pos hop]
  exact settles_map (h rest hc)

theorem accepts_stepBefore {op name : Token} (hop : op.kind ∈ steps)
    (hn : name.kind = .identifier) :
    Accepts stop .prefixed [op, name] (Expr.step op name) := by
  intro rest hc
  refine settles_succ ?_
  simp only [List.cons_append, List.nil_append, stepped, if_pos hop]
  refine settles_andThen (accepts_called_end (accepts_name_called hn) hc) ?_
  exact settles_const ⟨[], rfl⟩

theorem accepts_stepAfter {op name : Token} (hop : op.kind ∈ steps)
    (hn : name.kind = .identifier) :
    Accepts stop .suffixed [name, op] (Expr.step op name) := by
  intro rest _
  refine settles_succ ?_
  simp only [List.cons_append, List.nil_append, suffixed]
  refine settles_andThen (settles_primary_name hn _) ?_
  simp only [if_pos hop]
  exact settles_const ⟨[], rfl⟩

theorem accepts_constant {t : Token} (hk : t.kind ∈ constants) :
    Accepts stop .primary [t] (Expr.constant t.value t.pos) := by
  intro rest
  refine settles_succ ?_
  simp only [List.cons_append, List.nil_append, primary, if_pos hk]
  exact settles_const ⟨[], rfl⟩

theorem settles_expect {k : Kind} {t : Token} (ht : t.kind = k) (detail : Text)
    (rest : List Token) : Settles (fun _ => expect stop k detail (t :: rest)) t rest :=
  settles_const ((expect_gives _ _ _ _ _ _).mpr ⟨rfl, ht⟩)

theorem accepts_grouping {ts : List Token} {e : Expr} {left right : Token}
    (hl : left.kind = .leftParen) (h : Accepts stop .assignment ts e)
    (hr : right.kind = .rightParen) :
    Accepts stop .primary (left :: (ts ++ [right])) (Expr.grouping e left.pos) := by
  intro rest
  refine settles_succ ?_
  have hk : left.kind ∉ constants := by rw [hl]; decide
  have hn : left.kind ≠ .identifier := by rw [hl]; decide
  have hclose : Clear assignmentExtenders (right :: rest) := clear_cons (by rw [hr]; decide)
  simp only [List.cons_append, List.append_assoc, List.nil_append, primary, if_neg hk, if_neg hn,
    if_pos hl]
  exact settles_andThen (h _ hclose) (settles_map (settles_expect hr _ rest))

theorem accepts_call {ts us : List Token} {f : Expr} {args : List Expr} {left right : Token}
    (hf : Accepts stop .called ts f) (hl : left.kind = .leftParen)
    (ha : Accepts stop .arguments us args) (hr : right.kind = .rightParen) :
    Accepts stop .called (ts ++ left :: (us ++ [right])) (Expr.call f right args) := by
  intro rest x rest' hc hcalls
  have heq : ts ++ left :: (us ++ [right]) ++ rest = ts ++ (left :: (us ++ right :: rest)) := by
    simp
  rw [heq]
  refine hf _ x rest' (clear_cons (by rw [hl]; decide)) (settles_succ ?_)
  simp only [calls, if_pos hl]
  exact settles_andThen (ha right rest hr)
    (settles_andThen (settles_expect hr _ rest) hcalls)

theorem accepts_noArguments : Accepts stop .arguments [] ([] : List Expr) := by
  intro right rest hr
  simp only [List.nil_append, nextIs_head hr, if_true]
  exact settles_const ⟨[], rfl⟩

theorem accepts_someArguments {ts : List Token} {es : List Expr} (hd : Derives .listed ts es)
    (h : Accepts stop .listed ts es) : Accepts stop .arguments ts es := by
  intro right rest hr
  simp only [nextIs_of_startsIn (k := .rightParen) (hd.starts rfl) (by decide) (right :: rest),
    Bool.false_eq_true, if_false]
  exact h 0 (right :: rest) (clear_cons (by rw [hr]; decide))

theorem accepts_lastExpression {ts : List Token} {e : Expr} (h : Accepts stop .assignment ts e) :
    Accepts stop .listed ts [e] := by
  intro count rest hc
  refine settles_succ ?_
  simp only [arguments]
  refine settles_noting (settles_andThen (h rest (hc.mono (List.subset_cons_self _ _))) ?_)
  cases rest with
  | nil => exact settles_const ⟨[], rfl⟩
  | cons t rest =>
      have ht : t.kind ≠ .comma := fun hk => hc.head (by rw [hk]; decide)
      simp only [if_neg ht]
      exact settles_const ⟨[], rfl⟩

theorem accepts_nextExpression {ts us : List Token} {e : Expr} {es : List Expr} {comma : Token}
    (h : Accepts stop .assignment ts e) (hcomma : comma.kind = .comma)
    (hmore : Accepts stop .listed us es) :
    Accepts stop .listed (ts ++ comma :: us) (e :: es) := by
  intro count rest hc
  refine settles_succ ?_
  simp only [arguments, List.append_assoc, List.cons_append]
  refine settles_noting (settles_andThen (h _ (clear_cons (by rw [hcomma]; decide))) ?_)
  simp only [if_pos hcomma]
  exact settles_map (hmore (count + 1) rest hc)

end Expressions

section Statements

variable {stop : Token}

theorem accepts_lastName {t : Token} (ht : t.kind = .identifier) :
    Accepts stop .named [t] [t] := by
  intro detail remarks count rest hc
  cases rest with
  | nil =>
      simp only [List.cons_append, List.nil_append, Reading.names, if_pos ht]
      exact ⟨_, rfl⟩
  | cons c rest =>
      have hcomma : c.kind ≠ .comma := fun hk => hc.head (by rw [hk]; decide)
      simp only [List.cons_append, List.nil_append, Reading.names, if_pos ht, if_neg hcomma]
      exact ⟨_, rfl⟩

theorem accepts_nextName {t comma : Token} {ts names : List Token} (ht : t.kind = .identifier)
    (hcomma : comma.kind = .comma) (h : Accepts stop .named ts names) :
    Accepts stop .named (t :: comma :: ts) (t :: names) := by
  intro detail remarks count rest hc
  simp only [List.cons_append, Reading.names, if_pos ht, if_pos hcomma]
  rw [noting_gives, map_gives]
  exact ⟨names, h detail remarks (count + 1) rest hc, rfl⟩

theorem accepts_parameters {ts params : List Token} {right : Token} {rest : List Token}
    (hr : right.kind = .rightParen)
    (h : (if nextIs .rightParen (ts ++ right :: rest) then done [] (ts ++ right :: rest) []
      else Reading.names stop "Expected parameter name"
        (excess "Can't have more than 255 parameters") 0 (ts ++ right :: rest)).Gives params
        (right :: rest)) :
    (parameters stop (ts ++ right :: rest)).Gives params rest := by
  rw [parameters, andThen_gives]
  refine ⟨params, right :: rest, h, ?_⟩
  rw [map_gives]
  exact ⟨right, (expect_gives _ _ _ _ _ _).mpr ⟨rfl, hr⟩, rfl⟩

theorem accepts_noParameters : Accepts stop .parameters [] ([] : List Token) := by
  intro right rest hr
  refine accepts_parameters hr ?_
  simp only [List.nil_append, nextIs_head hr, if_true]
  exact ⟨[], rfl⟩

theorem accepts_someParameters {ts names : List Token} (hd : Derives .named ts names)
    (h : Accepts stop .named ts names) : Accepts stop .parameters ts names := by
  intro right rest hr
  refine accepts_parameters hr ?_
  simp only [nextIs_of_startsIn (k := .rightParen) (hd.starts rfl) (by decide) (right :: rest),
    Bool.false_eq_true, if_false]
  exact h _ _ 0 (right :: rest) (clear_cons (by rw [hr]; decide))

theorem settles_terminated {ts : List Token} {e : Expr} {semicolon : Token}
    (h : Accepts stop .assignment ts e) (hs : semicolon.kind = .semicolon) (detail : Text)
    (rest : List Token) :
    Settles (fun n => terminated stop n detail (ts ++ semicolon :: rest)) e rest := by
  simp only [terminated]
  exact settles_andThen (h _ (clear_cons (by rw [hs]; decide)))
    (settles_map (settles_expect hs _ rest))

-- From here on statements are opened at the word they start with.
attribute [local simp] statement

/-- A statement that starts like an expression is read as one. -/
theorem statement_of_expression {t : Token} (ht : t.kind ∈ expressionStarters) (n : Nat)
    (ts : List Token) :
    statement stop (n + 1) (t :: ts) =
      (terminated stop n "Expected ';' after expression" (t :: ts)).map .expression := by
  rw [statement]
  split
  case h_9 => rfl
  all_goals
    rename_i hk
    rw [hk] at ht
    exact absurd ht (by decide)

theorem accepts_expression {ts : List Token} {e : Expr} {semicolon : Token}
    (hd : Derives .assignment ts e) (h : Accepts stop .assignment ts e)
    (hs : semicolon.kind = .semicolon) :
    Accepts stop .statement (ts ++ [semicolon]) (Stmt.expression e) := by
  intro rest _
  refine settles_succ ?_
  have hread := settles_terminated h hs "Expected ';' after expression" rest
  rcases hd.starts rfl with ⟨t, us, rfl, ht⟩
  simp only [List.append_assoc, List.cons_append, List.nil_append,
    statement_of_expression ht] at hread ⊢
  exact settles_map hread

theorem accepts_function {keyword name left right : Token} {ts us params : List Token}
    {body : List Stmt} (hk : keyword.kind = .funcWord) (hn : name.kind = .identifier)
    (hl : left.kind = .leftParen) (hp : Accepts stop .parameters ts params)
    (hr : right.kind = .rightParen) (hb : Accepts stop .block us body) :
    Accepts stop .statement (keyword :: name :: left :: (ts ++ right :: us))
      (Stmt.function name params body) := by
  intro rest _
  refine settles_succ ?_
  simp only [List.cons_append, List.append_assoc, statement, hk]
  refine settles_andThen (settles_expect hn _ _) (settles_andThen (settles_expect hl _ _) ?_)
  exact settles_andThen (settles_const (hp right (us ++ rest) hr)) (settles_map (hb _ rest))

theorem accepts_giveBackNothing {keyword semicolon : Token} (hk : keyword.kind = .returnWord)
    (hs : semicolon.kind = .semicolon) :
    Accepts stop .statement [keyword, semicolon] (Stmt.giveBack keyword none) := by
  intro rest _
  refine settles_succ ?_
  simp only [List.cons_append, List.nil_append, statement, hk, giveBack, nextIs_head hs, if_true]
  exact settles_map (settles_expect hs _ rest)

theorem accepts_giveBack {keyword semicolon : Token} {ts : List Token} {e : Expr}
    (hk : keyword.kind = .returnWord) (hd : Derives .assignment ts e)
    (h : Accepts stop .assignment ts e) (hs : semicolon.kind = .semicolon) :
    Accepts stop .statement (keyword :: (ts ++ [semicolon]))
      (Stmt.giveBack keyword (some e)) := by
  intro rest _
  refine settles_succ ?_
  simp only [List.cons_append, List.append_assoc, List.nil_append, statement, hk, giveBack,
    nextIs_of_startsIn (k := .semicolon) (hd.starts rfl) (by decide), Bool.false_eq_true, if_false]
  exact settles_map (settles_terminated h hs _ rest)

theorem accepts_delete {keyword semicolon : Token} {ts names : List Token}
    (hk : keyword.kind = .delWord) (h : Accepts stop .named ts names)
    (hs : semicolon.kind = .semicolon) :
    Accepts stop .statement (keyword :: (ts ++ [semicolon])) (Stmt.delete keyword names) := by
  intro rest _
  refine settles_succ ?_
  simp only [List.cons_append, List.append_assoc, List.nil_append, statement, hk, delete]
  exact settles_andThen (settles_const (h _ _ 0 _ (clear_cons (by rw [hs]; decide))))
    (settles_map (settles_expect hs _ rest))

theorem accepts_echo {keyword semicolon : Token} {ts : List Token} {e : Expr}
    (hk : keyword.kind = .echoWord) (h : Accepts stop .assignment ts e)
    (hs : semicolon.kind = .semicolon) :
    Accepts stop .statement (keyword :: (ts ++ [semicolon])) (Stmt.echo keyword e) := by
  intro rest _
  refine settles_succ ?_
  simp only [List.cons_append, List.append_assoc, List.nil_append, statement, hk]
  exact settles_map (settles_terminated h hs _ rest)

theorem accepts_leave {keyword semicolon : Token} (hk : keyword.kind = .breakWord)
    (hs : semicolon.kind = .semicolon) :
    Accepts stop .statement [keyword, semicolon] (Stmt.leave keyword) := by
  intro rest _
  refine settles_succ ?_
  simp only [List.cons_append, List.nil_append, statement, hk]
  exact settles_map (settles_expect hs _ rest)

theorem accepts_next {keyword semicolon : Token} (hk : keyword.kind = .continueWord)
    (hs : semicolon.kind = .semicolon) :
    Accepts stop .statement [keyword, semicolon] (Stmt.next keyword) := by
  intro rest _
  refine settles_succ ?_
  simp only [List.cons_append, List.nil_append, statement, hk]
  exact settles_map (settles_expect hs _ rest)

/-- A condition stops at the brace of the block after it. -/
theorem settles_condition {ts us : List Token} {e : Expr} {body : List Stmt}
    (h : Accepts stop .assignment ts e) (hd : Derives .block us body) (rest : List Token) :
    Settles (fun n => expression stop n (ts ++ (us ++ rest))) e (us ++ rest) :=
  h _ (clear_of_startsIn ((hd.starts rfl).append rest) (by decide))

theorem accepts_loop {keyword : Token} {ts us : List Token} {e : Expr} {body : List Stmt}
    (hk : keyword.kind = .whileWord) (h : Accepts stop .assignment ts e)
    (hd : Derives .block us body) (hb : Accepts stop .block us body) :
    Accepts stop .statement (keyword :: (ts ++ us)) (Stmt.loop keyword e body) := by
  intro rest _
  refine settles_succ ?_
  simp only [List.cons_append, List.append_assoc, statement, hk]
  exact settles_andThen (settles_condition h hd rest) (settles_map (hb _ rest))

theorem accepts_branch {keyword : Token} {ts us : List Token} {e : Expr} {body : List Stmt}
    (hk : keyword.kind = .ifWord) (h : Accepts stop .assignment ts e)
    (hd : Derives .block us body) (hb : Accepts stop .block us body) :
    Accepts stop .conditional (keyword :: (ts ++ us)) (Stmt.branch keyword e body none) := by
  refine ⟨keyword, ts ++ us, rfl, hk, fun rest hc => settles_succ ?_⟩
  simp only [List.append_assoc, branch]
  refine settles_andThen (settles_condition h hd rest) (settles_andThen (hb _ rest) ?_)
  cases rest with
  | nil => exact settles_const ⟨[], rfl⟩
  | cons t rest =>
      have ht : t.kind ≠ .elseWord := fun hk => hc.head (by rw [hk]; decide)
      simp only [if_neg ht]
      exact settles_const ⟨[], rfl⟩

theorem accepts_branchElse {keyword otherwise : Token} {ts us vs : List Token} {e : Expr}
    {body alternate : List Stmt} (hk : keyword.kind = .ifWord)
    (h : Accepts stop .assignment ts e) (hd : Derives .block us body)
    (hb : Accepts stop .block us body) (ho : otherwise.kind = .elseWord)
    (hdo : Derives .block vs alternate) (hbo : Accepts stop .block vs alternate) :
    Accepts stop .conditional (keyword :: (ts ++ (us ++ otherwise :: vs)))
      (Stmt.branch keyword e body (some alternate)) := by
  refine ⟨keyword, _, rfl, hk, fun rest _ => settles_succ ?_⟩
  simp only [List.append_assoc, List.cons_append, branch]
  refine settles_andThen (settles_condition h hd _) (settles_andThen (hb _ _) ?_)
  simp only [if_pos ho]
  have hread := hbo "else body" rest
  rcases hdo.starts rfl with ⟨left, ws, rfl, hleft⟩
  -- The block starts with its brace, so what follows the else is no branch.
  have hne : left.kind ≠ .ifWord := fun hk => absurd hleft (by rw [hk]; decide)
  simp only [List.cons_append, if_neg hne] at hread ⊢
  exact settles_map hread

theorem accepts_branchElseIf {keyword otherwise : Token} {ts us vs : List Token} {e : Expr}
    {body : List Stmt} {nested : Stmt} (hk : keyword.kind = .ifWord)
    (h : Accepts stop .assignment ts e) (hd : Derives .block us body)
    (hb : Accepts stop .block us body) (ho : otherwise.kind = .elseWord)
    (hn : Accepts stop .conditional vs nested) :
    Accepts stop .conditional (keyword :: (ts ++ (us ++ otherwise :: vs)))
      (Stmt.branch keyword e body (some [nested])) := by
  rcases hn with ⟨inner, ws, rfl, hinner, hread⟩
  refine ⟨keyword, _, rfl, hk, fun rest hc => settles_succ ?_⟩
  simp only [List.append_assoc, List.cons_append, branch]
  refine settles_andThen (settles_condition h hd _) (settles_andThen (hb _ _) ?_)
  simp only [if_pos ho, if_pos hinner]
  exact settles_map (hread rest hc)

theorem accepts_conditional {ts : List Token} {s : Stmt} (h : Accepts stop .conditional ts s) :
    Accepts stop .statement ts s := by
  rcases h with ⟨keyword, us, rfl, hk, hread⟩
  intro rest hc
  refine settles_succ ?_
  simp only [List.cons_append, statement, hk]
  exact hread rest hc

theorem accepts_block {left right : Token} {ts : List Token} {body : List Stmt}
    (hl : left.kind = .leftBrace) (h : Accepts stop .statements ts body)
    (hr : right.kind = .rightBrace) :
    Accepts stop .block (left :: (ts ++ [right])) body := by
  intro context rest
  refine settles_succ ?_
  simp only [List.cons_append, List.append_assoc, List.nil_append, block]
  exact settles_andThen (settles_expect hl _ _)
    (settles_andThen (h.1 right rest hr) (settles_map (settles_expect hr _ rest)))

theorem accepts_noStatements : Accepts stop .statements [] ([] : List Stmt) := by
  refine ⟨fun right rest hr => settles_succ ?_, settles_succ (settles_const ⟨[], rfl⟩)⟩
  simp only [List.nil_append, statements, if_pos hr]
  exact settles_const ⟨[], rfl⟩

/-- What follows a statement is another one, a brace or the end, and none of
    these starts with an else. -/
theorem clear_else {ts : List Token} {body : List Stmt} (hd : Derives .statements ts body)
    {rest : List Token} (hr : Clear [.elseWord] rest) : Clear [.elseWord] (ts ++ rest) := by
  cases hd with
  | noStatements => exact hr
  | nextStatement hs _ =>
      rw [List.append_assoc]
      exact clear_of_startsIn ((hs.starts rfl).append _) (by decide)

theorem accepts_nextStatement {ts us : List Token} {s : Stmt} {ss : List Stmt}
    (hd : Derives .statement ts s) (h : Accepts stop .statement ts s)
    (hds : Derives .statements us ss) (hs : Accepts stop .statements us ss) :
    Accepts stop .statements (ts ++ us) (s :: ss) := by
  rcases hd.starts rfl with ⟨t, vs, rfl, ht⟩
  have hbrace : t.kind ≠ .rightBrace := fun hk => absurd ht (by rw [hk]; decide)
  constructor
  · intro right rest hr
    have hread := h (us ++ right :: rest) (clear_else hds (clear_cons (by rw [hr]; decide)))
    refine settles_succ ?_
    simp only [List.cons_append, List.append_assoc, statements, if_neg hbrace] at hread ⊢
    exact settles_andThen hread (settles_map (hs.1 right rest hr))
  · have hread := h us (by simpa only [List.append_nil] using clear_else hds (clear_nil _))
    refine settles_succ ?_
    simp only [List.cons_append, program] at hread ⊢
    exact settles_andThen hread (settles_map hs.2)

end Statements

/-- The readers accept what the grammar derives. -/
theorem Grammar.Derives.accepts (stop : Token) {f : Form} {ts : List Token} {tree : f.Tree}
    (h : Derives f ts tree) : Accepts stop f ts tree := by
  induction h with
  | value _ ih => exact accepts_value ih
  | assign hn hop _ ih => exact accepts_assign hn hop ih
  | augmented hn hop _ ih => exact accepts_augmented hn hop ih
  | single _ ih => exact accepts_single ih
  | logical hrung _ hop _ ihl ihr =>
      have hlink := accepts_link ihl (joins_iff.mp hop) ihr
      rcases hrung with rfl | rfl
      · exact hlink
      · exact hlink
  | @binary rung _ _ _ _ _ hne hnb _ hop _ ihl ihr =>
      have hlink := accepts_link ihl (joins_iff.mp hop) ihr
      cases rung with
      | either => exact absurd rfl hne
      | both => exact absurd rfl hnb
      | _ => exact hlink
  | tighter hr _ ih => exact accepts_tighter hr ih
  | tightest _ ih => exact accepts_tightest ih
  | sign hop _ ih => exact accepts_sign hop ih
  | unsigned hd ih => exact accepts_unsigned hd ih
  | stepBefore hop hn => exact accepts_stepBefore hop hn
  | unstepped hd ih => exact accepts_unstepped hd ih
  | callee _ ih => exact accepts_callee ih
  | call _ hl _ hr ihf iha => exact accepts_call ihf hl iha hr
  | noArguments => exact accepts_noArguments
  | someArguments hd ih => exact accepts_someArguments hd ih
  | lastExpression _ ih => exact accepts_lastExpression ih
  | nextExpression _ hc _ ih ihs => exact accepts_nextExpression ih hc ihs
  | stepAfter hop hn => exact accepts_stepAfter hop hn
  | bare _ ih => exact accepts_bare ih
  | constant h =>
      rcases denotes_iff.mp h with ⟨hk, rfl⟩
      exact accepts_constant hk
  | name hk => exact accepts_name hk
  | grouping hl _ hr ih => exact accepts_grouping hl ih hr
  | noParameters => exact accepts_noParameters
  | someParameters hd ih => exact accepts_someParameters hd ih
  | lastName hk => exact accepts_lastName hk
  | nextName hk hc _ ih => exact accepts_nextName hk hc ih
  | function hk hn hl _ hr _ ihp ihb => exact accepts_function hk hn hl ihp hr ihb
  | giveBackNothing hk hs => exact accepts_giveBackNothing hk hs
  | giveBack hk hd hs ih => exact accepts_giveBack hk hd ih hs
  | delete hk _ hs ih => exact accepts_delete hk ih hs
  | loop hk _ hd ih ihb => exact accepts_loop hk ih hd ihb
  | conditional _ ih => exact accepts_conditional ih
  | branch hk _ hd ih ihb => exact accepts_branch hk ih hd ihb
  | branchElse hk _ hd ho hdo ih ihb ihbo => exact accepts_branchElse hk ih hd ihb ho hdo ihbo
  | branchElseIf hk _ hd ho _ ih ihb ihn => exact accepts_branchElseIf hk ih hd ihb ho ihn
  | echo hk _ hs ih => exact accepts_echo hk ih hs
  | leave hk hs => exact accepts_leave hk hs
  | next hk hs => exact accepts_next hk hs
  | expression hd hs ih => exact accepts_expression hd ih hs
  | block hl _ hr ih => exact accepts_block hl ih hr
  | noStatements => exact accepts_noStatements
  | nextStatement hd hds ih ihs => exact accepts_nextStatement hd ih hds ihs

/-- A derivable program is read, given a large enough counter. -/
theorem program_complete (stop : Token) {ts : List Token} {p : List Stmt}
    (h : Derives .statements ts p) : Settles (fun n => program stop n ts) p [] :=
  (h.accepts stop).2

end PocketScript
