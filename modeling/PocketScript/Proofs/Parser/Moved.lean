import PocketScript.Proofs.Parser.Reading
import PocketScript.Proofs.Program.Moved

/-!
# Parsing at other positions

The parser looks at the kinds of tokens and at nothing else to decide what to
do. The rest of a token goes into the tree, or into a fault or a remark, as it
is. So from moved tokens it makes the moved tree, and where it stops, it stops
at the moved token with the same complaint.

That moved tokens derive the moved tree is `Grammar.Derives.moved`. The grammar
says nothing about tokens that derive no tree, so for faults and remarks the
parser itself has to be followed.

## Main definitions

* `GrammarFault.moved`, `Reading.moved`, `Parsed.moved`: Faults, readings and
  what came of parsing, at other positions.
* `Moves`: A reading is another at other positions.
* `MovesExpressions`, `MovesStatements`: Readers follow moved tokens.

## Theorems

* `movesExpressions`, `movesStatements`: All readers do.
* `parse_moved`: From moved tokens comes the same, moved.
-/

namespace PocketScript

/-- A fault at another position. -/
def GrammarFault.moved (f : Position → Position) (e : GrammarFault) : GrammarFault :=
  { e with found := e.found.moved f }

/-- A reading at other positions. The form that was read is moved by `g`. -/
def Reading.moved {α : Type} (f : Position → Position) (g : α → α) : Reading α → Reading α
  | .done a rest remarks =>
    .done (g a) (rest.map (Token.moved f)) (remarks.map (GrammarFault.moved f))
  | .failed e remarks => .failed (e.moved f) (remarks.map (GrammarFault.moved f))
  | .starved => .starved

/-- What came of parsing, at other positions. -/
def Parsed.moved (f : Position → Position) (p : Parsed) : Parsed where
  outcome := (p.outcome.map (Stmt.movedAll f)).mapError (GrammarFault.moved f)
  remarks := p.remarks.map (GrammarFault.moved f)

theorem Token.kind_moved (f : Position → Position) (t : Token) : (t.moved f).kind = t.kind := rfl

open Reading

/-- The second reading is the first at other positions. -/
def Moves {α : Type} (f : Position → Position) (g : α → α) (r r' : Reading α) : Prop :=
  r' = r.moved f g

section

variable {α β : Type} {f : Position → Position} {g : α → α} {g' : β → β}

theorem moves_noting {r r' : Reading α} (remarks : List GrammarFault) (h : Moves f g r r') :
    Moves f g (r.noting remarks) (r'.noting (remarks.map (GrammarFault.moved f))) := by
  rw [Moves] at h ⊢
  subst h
  cases r with
  | done a rest more => simp only [noting, Reading.moved, List.map_append]
  | failed e more => simp only [noting, Reading.moved, List.map_append]
  | starved => rfl

theorem moves_andThen {r r' : Reading α} {k k' : α → List Token → Reading β} (h : Moves f g r r')
    (hk : ∀ a rest, Moves f g' (k a rest) (k' (g a) (rest.map (Token.moved f)))) :
    Moves f g' (r.andThen k) (r'.andThen k') := by
  rw [Moves] at h
  subst h
  cases r with
  | done a rest remarks => exact moves_noting remarks (hk a rest)
  | failed e remarks => rfl
  | starved => rfl

theorem moves_map {r r' : Reading α} {k k' : α → β} (h : Moves f g r r')
    (hk : ∀ a, k' (g a) = g' (k a)) : Moves f g' (r.map k) (r'.map k') := by
  refine moves_andThen h fun a rest => ?_
  rw [hk a]
  rfl

end

variable (f : Position → Position)

theorem nextIs_moved (k : Kind) (ts : List Token) :
    nextIs k (ts.map (Token.moved f)) = nextIs k ts := by
  cases ts <;> rfl

theorem excess_moved (detail : Text) (count : Nat) (t : Token) :
    excess detail count (t.moved f) = (excess detail count t).map (GrammarFault.moved f) := by
  rw [excess, excess]
  split <;> rfl

theorem moves_expect (stop : Token) (k : Kind) (detail : Text) (ts : List Token) :
    Moves f (Token.moved f) (expect stop k detail ts)
      (expect (stop.moved f) k detail (ts.map (Token.moved f))) := by
  cases ts with
  | nil => rfl
  | cons t rest =>
      rw [List.map_cons, expect, expect, Token.kind_moved]
      split <;> rfl

theorem moves_names (stop : Token) (detail : Text) (remarks : Nat → Token → List GrammarFault)
    (hremarks : ∀ count t, remarks count (t.moved f) = (remarks count t).map (GrammarFault.moved f))
    (ts : List Token) : ∀ count, Moves f (List.map (Token.moved f))
      (names stop detail remarks count ts)
      (names (stop.moved f) detail remarks count (ts.map (Token.moved f))) := by
  -- A name and the comma after it are read at once, so the induction is on the
  -- length.
  induction hn : ts.length using Nat.strongRecOn generalizing ts with
  | _ n ih =>
    intro count
    cases ts with
    | nil =>
        simp only [List.map_nil, names, hremarks]
        rfl
    | cons t rest =>
        cases rest with
        | nil =>
            rw [List.map_cons, List.map_nil, names, names, hremarks, Token.kind_moved]
            split <;> rfl
        | cons c rest =>
            rw [List.map_cons, List.map_cons, names, names, hremarks, Token.kind_moved,
              Token.kind_moved]
            split
            · split
              · refine moves_noting _ (moves_map (ih rest.length ?_ rest rfl (count + 1)) ?_)
                · rw [← hn, List.length_cons, List.length_cons]
                  omega
                · exact fun _ => rfl
              · rfl
            · rfl

/-- What is read as an expression is read at other positions. -/
structure MovesExpressions (stop : Token) (n : Nat) : Prop where
  expression : ∀ ts, Moves f (Expr.moved f) (expression stop n ts)
    (expression (stop.moved f) n (ts.map (Token.moved f)))
  chain : ∀ r ts, Moves f (Expr.moved f) (chain stop n r ts)
    (chain (stop.moved f) n r (ts.map (Token.moved f)))
  links : ∀ r e ts, Moves f (Expr.moved f) (links stop n r e ts)
    (links (stop.moved f) n r (e.moved f) (ts.map (Token.moved f)))
  operand : ∀ r ts, Moves f (Expr.moved f) (operand stop n r ts)
    (operand (stop.moved f) n r (ts.map (Token.moved f)))
  signed : ∀ ts, Moves f (Expr.moved f) (signed stop n ts)
    (signed (stop.moved f) n (ts.map (Token.moved f)))
  stepped : ∀ ts, Moves f (Expr.moved f) (stepped stop n ts)
    (stepped (stop.moved f) n (ts.map (Token.moved f)))
  called : ∀ ts, Moves f (Expr.moved f) (called stop n ts)
    (called (stop.moved f) n (ts.map (Token.moved f)))
  calls : ∀ e ts, Moves f (Expr.moved f) (calls stop n e ts)
    (calls (stop.moved f) n (e.moved f) (ts.map (Token.moved f)))
  arguments : ∀ c ts, Moves f (Expr.movedAll f) (arguments stop n c ts)
    (arguments (stop.moved f) n c (ts.map (Token.moved f)))
  suffixed : ∀ ts, Moves f (Expr.moved f) (suffixed stop n ts)
    (suffixed (stop.moved f) n (ts.map (Token.moved f)))
  primary : ∀ ts, Moves f (Expr.moved f) (primary stop n ts)
    (primary (stop.moved f) n (ts.map (Token.moved f)))

section MovesExpressions

variable {f} {stop : Token} {n : Nat}

theorem expression_moves (h : MovesExpressions f stop n) (ts : List Token) :
    Moves f (Expr.moved f) (expression stop (n + 1) ts)
      (expression (stop.moved f) (n + 1) (ts.map (Token.moved f))) := by
  rw [expression, expression]
  refine moves_andThen (h.chain .either ts) fun left rest => ?_
  cases rest with
  | nil => rfl
  | cons op rest =>
      simp only [List.map_cons]
      rw [Token.kind_moved]
      -- Moving keeps the form of the target, and only a name is one.
      split
      · cases left with
        | reference name =>
            simp only [Expr.moved]
            exact moves_map (h.expression rest) fun e => by simp only [Expr.moved]
        | _ =>
            simp only [Expr.moved]
            rfl
      · split
        · cases left with
          | reference name =>
              simp only [Expr.moved]
              exact moves_map (h.expression rest) fun e => by simp only [Expr.moved]
          | _ =>
              simp only [Expr.moved]
              rfl
        · rfl

theorem combine_moved (r : Rung) (left : Expr) (op : Token) (right : Expr) :
    r.combine (left.moved f) (op.moved f) (right.moved f) = (r.combine left op right).moved f := by
  cases r <;> simp only [Rung.combine, Expr.moved]

theorem links_moves (h : MovesExpressions f stop n) (r : Rung) (e : Expr) (ts : List Token) :
    Moves f (Expr.moved f) (links stop (n + 1) r e ts)
      (links (stop.moved f) (n + 1) r (e.moved f) (ts.map (Token.moved f))) := by
  cases ts with
  | nil => rfl
  | cons op ts =>
      rw [List.map_cons, links, links, Token.kind_moved]
      split
      · refine moves_andThen (h.operand r ts) fun right rest => ?_
        rw [combine_moved]
        exact h.links r _ rest
      · rfl

theorem operand_moves (h : MovesExpressions f stop n) (r : Rung) (ts : List Token) :
    Moves f (Expr.moved f) (operand stop (n + 1) r ts)
      (operand (stop.moved f) (n + 1) r (ts.map (Token.moved f))) := by
  rw [operand, operand]
  cases r.above with
  | some next => exact h.chain next ts
  | none => exact h.signed ts

theorem signed_moves (h : MovesExpressions f stop n) (ts : List Token) :
    Moves f (Expr.moved f) (signed stop (n + 1) ts)
      (signed (stop.moved f) (n + 1) (ts.map (Token.moved f))) := by
  cases ts with
  | nil => exact h.stepped []
  | cons op ts =>
      rw [List.map_cons, signed, signed, Token.kind_moved]
      split
      · exact moves_map (h.signed ts) fun e => by simp only [Expr.moved]
      · exact h.stepped (op :: ts)

/-- An operator that steps what was read, if that is a name. -/
theorem step_moves (op : Token) (detail : Text) (e : Expr) (rest : List Token) :
    Moves f (Expr.moved f)
      (match e with
        | .reference name => done (.step op name) rest []
        | _ => failed (badTarget op detail) [])
      (match e.moved f with
        | .reference name => done (.step (op.moved f) name) (rest.map (Token.moved f)) []
        | _ => failed (badTarget (op.moved f) detail) []) := by
  cases e <;> simp only [Expr.moved] <;> simp only [Moves, Reading.moved, Expr.moved] <;> rfl

theorem stepped_moves (h : MovesExpressions f stop n) (ts : List Token) :
    Moves f (Expr.moved f) (stepped stop (n + 1) ts)
      (stepped (stop.moved f) (n + 1) (ts.map (Token.moved f))) := by
  cases ts with
  | nil => exact h.called []
  | cons op ts =>
      rw [List.map_cons, stepped, stepped, Token.kind_moved]
      split
      · exact moves_andThen (h.called ts) fun e rest => step_moves op _ e rest
      · exact h.called (op :: ts)

theorem calls_moves (h : MovesExpressions f stop n) (e : Expr) (ts : List Token) :
    Moves f (Expr.moved f) (calls stop (n + 1) e ts)
      (calls (stop.moved f) (n + 1) (e.moved f) (ts.map (Token.moved f))) := by
  cases ts with
  | nil => rfl
  | cons t ts =>
      rw [List.map_cons, calls, calls, Token.kind_moved, nextIs_moved]
      split
      · refine moves_andThen (g := Expr.movedAll f) ?_ fun args rest => ?_
        · split
          · simp only [Moves, Reading.moved, Expr.movedAll, List.map_nil]
          · exact h.arguments 0 ts
        · refine moves_andThen (moves_expect f stop _ _ rest) fun paren rest => ?_
          have hcall : (Expr.call e paren args).moved f =
              .call (e.moved f) (paren.moved f) (Expr.movedAll f args) := by rw [Expr.moved]
          rw [← hcall]
          exact h.calls _ rest
      · rfl

theorem arguments_moves (h : MovesExpressions f stop n) (count : Nat) (ts : List Token) :
    Moves f (Expr.movedAll f) (arguments stop (n + 1) count ts)
      (arguments (stop.moved f) (n + 1) count (ts.map (Token.moved f))) := by
  have hpeek : peek (stop.moved f) (ts.map (Token.moved f)) = (peek stop ts).moved f := by
    cases ts <;> rfl
  rw [arguments, arguments, hpeek, excess_moved]
  refine moves_noting _ (moves_andThen (h.expression ts) fun arg rest => ?_)
  cases rest with
  | nil => simp only [List.map_nil, Moves, Reading.moved, Expr.movedAll]
  | cons c rest =>
      simp only [List.map_cons]
      rw [Token.kind_moved]
      split
      · exact moves_map (h.arguments (count + 1) rest) fun es => by simp only [Expr.movedAll]
      · simp only [Moves, Reading.moved, Expr.movedAll, List.map_cons, List.map_nil]

theorem suffixed_moves (h : MovesExpressions f stop n) (ts : List Token) :
    Moves f (Expr.moved f) (suffixed stop (n + 1) ts)
      (suffixed (stop.moved f) (n + 1) (ts.map (Token.moved f))) := by
  rw [suffixed, suffixed]
  refine moves_andThen (h.primary ts) fun e rest => ?_
  cases rest with
  | nil => rfl
  | cons op rest =>
      simp only [List.map_cons]
      rw [Token.kind_moved]
      split
      · exact step_moves op _ e rest
      · rfl

theorem primary_moves (h : MovesExpressions f stop n) (ts : List Token) :
    Moves f (Expr.moved f) (primary stop (n + 1) ts)
      (primary (stop.moved f) (n + 1) (ts.map (Token.moved f))) := by
  cases ts with
  | nil => rfl
  | cons t ts =>
      rw [List.map_cons, primary, primary, Token.kind_moved]
      split
      · simp only [Moves, Reading.moved, Expr.moved, List.map_nil]
        rfl
      · split
        · simp only [Moves, Reading.moved, Expr.moved, List.map_nil]
        · split
          · refine moves_andThen (h.expression ts) fun inner rest => ?_
            refine moves_map (moves_expect f stop _ _ rest) fun _ => ?_
            rw [Expr.moved]
            rfl
          · rfl

end MovesExpressions

theorem movesExpressions (stop : Token) (n : Nat) : MovesExpressions f stop n := by
  induction n with
  | zero => constructor <;> intros <;> rfl
  | succ n ih =>
      exact
        { expression := expression_moves ih
          chain := fun r ts => by
            rw [chain, chain]
            exact moves_andThen (ih.operand r ts) fun left rest => ih.links r left rest
          links := links_moves ih
          operand := operand_moves ih
          signed := signed_moves ih
          stepped := stepped_moves ih
          called := fun ts => by
            rw [called, called]
            exact moves_andThen (ih.suffixed ts) fun e rest => ih.calls e rest
          calls := calls_moves ih
          arguments := arguments_moves ih
          suffixed := suffixed_moves ih
          primary := primary_moves ih }

theorem moves_terminated (stop : Token) (n : Nat) (detail : Text) (ts : List Token) :
    Moves f (Expr.moved f) (terminated stop n detail ts)
      (terminated (stop.moved f) n detail (ts.map (Token.moved f))) :=
  moves_andThen ((movesExpressions f stop n).expression ts) fun _ rest =>
    moves_map (moves_expect f stop _ _ rest) fun _ => rfl

theorem moves_giveBack (stop : Token) (n : Nat) (keyword : Token) (ts : List Token) :
    Moves f (Stmt.moved f) (giveBack stop n keyword ts)
      (giveBack (stop.moved f) n (keyword.moved f) (ts.map (Token.moved f))) := by
  rw [giveBack, giveBack, nextIs_moved]
  split
  · exact moves_map (moves_expect f stop _ _ ts) fun _ => by simp only [Stmt.moved, Option.map_none]
  · exact moves_map (moves_terminated f stop n _ ts) fun e => by
      simp only [Stmt.moved, Option.map_some]

theorem moves_delete (stop keyword : Token) (ts : List Token) :
    Moves f (Stmt.moved f) (delete stop keyword ts)
      (delete (stop.moved f) (keyword.moved f) (ts.map (Token.moved f))) := by
  rw [delete, delete]
  refine moves_andThen (moves_names f stop _ _ (fun _ _ => rfl) ts 0) fun targets rest => ?_
  exact moves_map (moves_expect f stop _ _ rest) fun _ => by simp only [Stmt.moved]

theorem moves_parameters (stop : Token) (ts : List Token) :
    Moves f (List.map (Token.moved f)) (parameters stop ts)
      (parameters (stop.moved f) (ts.map (Token.moved f))) := by
  rw [parameters, parameters, nextIs_moved]
  refine moves_andThen (g := List.map (Token.moved f)) ?_ fun params rest =>
    moves_map (moves_expect f stop _ _ rest) fun _ => rfl
  split
  · rfl
  · exact moves_names f stop _ _ (excess_moved f _) ts 0

/-- What is read as statements is read at other positions. -/
structure MovesStatements (stop : Token) (n : Nat) : Prop where
  statement : ∀ ts, Moves f (Stmt.moved f) (statement stop n ts)
    (statement (stop.moved f) n (ts.map (Token.moved f)))
  branch : ∀ t ts, Moves f (Stmt.moved f) (branch stop n t ts)
    (branch (stop.moved f) n (t.moved f) (ts.map (Token.moved f)))
  block : ∀ c ts, Moves f (Stmt.movedAll f) (block stop n c ts)
    (block (stop.moved f) n c (ts.map (Token.moved f)))
  statements : ∀ ts, Moves f (Stmt.movedAll f) (statements stop n ts)
    (statements (stop.moved f) n (ts.map (Token.moved f)))

section MovesStatements

variable {f} {stop : Token} {n : Nat}

theorem statement_moves (h : MovesStatements f stop n) (ts : List Token) :
    Moves f (Stmt.moved f) (statement stop (n + 1) ts)
      (statement (stop.moved f) (n + 1) (ts.map (Token.moved f))) := by
  have hvalue : ∀ detail ts, Moves f (Stmt.moved f) ((terminated stop n detail ts).map .expression)
      ((terminated (stop.moved f) n detail (ts.map (Token.moved f))).map .expression) :=
    fun detail ts => moves_map (moves_terminated f stop n detail ts) fun e => by
      simp only [Stmt.moved]
  have hexpr := (movesExpressions f stop n).expression
  cases ts with
  | nil => exact hvalue _ []
  | cons t ts =>
      rw [List.map_cons, statement, statement, Token.kind_moved]
      split
      · refine moves_andThen (moves_expect f stop _ _ ts) fun name rest => ?_
        refine moves_andThen (moves_expect f stop _ _ rest) fun _ rest => ?_
        refine moves_andThen (moves_parameters f stop rest) fun params rest => ?_
        exact moves_map (h.block _ rest) fun b => by simp only [Stmt.moved]
      · exact moves_giveBack f stop n t ts
      · exact moves_delete f stop t ts
      · refine moves_andThen (hexpr ts) fun condition rest => ?_
        exact moves_map (h.block _ rest) fun b => by simp only [Stmt.moved]
      · exact h.branch t ts
      · exact moves_map (moves_terminated f stop n _ ts) fun e => by simp only [Stmt.moved]
      · exact moves_map (moves_expect f stop _ _ ts) fun _ => by simp only [Stmt.moved]
      · exact moves_map (moves_expect f stop _ _ ts) fun _ => by simp only [Stmt.moved]
      · exact hvalue _ (t :: ts)

theorem branch_moves (h : MovesStatements f stop n) (keyword : Token) (ts : List Token) :
    Moves f (Stmt.moved f) (branch stop (n + 1) keyword ts)
      (branch (stop.moved f) (n + 1) (keyword.moved f) (ts.map (Token.moved f))) := by
  rw [branch, branch]
  refine moves_andThen ((movesExpressions f stop n).expression ts) fun condition rest => ?_
  refine moves_andThen (h.block _ rest) fun consequent rest => ?_
  have helse : ∀ b, Stmt.branch (keyword.moved f) (condition.moved f) (Stmt.movedAll f consequent)
      (some (Stmt.movedAll f b)) = (Stmt.branch keyword condition consequent (some b)).moved f :=
    fun b => by simp only [Stmt.moved, Stmt.movedElse]
  cases rest with
  | nil => simp only [List.map_nil, Moves, Reading.moved, Stmt.moved, Stmt.movedElse]
  | cons t rest =>
      simp only [List.map_cons]
      rw [Token.kind_moved]
      split
      · cases rest with
        | nil => exact moves_map (h.block _ []) helse
        | cons i rest =>
            simp only [List.map_cons]
            rw [Token.kind_moved]
            split
            · -- A branch after an else is the one statement of the else part.
              refine moves_map (h.branch i rest) fun nested => ?_
              rw [← helse [nested]]
              simp only [Stmt.movedAll]
            · exact moves_map (h.block _ (i :: rest)) helse
      · simp only [Moves, Reading.moved, Stmt.moved, Stmt.movedElse, List.map_cons, List.map_nil]

theorem block_moves (h : MovesStatements f stop n) (context : Text) (ts : List Token) :
    Moves f (Stmt.movedAll f) (block stop (n + 1) context ts)
      (block (stop.moved f) (n + 1) context (ts.map (Token.moved f))) := by
  rw [block, block]
  refine moves_andThen (moves_expect f stop _ _ ts) fun _ rest => ?_
  refine moves_andThen (h.statements rest) fun body rest => ?_
  exact moves_map (moves_expect f stop _ _ rest) fun _ => rfl

theorem statements_moves (h : MovesStatements f stop n) (ts : List Token) :
    Moves f (Stmt.movedAll f) (statements stop (n + 1) ts)
      (statements (stop.moved f) (n + 1) (ts.map (Token.moved f))) := by
  cases ts with
  | nil => simp only [List.map_nil, statements, Moves, Reading.moved, Stmt.movedAll]
  | cons t ts =>
      rw [List.map_cons, statements, statements, Token.kind_moved]
      split
      · simp only [Moves, Reading.moved, Stmt.movedAll, List.map_cons, List.map_nil]
      · refine moves_andThen (h.statement (t :: ts)) fun s rest => ?_
        exact moves_map (h.statements rest) fun b => by simp only [Stmt.movedAll]

end MovesStatements

theorem movesStatements (stop : Token) (n : Nat) : MovesStatements f stop n := by
  induction n with
  | zero => constructor <;> intros <;> rfl
  | succ n ih =>
      exact
        { statement := statement_moves ih
          branch := branch_moves ih
          block := block_moves ih
          statements := statements_moves ih }

theorem program_moves (stop : Token) (n : Nat) (ts : List Token) :
    Moves f (Stmt.movedAll f) (program stop n ts)
      (program (stop.moved f) n (ts.map (Token.moved f))) := by
  induction n generalizing ts with
  | zero => rfl
  | succ n ih =>
      cases ts with
      | nil => simp only [List.map_nil, program, Moves, Reading.moved, Stmt.movedAll]
      | cons t ts =>
          rw [List.map_cons, program, program]
          refine moves_andThen ((movesStatements f stop n).statement (t :: ts)) fun s rest => ?_
          exact moves_map (ih rest) fun b => by simp only [Stmt.movedAll]

/-- From moved tokens the parser makes the same, moved, if it takes the moved
    token for the end of the input. -/
theorem parse_moved_of_endToken {ts : List Token}
    (hstop : endToken (ts.map (Token.moved f)) = (endToken ts).moved f) :
    parse (ts.map (Token.moved f)) = (parse ts).moved f := by
  have hbefore : (ts.map (Token.moved f)).takeWhile (fun t => !t.isEnd) =
      (ts.takeWhile fun t => !t.isEnd).map (Token.moved f) := by
    rw [List.takeWhile_map]
    rfl
  rw [parse, parse, hstop, hbefore, descentBound, List.length_map, ← descentBound,
    program_moves f (endToken ts)]
  cases program (endToken ts) (descentBound _) _ with
  | done p rest remarks => rfl
  | failed e remarks => rfl
  | starved => rfl

theorem find?_isEnd_moved (ts : List Token) :
    (ts.map (Token.moved f)).find? Token.isEnd = (ts.find? Token.isEnd).map (Token.moved f) := by
  rw [List.find?_map]
  rfl

/-- A token that ends the input ends it at any position. -/
theorem parse_moved_of_end {ts : List Token} (hend : ∃ t ∈ ts, t.isEnd = true) :
    parse (ts.map (Token.moved f)) = (parse ts).moved f := by
  refine parse_moved_of_endToken f ?_
  rw [endToken, endToken, find?_isEnd_moved]
  cases hfind : ts.find? Token.isEnd with
  | some t => rfl
  | none =>
      rcases hend with ⟨t, ht, hkind⟩
      rw [List.find?_eq_none] at hfind
      exact absurd hkind (hfind t ht)

/-- From moved tokens the parser makes the same, moved. If no token ends the
    input, the parser puts the end where the last token is, or at the start,
    which moving has to leave alone. -/
theorem parse_moved (hstart : f .start = .start) (ts : List Token) :
    parse (ts.map (Token.moved f)) = (parse ts).moved f := by
  refine parse_moved_of_endToken f ?_
  rw [endToken, endToken, find?_isEnd_moved]
  cases ts.find? Token.isEnd with
  | some t => rfl
  | none =>
      rw [List.getLast?_map]
      cases ts.getLast? with
      | none => simp only [Option.map_none, Option.getD_none, Token.endAt, Token.moved, hstart]
      | some t => rfl

end PocketScript
