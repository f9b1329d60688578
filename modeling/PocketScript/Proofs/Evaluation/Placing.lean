import PocketScript.Proofs.Evaluation.LockStep
import PocketScript.Proofs.Program.Moved

/-!
# Positions do not matter to a run

Programs that are the same up to positions run alike. What they leave behind
is the same up to positions too: the same output, the same names bound to the
same values with the positions in the bodies of functions aside, and the same
fault with the positions in it and in its frames aside.

## Main definitions

* `placing`: Programs correspond if they are the same up to positions.
* `Value.unplaced`, `RuntimeFault.unplaced`: Values and faults without
  positions.
* `Session.unplacedGlobals`: The outermost bindings without positions.

## Theorems

* `unplaced_of_values`, `unplaced_of_faults`: Related means equal up to
  positions.
* `unplacedGlobals_of_sessions`: The same for sessions.
-/

namespace PocketScript

theorem forall₂_iff_map_eq {α β : Type} (f : α → β) (xs ys : List α) :
    List.Forall₂ (fun x y => f x = f y) xs ys ↔ xs.map f = ys.map f := by
  rw [← List.forall₂_eq_eq_eq, List.forall₂_map_left_iff, List.forall₂_map_right_iff]

section

variable (f : Position → Position)

/-- Expressions that moving makes equal are of one form. -/
theorem exprCases_of_moved_eq {e e' : Expr} (h : e.moved f = e'.moved f) :
    ExprCases (fun t t' => t.moved f = t'.moved f) (fun e e' => e.moved f = e'.moved f) e e' := by
  cases e <;> cases e' <;> simp only [Expr.moved, reduceCtorEq, Expr.constant.injEq,
    Expr.grouping.injEq, Expr.reference.injEq, Expr.assign.injEq, Expr.augmented.injEq,
    Expr.step.injEq, Expr.unary.injEq, Expr.binary.injEq, Expr.logical.injEq,
    Expr.call.injEq] at h
  case constant.constant =>
    rcases h with ⟨rfl, _⟩
    exact .constant _ _ _
  case grouping.grouping => exact .grouping h.1
  case reference.reference => exact .reference h
  case assign.assign => exact .assign h.1 h.2
  case augmented.augmented => exact .augmented h.1 h.2.1 h.2.2
  case step.step => exact .step h.1 h.2
  case unary.unary => exact .unary h.1 h.2
  case binary.binary => exact .binary h.1 h.2.1 h.2.2
  case logical.logical => exact .logical h.1 h.2.1 h.2.2
  case call.call =>
    rcases h with ⟨hf, hparen, hargs⟩
    rw [Expr.movedAll_eq_map, Expr.movedAll_eq_map] at hargs
    exact .call hf hparen ((forall₂_iff_map_eq _ _ _).mpr hargs)

/-- Statements that moving makes equal are of one form. -/
theorem stmtCases_of_moved_eq {st st' : Stmt} (h : st.moved f = st'.moved f) :
    StmtCases (fun t t' => t.moved f = t'.moved f) (fun e e' => e.moved f = e'.moved f)
      (fun b b' => Stmt.movedAll f b = Stmt.movedAll f b') st st' := by
  cases st <;> cases st' <;> simp only [Stmt.moved, reduceCtorEq, Stmt.function.injEq,
    Stmt.loop.injEq, Stmt.branch.injEq, Stmt.giveBack.injEq, Stmt.leave.injEq, Stmt.next.injEq,
    Stmt.delete.injEq, Stmt.expression.injEq, Stmt.echo.injEq] at h
  case function.function => exact .function h.1 ((forall₂_iff_map_eq _ _ _).mpr h.2.1) h.2.2
  case giveBack.giveBack k value k' value' =>
    rcases h with ⟨hk, hvalue⟩
    cases value <;> cases value' <;>
      simp only [Option.map_none, Option.map_some, reduceCtorEq, Option.some.injEq] at hvalue
    · exact .giveBackNothing hk
    · exact .giveBack hk hvalue
  case delete.delete => exact .delete ((forall₂_iff_map_eq _ _ _).mpr h.2)
  case loop.loop => exact .loop h.2.1 h.2.2
  case branch.branch k e b alternate k' e' b' alternate' =>
    rcases h with ⟨_, he, hb, helse⟩
    cases alternate <;> cases alternate' <;>
      simp only [Stmt.movedElse, reduceCtorEq, Option.some.injEq] at helse
    · exact .branch he hb
    · exact .branchElse he hb helse
  case expression.expression => exact .expression h
  case echo.echo => exact .echo h.2
  case leave.leave => exact .leave h
  case next.next => exact .next h

theorem bodyCases_of_moved_eq {b b' : List Stmt} (h : Stmt.movedAll f b = Stmt.movedAll f b') :
    BodyCases (fun st st' => st.moved f = st'.moved f)
      (fun b b' => Stmt.movedAll f b = Stmt.movedAll f b') b b' := by
  cases b <;> cases b' <;> simp only [Stmt.movedAll, reduceCtorEq, List.cons.injEq] at h
  · exact .nil
  · exact .cons h.1 (Or.inl h.2)

end

/-- Programs correspond if they are the same up to positions. -/
def placing : Correspondence where
  exact := False
  token t t' := t.moved unplaced = t'.moved unplaced
  expr e e' := e.moved unplaced = e'.moved unplaced
  stmt st st' := st.moved unplaced = st'.moved unplaced
  body b b' := Stmt.movedAll unplaced b = Stmt.movedAll unplaced b'
  token_refl _ := rfl
  body_refl _ := rfl
  token_like {t t'} h := by
    rcases t with ⟨kind, lexeme, literal, pos⟩
    rcases t' with ⟨kind', lexeme', literal', pos'⟩
    simp only [Token.moved, Token.mk.injEq] at h
    exact ⟨h.1, h.2.1, False.elim⟩
  expr_cases := exprCases_of_moved_eq unplaced
  stmt_cases := stmtCases_of_moved_eq unplaced
  body_cases := bodyCases_of_moved_eq unplaced

/-- A value without the positions in the body of a function. -/
def Value.unplaced : Value → Value
  | .function f => .function { f with
      params := f.params.map (Token.moved PocketScript.unplaced)
      body := Stmt.movedAll PocketScript.unplaced f.body }
  | v => v

/-- A fault without the positions in it and without the line it shows. -/
def RuntimeFault.unplaced (e : RuntimeFault) : RuntimeFault :=
  { e with
    pos := .start
    codeFrame := []
    frames := e.frames.map fun frames => frames.map fun f => { f with pos := .start } }

/-- The outermost bindings of a session, with values without positions. -/
def Session.unplacedGlobals (s : Session) : Bindings :=
  s.globals.map fun entry => (entry.1, entry.2.unplaced)

theorem unplaced_of_values {v v' : Value} (h : placing.Values v v') : v.unplaced = v'.unplaced := by
  cases h with
  | function hparams hb =>
      have hmap := (forall₂_iff_map_eq (Token.moved PocketScript.unplaced) _ _).mp hparams
      have hbody : Stmt.movedAll _ _ = Stmt.movedAll _ _ := hb
      rw [Value.unplaced, Value.unplaced]
      simp only [hmap, hbody]
  | _ => rfl

theorem unplaced_of_faults {e e' : RuntimeFault} (h : placing.Faults e e') :
    e.unplaced = e'.unplaced := by
  have hframes := h.frames
  simp only [RuntimeFault.unplaced, h.cause, h.message, h.name, h.operator, h.expected, h.actual,
    RuntimeFault.mk.injEq, true_and]
  generalize e.frames = fs at hframes ⊢
  generalize e'.frames = fs' at hframes ⊢
  cases hframes with
  | none => rfl
  | some hfs =>
      rw [Option.map_some, Option.map_some]
      refine congrArg some ?_
      induction hfs with
      | nil => rfl
      | cons hf _ ih => rw [List.map_cons, List.map_cons, hf.1, ih]

theorem unplacedGlobals_of_sessions {s s' : Session} (h : placing.Sessions s s') :
    s.unplacedGlobals = s'.unplacedGlobals := h.map_globals_eq unplaced_of_values

end PocketScript
