import Mathlib
import PocketScript.Proofs.Evaluation.Code

/-!
# What operators refuse

An operator that is given operands it is not defined for raises a fault. There are two
ways to get there: the values are of the wrong kinds, or the token in the operator's
place is of a kind that the evaluator knows no operation for. In a program that was
parsed the second never happens, so what is refused can be told from the kinds of the
values alone.

That takes knowing where the code of a run comes from. It can be the code of a function
that was declared long ago, by a program that the host ran or by a source that a native
function ran, or of one that a native function made of what it got from the parser. All
of it was parsed, and so by `Code` all code that comes up has the operators that the
grammar puts there.

## Main definitions

* `Value.OfParsed`: Values without code that was not parsed.
* `Task.OfParsed`, `Session.OfParsed`: Runs of parsed programs, and the sessions that
  come of them.
* `Outcome.Refuses`: An operator was given operands it is not defined for.
* `Outcome.Decided`: Whether it was is decided by a condition.

## Theorems

* `Value.isSome_binary?_iff` and its neighbours: What operators are defined for.
* `Session.OfParsed.ready`: All functions that are bound were parsed.
* `operators_have_no_dead_ends`: What is refused, in all runs of parsed programs.
-/

namespace PocketScript

/-- A run of a source, or of a program that was parsed from some tokens. -/
inductive Task.OfParsed : Task → Prop where
  | source (n : Nat) (source : Text) (s : Session) : OfParsed (.runSource n source s)
  | program {ts : List Token} {p : List Stmt} (n : Nat) (s : Session) :
      (parse ts).outcome = .ok p → OfParsed (.interpret n p s)

/-- Statements that were parsed from some tokens. -/
def Stmt.ParsedAll (body : List Stmt) : Prop := ∃ ts, (parse ts).outcome = .ok body

/-- Anything but a function of code that was not parsed, or a native function that makes
    such functions. -/
def Value.OfParsed : Value → Prop
  | function f => Stmt.ParsedAll f.body
  | native f => f.action.Brings Stmt.ParsedAll
  | _ => True

/-- The sessions that come of running nothing but parsed programs. A run can have ended
    with a fault. Between runs the host can offer native functions, remove names and bind
    them. The one thing it does not do is to make functions of code that it did not get
    from the parser. -/
inductive Session.OfParsed : Session → Prop where
  | fresh (clock : Clock) (muted logging : Bool) : OfParsed (fresh clock muted logging)
  | registered {s : Session} {action : Native} (name : Text) (arity : Int) :
      OfParsed s → action.Brings Stmt.ParsedAll → OfParsed (s.register name arity action)
  | redirected {s : Session} (echoed : Array Text) (muted : Bool) (memory : Text) :
      OfParsed s → OfParsed { s with echoed := echoed, muted := muted, memory := memory }
  | bound {s : Session} {v : Value} (level : LevelId) (name : Text) :
      OfParsed s → v.OfParsed → OfParsed (s.bind level name v)
  | removed {s : Session} {store : Store} {level : LevelId} {name : Text} :
      OfParsed s → s.store.remove level name = some store → OfParsed { s with store := store }
  | ran {run : Task} {t : Session} :
      run.OfParsed → run.session.OfParsed → run.left? = some t → OfParsed t

/-- An operator was given operands that it is not defined for. -/
def Outcome.Refuses (o : Outcome RuntimeFault Value) : Prop :=
  ∃ e t, o = .fault e t ∧ e.cause = .invalidOperands

/-- Operands are refused unless the condition holds, and then there is a value. -/
structure Outcome.Decided (o : Outcome RuntimeFault Value) (fits : Prop) : Prop where
  refuses : o.Refuses ↔ ¬fits
  value : fits → ∃ v t, o = .ok v t

namespace Value

/-- The value is a number. -/
def IsNumber : Value → Prop
  | number _ => True
  | _ => False

/-- The value is a string. -/
def IsString : Value → Prop
  | string _ => True
  | _ => False

/-- Two numbers can be joined by every operator there is, two strings by `+`. -/
theorem isSome_binary?_iff {op : Kind} (hop : ∀ x y, (arithmetic? op x y).isSome = true)
    (a b : Value) :
    (binary? op a b).isSome = true ↔
      a.IsNumber ∧ b.IsNumber ∨ op = .plus ∧ a.IsString ∧ b.IsString := by
  cases a with
  | number x => cases b <;> simp [binary?, IsNumber, IsString, hop]
  | string x => cases b <;> simp [binary?, IsNumber, IsString]
  | _ => simp [binary?, IsNumber, IsString]

theorem isSome_unary?_iff {op : Kind} (hop : op ∈ [Kind.bang, .minus, .plus]) (v : Value) :
    (v.unary? op).isSome = true ↔ op = .bang ∨ v.IsNumber := by
  simp only [List.mem_cons, List.not_mem_nil, or_false] at hop
  rcases hop with rfl | rfl | rfl <;> cases v <;> simp [unary?, IsNumber]

theorem isSome_step?_iff (op : Kind) (v : Value) :
    (v.step? op).isSome = true ↔ v.IsNumber := by
  cases v <;> simp [step?, IsNumber]

end Value

/-- Whatever operator the grammar lets join two operands joins all numbers. -/
theorem Expr.Known.isSome_arithmetic? {left right : Expr} {op : Token}
    (h : (Expr.binary left op right).Known) (x y : Float) :
    (Value.arithmetic? op.kind x y).isSome = true := by
  simp only [Expr.Known, List.mem_cons, List.not_mem_nil, or_false] at h
  rcases h with h | h | h | h | h | h | h | h | h | h | h <;> rw [h] <;> rfl

/-- The operator inside a compound assignment is one that joins numbers, and it is `+`
    inside `+=` only. -/
theorem Kind.underlying?_cases {op : Kind} (h : op.underlying?.isSome = true) :
    ∃ k, op.underlying? = some k ∧ (k = .plus ↔ op = .plusAssign) ∧
      ∀ x y, (Value.arithmetic? k x y).isSome = true := by
  cases op <;> first | exact ⟨_, rfl, by decide, fun _ _ => rfl⟩ | cases h

theorem RuntimeFault.cause_attach (calls : List Frame) (e : RuntimeFault) :
    (e.attach calls).cause = e.cause := by
  rw [attach]
  split <;> rfl

/-- Where an operation is undefined a fault is raised, and else it gives its value. -/
theorem Outcome.decided {fits : Prop} {s : Session} {e : RuntimeFault} {after : Value → Session}
    (he : e.cause = .invalidOperands) (result : Option Value) :
    (result.isSome = true ↔ fits) →
      Decided (match result with
        | some v => .ok v (after v)
        | none => s.raise e) fits := by
  intro h
  cases result with
  | some v =>
      have hfits : fits := h.mp rfl
      refine ⟨⟨?_, fun hnot => absurd hfits hnot⟩, fun _ => ⟨v, after v, rfl⟩⟩
      rintro ⟨_, _, ⟨⟩, _⟩
  | none =>
      have hnot : ¬fits := fun hfits => Bool.noConfusion (h.mpr hfits)
      exact ⟨⟨fun _ => hnot, fun _ => ⟨_, s, rfl, (e.cause_attach s.calls).trans he⟩⟩,
        fun hfits => absurd hfits hnot⟩

theorem Task.OfParsed.fits {run : Task} (h : run.OfParsed)
    (hs : Code.Ready Expr.Known Stmt.Known run.session) :
    Code.Fits Expr.Known Stmt.Known run := by
  cases h with
  | source n source s => exact hs
  | program n s hparse => exact ⟨Stmt.known_of_parse hparse, hs⟩

/-- What was parsed has operators and names of the right kinds. -/
theorem Value.OfParsed.sorted {v : Value} (h : v.OfParsed) :
    Code.Sorted Expr.Known Stmt.Known v := by
  have hknown : ∀ b, Stmt.ParsedAll b → Stmt.EveryAll Expr.Known Stmt.Known b :=
    fun b ⟨_, hparse⟩ => Stmt.known_of_parse hparse
  cases v with
  | function f => exact hknown f.body h
  | native f =>
      refine fun faces => (h faces).mono (fun q hq => ?_) fun work hwork => ?_
      · cases q with
        | make name params body home => exact hknown body hq
        | _ => trivial
      · cases work with
        | source t => trivial
        | program p => exact hknown p hwork
  | _ => trivial

/-- All functions that are bound were parsed. -/
theorem Session.OfParsed.ready {s : Session} (h : s.OfParsed) :
    Code.Ready Expr.Known Stmt.Known s := by
  induction h with
  | fresh clock muted logging =>
      exact Session.holds_fresh clock muted logging (Native.brings_clock _)
  | registered name arity _ haction ih =>
      exact ih.set Store.globals name (Value.OfParsed.sorted (v := .native _) haction)
  | redirected echoed muted memory _ ih => exact ih.same rfl
  | bound level name _ hv ih => exact ih.bind level name hv.sorted
  | removed _ hremove ih => exact Store.Holds.remove ih hremove
  | ran hrun _ ht ih => exact (hrun.fits ih).left (fun _ _ => Stmt.known_of_parse) ht

/-- All expressions that are evaluated were parsed. -/
theorem Task.OfParsed.known {run : Task} (h : run.OfParsed) (hs : run.session.OfParsed) {n : Nat}
    {e : Expr} {here : LevelId} {s : Session} (hreaches : run.Reaches (.eval n e here s)) :
    e.Every Expr.Known :=
  ((h.fits hs.ready).reaches (fun _ _ => Stmt.known_of_parse) hreaches).1

/-- Every program that is parsed has operators and names of the kinds that belong where
    they stand. So in every run of a parsed program, in a session that ran nothing but
    such programs before, an operator whose operands have values refuses them for the
    kinds of the values only. What joins two operands wants two numbers, or two strings
    for `+` and `+=`. What steps a name wants a number, and so does a sign. -/
theorem operators_have_no_dead_ends :
    (∀ ts p, (parse ts).outcome = .ok p → Stmt.EveryAll Expr.Known Stmt.Known p) ∧
    ∀ run : Task, run.OfParsed → run.session.OfParsed → ∀ n here s,
      (∀ left op right a b t u, run.Reaches (.eval (n + 1) (.binary left op right) here s) →
        eval n left here s = .ok a t → eval n right here t = .ok b u →
        (eval (n + 1) (.binary left op right) here s).Decided
          (a.IsNumber ∧ b.IsNumber ∨ op.kind = .plus ∧ a.IsString ∧ b.IsString)) ∧
      (∀ name op value a b t, run.Reaches (.eval (n + 1) (.augmented name op value) here s) →
        s.store.get here name = .ok a → eval n value here s = .ok b t →
        (eval (n + 1) (.augmented name op value) here s).Decided
          (a.IsNumber ∧ b.IsNumber ∨ op.kind = .plusAssign ∧ a.IsString ∧ b.IsString)) ∧
      (∀ op name a, run.Reaches (.eval (n + 1) (.step op name) here s) →
        s.store.get here name = .ok a →
        (eval (n + 1) (.step op name) here s).Decided a.IsNumber) ∧
      ∀ op operand a t, run.Reaches (.eval (n + 1) (.unary op operand) here s) →
        eval n operand here s = .ok a t →
        (eval (n + 1) (.unary op operand) here s).Decided (op.kind = .bang ∨ a.IsNumber) := by
  refine ⟨fun ts p => Stmt.known_of_parse, fun run hrun hs n here s => ⟨?_, ?_, ?_, ?_⟩⟩
  · intro left op right a b t u hreaches hleft hright
    have hknown := hrun.known hs hreaches
    rw [eval, hleft, Outcome.andThen, hright]
    exact Outcome.decided rfl _ (Value.isSome_binary?_iff hknown.1.isSome_arithmetic? a b)
  · intro name op value a b t hreaches hname hvalue
    have hknown := hrun.known hs hreaches
    rcases Kind.underlying?_cases hknown.1.2 with ⟨k, hk, hplus, hjoins⟩
    rw [eval]
    simp only [hname, hvalue, Outcome.andThen, hk, Option.bind_some]
    rw [← hplus]
    exact Outcome.decided rfl _ (Value.isSome_binary?_iff hjoins a b)
  · intro op name a hreaches hname
    rw [eval]
    simp only [hname]
    exact Outcome.decided rfl _ (Value.isSome_step?_iff op.kind a)
  · intro op operand a t hreaches hoperand
    have hknown := hrun.known hs hreaches
    rw [eval, hoperand]
    exact Outcome.decided rfl _ (Value.isSome_unary?_iff hknown.1 a)

/-- The name that is declared and called in `func f(){-null;}f();`. -/
def declaredName (column : Int) : Token := ⟨.identifier, "f", none, ⟨1, column⟩⟩

/-- The sign in the body of the function. -/
def refusingSign : Expr :=
  .unary ⟨.minus, "-", none, ⟨1, 10⟩⟩ (.constant .null ⟨1, 11⟩)

/-- What the tokens write. -/
def refusingProgram : List Stmt :=
  [.function (declaredName 6) [] [.expression refusingSign],
    .expression (.call (.reference (declaredName 17)) ⟨.rightParen, ")", none, ⟨1, 19⟩⟩ [])]

/-- The tokens of `func f(){-null;}f();` with the end of the input. -/
def refusingTokens : List Token :=
  [⟨.funcWord, "func", none, ⟨1, 1⟩⟩, declaredName 6,
    ⟨.leftParen, "(", none, ⟨1, 7⟩⟩, ⟨.rightParen, ")", none, ⟨1, 8⟩⟩,
    ⟨.leftBrace, "\x7b", none, ⟨1, 9⟩⟩, ⟨.minus, "-", none, ⟨1, 10⟩⟩,
    ⟨.nullWord, "null", none, ⟨1, 11⟩⟩, ⟨.semicolon, ";", none, ⟨1, 15⟩⟩,
    ⟨.rightBrace, "\x7d", none, ⟨1, 16⟩⟩, declaredName 17, ⟨.leftParen, "(", none, ⟨1, 18⟩⟩,
    ⟨.rightParen, ")", none, ⟨1, 19⟩⟩, ⟨.semicolon, ";", none, ⟨1, 20⟩⟩, .endAt ⟨1, 21⟩]

theorem parse_refusingTokens : (parse refusingTokens).outcome = .ok refusingProgram := rfl

/-- The parenthesis that closes the call. -/
def refusingParen : Token := ⟨.rightParen, ")", none, ⟨1, 19⟩⟩

/-- The function that is declared. -/
def refusingFunction : Closure := ⟨"f", [], [.expression refusingSign], Store.globals, 1⟩

/-- The session once it is declared. -/
def refusingSession : Session :=
  declare Store.globals (declaredName 6) [] [.expression refusingSign] (.fresh {} false false)

/-- The session inside the call. -/
def refusingCall : Session := refusingSession.received refusingFunction [] refusingParen

set_option maxRecDepth 4000 in
/-- The body of the function comes up in the call, after its declaration. -/
theorem refusingSign_is_reached :
    (Task.interpret 12 refusingProgram (.fresh {} false false)).Reaches
      (.eval 3 refusingSign refusingSession.store.levels.size refusingCall) := by
  have hdeclared : exec 10 (.function (declaredName 6) [] [.expression refusingSign]) Store.globals
      { Session.fresh {} false false with calls := [] } = .ok .normal refusingSession := by
    rw [exec]
    rfl
  have hcallee : eval 7 (.reference (declaredName 17)) Store.globals refusingSession =
      .ok (.function refusingFunction) refusingSession := by cbv
  refine .head (b := .execAll 11 refusingProgram Store.globals
    { Session.fresh {} false false with calls := [] }) (by simp) ?_
  refine .head (b := .execAll 10 refusingProgram.tail Store.globals refusingSession)
    (by simp [Task.parts, refusingProgram, hdeclared, Outcome.leading]) ?_
  refine .head (b := .exec 9 (.expression (.call (.reference (declaredName 17)) refusingParen []))
    Store.globals refusingSession) (by simp [Task.parts, refusingProgram, refusingParen]) ?_
  refine .head (b := .eval 8 (.call (.reference (declaredName 17)) refusingParen [])
    Store.globals refusingSession) (by simp [Task.parts]) ?_
  refine .head (b := .apply 7 (.function refusingFunction) [] refusingParen refusingSession)
    (by simp [Task.parts, hcallee, evalAll, Outcome.leading]) ?_
  refine .head (b := .callFunction 6 refusingFunction [] refusingParen refusingSession)
    (by simp [Task.parts, refusingFunction]) ?_
  refine .head (b := .execAll 5 refusingFunction.body refusingSession.store.levels.size
    refusingCall) (by simp [refusingCall]) ?_
  refine .head (b := .exec 4 (.expression refusingSign) refusingSession.store.levels.size
    refusingCall) (by simp [Task.parts, refusingFunction]) ?_
  exact .single (by simp [Task.parts])

/-- The sign in the body of a stored function is refused. -/
theorem refusingSign_is_refused :
    (parse refusingTokens).outcome = .ok refusingProgram ∧
    (Task.interpret 12 refusingProgram (.fresh {} false false)).Reaches
      (.eval 3 refusingSign refusingSession.store.levels.size refusingCall) ∧
    (eval 3 refusingSign refusingSession.store.levels.size refusingCall).Refuses := by
  have hoperand : eval 2 (.constant .null ⟨1, 11⟩) refusingSession.store.levels.size refusingCall =
      .ok .null refusingCall := by
    rw [eval]
    rfl
  rcases operators_have_no_dead_ends.2 _ (.program 12 _ parse_refusingTokens)
    (.fresh {} false false) 2 refusingSession.store.levels.size refusingCall with ⟨-, -, -, hunary⟩
  have hdecided := hunary _ _ .null _ refusingSign_is_reached hoperand
  refine ⟨parse_refusingTokens, refusingSign_is_reached, hdecided.refuses.mpr ?_⟩
  rintro (hbang | hnumber)
  · cases hbang
  · exact hnumber

end PocketScript
