import PocketScript.Proofs.Evaluation.Keeping
import PocketScript.Proofs.Program.Sites
import PocketScript.Proofs.Value.Store

/-!
# What a fault can be blamed on

A fault of a running program has the position of a token, and the token stands
in the function that was being carried out.

What else is to be known of the token depends on where the code came from, and
code comes from two places: the program that is being carried out, and the
functions that the store binds. So this is said for any property of sites. If
all sites of the program have it, and all sites of all functions in the store,
then a fault can be blamed on a token whose site has it, and the functions that
are in the store afterwards still have it.

A native function can raise a fault of its own making or run code of its own.
So none is considered but the clock.

## Main definitions

* `underway`: The function that is being carried out.
* `RuntimeFault.RaisedAt`: The faults that are raised at a token.
* `RuntimeFault.Blames`, `RuntimeFault.Blamed`: A fault was raised at a token,
  and says which calls were under way.
* `Blame.Sited`: All sites of a function have the property.
* `Blame.Ends`: How a computation ends, faults included.
* `Blame.Blaming`: Every computation ends like that, with a counter.

## Theorems

* `Blame.raise_ends`: A fault at a token of the code blames it.
* `Blame.blaming`: With any counter every computation ends as it should.
* `Blame.interpret_ends`: So do programs.
-/

namespace PocketScript

/-- The function that is being carried out, given the calls under way. The
    outermost code is in none. -/
def underway (calls : List Frame) : Option Text := calls.head?.map Frame.function

/-- The faults that the evaluator raises at a token. -/
inductive RuntimeFault.RaisedAt (culprit : Token) : RuntimeFault → Prop where
  | undefined : RaisedAt culprit (.undefined culprit)
  | badOperand (kind : Text) : RaisedAt culprit (.badOperand culprit kind)
  | badOperands (left right : Text) : RaisedAt culprit (.badOperands culprit left right)
  | wrongArity (expected actual : Int) : RaisedAt culprit (.wrongArity culprit expected actual)
  | uncallable (kind : Text) : RaisedAt culprit (.uncallable culprit kind)
  | nativeFailed (name reason : Text) : RaisedAt culprit (.nativeFailed culprit name reason)
  | strayControl : RaisedAt culprit (.strayControl culprit)

/-- A fault as it was raised, before it got frames and a line to show. -/
def RuntimeFault.original (e : RuntimeFault) : RuntimeFault :=
  { e with frames := none, codeFrame := [] }

/-- The fault was raised at a token whose site has a property, and says which
    calls were under way. -/
structure RuntimeFault.Blames (A : Site → Prop) (calls : List Frame) (culprit : Token)
    (e : RuntimeFault) : Prop where
  site : A ⟨underway calls, culprit⟩
  raised : e.original.RaisedAt culprit
  frames : e.frames = some (framesAt e.pos calls)

/-- The fault can be blamed on a token. It has no line to show yet. -/
structure RuntimeFault.Blamed (A : Site → Prop) (e : RuntimeFault) : Prop where
  culprit : ∃ calls culprit, e.Blames A calls culprit
  bare : e.codeFrame = []

namespace RuntimeFault

variable {culprit : Token} {e : RuntimeFault}

/-- A fault stands where it was raised. -/
theorem RaisedAt.pos (h : e.RaisedAt culprit) : culprit.pos = e.pos := by cases h <;> rfl

theorem RaisedAt.original_eq (h : e.RaisedAt culprit) : e.original = e := by cases h <;> rfl

theorem Blames.pos {A : Site → Prop} {calls : List Frame} (h : e.Blames A calls culprit) :
    culprit.pos = e.pos := h.raised.pos

end RuntimeFault

namespace Blame

variable (A : Site → Prop)

/-- All sites of a function have the property. There is no native function but the
    clock. -/
def Sited : Value → Prop
  | .function f => ∀ site ∈ Stmt.sitesAll (some f.name) f.body, A site
  | .native f => f.action = .clock
  | _ => True

/-- The calls under way, and functions in the store whose sites have the
    property. -/
structure Ready (calls : List Frame) (s : Session) : Prop where
  values : s.store.Holds (Sited A)
  calls : s.calls = calls

/-- A keyword that is handed on stands in the function that is being carried
    out. -/
def Placed (calls : List Frame) : Signal → Prop
  | .normal => True
  | .giveBack v _ => Sited A v
  | .leave keyword => A ⟨underway calls, keyword⟩
  | .next keyword => A ⟨underway calls, keyword⟩

/-- How a computation ends: with a result of some sort, or with a fault that can
    be blamed on a token whose site has the property. -/
def Ends {α : Type} (calls : List Frame) (R : α → Prop) : Outcome RuntimeFault α → Prop
  | .ok a t => R a ∧ Ready A calls t
  | .fault e t => e.Blamed A ∧ Ready A calls t
  | .starved => True

variable {A}

section Laws

variable {α β : Type} {calls : List Frame} {R : α → Prop} {Q : β → Prop} {s : Session}

theorem Ends.andThen {o : Outcome RuntimeFault α} {f : α → Session → Outcome RuntimeFault β}
    (h : Ends A calls R o) (hf : ∀ a t, R a → Ready A calls t → Ends A calls Q (f a t)) :
    Ends A calls Q (o.andThen f) := by
  cases o with
  | ok a t => exact hf a t h.1 h.2
  | fault e t => exact h
  | starved => trivial

/-- A fault that starts to travel at a token of the code blames it. -/
theorem raise_ends {e : RuntimeFault} {culprit : Token} (hs : Ready A calls s)
    (hsite : A ⟨underway calls, culprit⟩) (hraised : e.RaisedAt culprit) :
    Ends A calls R (s.raise e) := by
  have hattach : e.attach s.calls =
      { e.original with frames := some (RuntimeFault.framesAt e.pos calls) } := by
    rw [← hraised.original_eq, RuntimeFault.attach, hs.calls]
    rfl
  have hsame : e.original.RaisedAt culprit := by
    rw [hraised.original_eq]
    exact hraised
  rw [Session.raise, hattach]
  exact ⟨⟨⟨calls, culprit, hsite, hsame, rfl⟩, rfl⟩, hs⟩

theorem sited_of_data {v : Value} (h : v.isCallable = false) : Sited A v := by
  cases v <;> trivial

theorem Ready.bind {v : Value} (hs : Ready A calls s) (here : LevelId) (name : Text)
    (hv : Sited A v) : Ready A calls (s.bind here name v) :=
  ⟨hs.values.set here name hv, hs.calls⟩

theorem Ready.echo (hs : Ready A calls s) (line : Text) : Ready A calls (s.echo line) := by
  rw [Session.echo]
  split
  · exact hs
  · exact ⟨hs.values, hs.calls⟩

theorem deleteAll_ends (here : LevelId) {targets : List Token}
    (htargets : ∀ t ∈ targets, A ⟨underway calls, t⟩) (hs : Ready A calls s) :
    Ends A calls (Placed A calls) (deleteAll here targets s) := by
  induction targets generalizing s with
  | nil => exact ⟨trivial, hs⟩
  | cons t ts ih =>
      rw [List.forall_mem_cons] at htargets
      rw [deleteAll, Store.delete]
      cases hremove : s.store.remove here t.lexeme with
      | none => exact raise_ends hs htargets.1 .undefined
      | some store => exact ih htargets.2 ⟨hs.values.remove hremove, hs.calls⟩

/-- Binding parameters brings in nothing but the arguments. -/
theorem bindAll_ready (here : LevelId) (params : List Token) {args : List Value}
    (hargs : ∀ v ∈ args, Sited A v) (hs : Ready A calls s) :
    Ready A calls (bindAll here params args s) := by
  induction params generalizing args s with
  | nil => exact hs
  | cons p params ih =>
      cases args with
      | nil => exact hs
      | cons v args =>
          rw [List.forall_mem_cons] at hargs
          exact ih hargs.2 (hs.bind here p.lexeme hargs.1)

/-- A keyword that no loop has received by the end of a call is the culprit. -/
theorem finishCall_ends {frame : Frame} {o : Outcome RuntimeFault Signal}
    (h : Ends A (frame :: calls) (Placed A (frame :: calls)) o) :
    Ends A calls (Sited A) (finishCall o) := by
  have hleave : ∀ t, Ready A (frame :: calls) t → Ready A calls t.leave := fun t ht =>
    ⟨ht.values, by rw [Session.leave, ht.calls]; rfl⟩
  have hstray : ∀ (keyword : Token) (t : Session), A ⟨underway (frame :: calls), keyword⟩ →
      Ready A (frame :: calls) t →
      ((RuntimeFault.strayControl keyword).attach t.calls).Blamed A :=
    fun keyword t hk ht => ⟨⟨frame :: calls, keyword, hk, .strayControl, by rw [ht.calls]; rfl⟩, rfl⟩
  cases o with
  | starved => trivial
  | fault e t => exact ⟨h.1, hleave t h.2⟩
  | ok signal t =>
      rcases h with ⟨hsignal, ht⟩
      cases signal with
      | normal => exact ⟨trivial, hleave t ht⟩
      | giveBack v keyword => exact ⟨hsignal, hleave t ht⟩
      | leave keyword => exact ⟨hstray keyword t hsignal ht, hleave t ht⟩
      | next keyword => exact ⟨hstray keyword t hsignal ht, hleave t ht⟩

end Laws

variable (A)

/-- With this counter, every computation on code whose sites have the property
    ends as it should. -/
structure Blaming (n : Nat) : Prop where
  eval : ∀ {calls e s} (here : LevelId), (∀ t ∈ e.tokens, A ⟨underway calls, t⟩) →
    Ready A calls s → Ends A calls (Sited A) (eval n e here s)
  evalAll : ∀ {calls es s} (here : LevelId),
    (∀ t ∈ Expr.tokensAll es, A ⟨underway calls, t⟩) → Ready A calls s →
    Ends A calls (fun vs => ∀ v ∈ vs, Sited A v) (evalAll n es here s)
  apply : ∀ {calls f args paren s}, Sited A f → (∀ v ∈ args, Sited A v) →
    A ⟨underway calls, paren⟩ → Ready A calls s →
    Ends A calls (Sited A) (apply n f args paren s)
  callFunction : ∀ {calls f args s} (paren : Token), Sited A (.function f) →
    (∀ v ∈ args, Sited A v) → Ready A calls s →
    Ends A calls (Sited A) (callFunction n f args paren s)
  exec : ∀ {calls st s} (here : LevelId), (∀ site ∈ st.sites (underway calls), A site) →
    Ready A calls s → Ends A calls (Placed A calls) (exec n st here s)
  execAll : ∀ {calls b s} (here : LevelId),
    (∀ site ∈ Stmt.sitesAll (underway calls) b, A site) → Ready A calls s →
    Ends A calls (Placed A calls) (execAll n b here s)
  execLoop : ∀ {calls e b s} (here : LevelId), (∀ t ∈ e.tokens, A ⟨underway calls, t⟩) →
    (∀ site ∈ Stmt.sitesAll (underway calls) b, A site) → Ready A calls s →
    Ends A calls (Placed A calls) (execLoop n e b here s)

variable {A}

theorem blaming_zero : Blaming A 0 := by
  constructor
  all_goals
    intros
    simp only [eval, evalAll, apply, callFunction, exec, execAll, execLoop]
    trivial

section Steps

variable {n : Nat} (ih : Blaming A n) {calls : List Frame} {s : Session}
include ih

theorem eval_ends {e : Expr} (here : LevelId) (he : ∀ t ∈ e.tokens, A ⟨underway calls, t⟩)
    (hs : Ready A calls s) : Ends A calls (Sited A) (eval (n + 1) e here s) := by
  cases e with
  | constant v p =>
      simp only [eval]
      exact ⟨sited_of_data (Value.isCallable_ofLiteral v), hs⟩
  | grouping inner p =>
      simp only [Expr.tokens] at he
      simp only [eval]
      exact ih.eval here he hs
  | reference name =>
      simp only [Expr.tokens, List.forall_mem_singleton] at he
      simp only [eval]
      rcases hs.values.get_cases here name with ⟨v, hv, hsited⟩ | hnone
      · rw [hv]
        exact ⟨hsited, hs⟩
      · rw [hnone]
        exact raise_ends hs he .undefined
  | assign name value =>
      simp only [Expr.tokens, List.forall_mem_cons] at he
      simp only [eval]
      exact (ih.eval here he.2 hs).andThen fun v t hv ht => ⟨hv, ht.bind here _ hv⟩
  | augmented name operator value =>
      simp only [Expr.tokens, List.forall_mem_cons] at he
      rcases he with ⟨hname, hoperator, hvalue⟩
      simp only [eval]
      rcases hs.values.get_cases here name with ⟨v, hv, hsited⟩ | hnone
      · rw [hv]
        refine (ih.eval here hvalue hs).andThen fun w t hw ht => ?_
        cases hresult : operator.kind.underlying?.bind fun op => Value.binary? op v w with
        | none => exact raise_ends ht hoperator (.badOperands _ _)
        | some r =>
            rcases Option.bind_eq_some_iff.mp hresult with ⟨op, _, hop⟩
            have hr : Sited A r := sited_of_data (Value.isCallable_of_binary? hop)
            exact ⟨hr, ht.bind here _ hr⟩
      · rw [hnone]
        exact raise_ends hs hname .undefined
  | step operator name =>
      simp only [Expr.tokens, List.forall_mem_cons] at he
      rcases he with ⟨hoperator, hname, _⟩
      simp only [eval]
      rcases hs.values.get_cases here name with ⟨v, hv, hsited⟩ | hnone
      · rw [hv]
        simp only
        cases hresult : v.step? operator.kind with
        | none => exact raise_ends hs hoperator (.badOperand _)
        | some r =>
            have hr : Sited A r := sited_of_data (Value.isCallable_of_step? hresult)
            exact ⟨hr, hs.bind here _ hr⟩
      · rw [hnone]
        exact raise_ends hs hname .undefined
  | unary operator operand =>
      simp only [Expr.tokens, List.forall_mem_cons] at he
      simp only [eval]
      refine (ih.eval here he.2 hs).andThen fun v t hv ht => ?_
      cases hresult : v.unary? operator.kind with
      | none => exact raise_ends ht he.1 (.badOperand _)
      | some r => exact ⟨sited_of_data (Value.isCallable_of_unary? hresult), ht⟩
  | binary left operator right =>
      simp only [Expr.tokens, List.forall_mem_cons, List.forall_mem_append] at he
      rcases he with ⟨hoperator, hleft, hright⟩
      simp only [eval]
      refine (ih.eval here hleft hs).andThen fun v t hv ht => ?_
      refine (ih.eval here hright ht).andThen fun w u hw hu => ?_
      cases hresult : Value.binary? operator.kind v w with
      | none => exact raise_ends hu hoperator (.badOperands _ _)
      | some r => exact ⟨sited_of_data (Value.isCallable_of_binary? hresult), hu⟩
  | logical left operator right =>
      simp only [Expr.tokens, List.forall_mem_cons, List.forall_mem_append] at he
      rcases he with ⟨_, hleft, hright⟩
      simp only [eval]
      refine (ih.eval here hleft hs).andThen fun v t hv ht => ?_
      split
      · exact ⟨hv, ht⟩
      · exact ih.eval here hright ht
  | call callee paren args =>
      simp only [Expr.tokens, List.forall_mem_cons, List.forall_mem_append] at he
      rcases he with ⟨hparen, hcallee, hargs⟩
      simp only [eval]
      refine (ih.eval here hcallee hs).andThen fun f t hf ht => ?_
      refine (ih.evalAll here hargs ht).andThen fun vs u hvs hu => ?_
      exact ih.apply hf hvs hparen hu

theorem evalAll_ends {es : List Expr} (here : LevelId)
    (hes : ∀ t ∈ Expr.tokensAll es, A ⟨underway calls, t⟩) (hs : Ready A calls s) :
    Ends A calls (fun vs => ∀ v ∈ vs, Sited A v) (evalAll (n + 1) es here s) := by
  cases es with
  | nil =>
      simp only [evalAll]
      exact ⟨by simp, hs⟩
  | cons e es =>
      simp only [Expr.tokensAll, List.forall_mem_append] at hes
      simp only [evalAll]
      refine (ih.eval here hes.1 hs).andThen fun v t hv ht => ?_
      refine (ih.evalAll here hes.2 ht).andThen fun vs u hvs hu => ?_
      exact ⟨List.forall_mem_cons.mpr ⟨hv, hvs⟩, hu⟩

omit ih in
/-- A native function fails at the closing parenthesis of its call, if it does. -/
theorem applyNative_ends {f : Builtin} {args : List Value} {paren : Token}
    (hf : Sited A (.native f)) (hparen : A ⟨underway calls, paren⟩) (hs : Ready A calls s) :
    Ends A calls (Sited A) (apply (n + 1) (.native f) args paren s) := by
  simp only [apply]
  split
  · have hclock : f.action = Native.clock := hf
    have hcall := callNative_clock_aside (fun _ => False) (sited_of_data (A := A)) n
      (args.map Value.shown) args s
    rw [hclock]
    generalize callNative n _ args s = o at hcall ⊢
    have hready : ∀ {t : Session}, s.Aside t → Ready A calls t :=
      fun ht => ⟨ht.store ▸ hs.values, ht.calls.trans hs.calls⟩
    cases o with
    | starved => trivial
    | ok v t => exact ⟨hcall.1, hready hcall.2⟩
    | fault e t =>
        cases e with
        | runtime r => exact (hcall.1 r rfl calls).elim
        | _ => exact raise_ends (hready hcall.2) hparen (.nativeFailed _ _)
  · exact raise_ends hs hparen (.wrongArity _ _)

theorem apply_ends {f : Value} {args : List Value} {paren : Token} (hf : Sited A f)
    (hargs : ∀ v ∈ args, Sited A v) (hparen : A ⟨underway calls, paren⟩) (hs : Ready A calls s) :
    Ends A calls (Sited A) (apply (n + 1) f args paren s) := by
  cases f with
  | function f =>
      simp only [apply]
      split
      · exact ih.callFunction paren hf hargs hs
      · exact raise_ends hs hparen (.wrongArity _ _)
  | native f => exact applyNative_ends hf hparen hs
  | _ =>
      simp only [apply]
      exact raise_ends hs hparen (.uncallable _)

theorem callFunction_ends {f : Closure} {args : List Value} (paren : Token)
    (hf : Sited A (.function f)) (hargs : ∀ v ∈ args, Sited A v) (hs : Ready A calls s) :
    Ends A calls (Sited A) (callFunction (n + 1) f args paren s) := by
  rw [callFunction_eq_finishCall]
  have hopen : Ready A calls { s with store := (s.store.openLevel (some f.home)).2 } :=
    ⟨hs.values.openLevel _, hs.calls⟩
  have hbound := bindAll_ready s.store.levels.size f.params hargs hopen
  have hreceived : Ready A (⟨f.name, paren.pos⟩ :: calls) (s.received f args paren) :=
    ⟨hbound.values, congrArg (List.cons _) hbound.calls⟩
  have hbody : ∀ site ∈ Stmt.sitesAll (underway (⟨f.name, paren.pos⟩ :: calls)) f.body, A site := hf
  exact finishCall_ends (ih.execAll s.store.levels.size hbody hreceived)

theorem exec_ends {st : Stmt} (here : LevelId) (hst : ∀ site ∈ st.sites (underway calls), A site)
    (hs : Ready A calls s) : Ends A calls (Placed A calls) (exec (n + 1) st here s) := by
  cases st with
  | function name params b =>
      simp only [Stmt.sites, List.forall_mem_append] at hst
      simp only [exec]
      have hvalue : Sited A (.function ⟨name.lexeme, params, b, here, s.stamp.1⟩) := hst.2
      exact ⟨trivial, hs.values.set here name.lexeme hvalue, hs.calls⟩
  | giveBack keyword value =>
      cases value with
      | none =>
          simp only [exec]
          exact ⟨trivial, hs⟩
      | some value =>
          simp only [Stmt.sites, List.map_cons, List.forall_mem_cons, List.forall_mem_map] at hst
          simp only [exec]
          exact (ih.eval here hst.2 hs).andThen fun v t hv ht => ⟨hv, ht⟩
  | delete keyword targets =>
      simp only [Stmt.sites, List.map_cons, List.forall_mem_cons, List.forall_mem_map] at hst
      simp only [exec]
      exact deleteAll_ends here hst.2 hs
  | loop keyword condition b =>
      simp only [Stmt.sites, List.map_cons, List.forall_mem_append, List.forall_mem_cons,
        List.forall_mem_map] at hst
      simp only [exec]
      exact ih.execLoop here hst.1.2 hst.2 hs
  | branch keyword condition consequent alternate =>
      simp only [Stmt.sites, List.map_cons, List.forall_mem_append, List.forall_mem_cons,
        List.forall_mem_map] at hst
      rcases hst with ⟨⟨_, hcondition⟩, hthen, helse⟩
      simp only [exec]
      refine (ih.eval here hcondition hs).andThen fun v t hv ht => ?_
      split
      · exact ih.execAll here hthen ht
      · cases alternate with
        | none => exact ⟨trivial, ht⟩
        | some b =>
            simp only [Stmt.sitesElse] at helse
            exact ih.execAll here helse ht
  | expression value =>
      simp only [Stmt.sites, List.forall_mem_map] at hst
      simp only [exec]
      exact (ih.eval here hst hs).andThen fun v t _ ht => ⟨trivial, ht⟩
  | echo keyword value =>
      simp only [Stmt.sites, List.map_cons, List.forall_mem_cons, List.forall_mem_map] at hst
      simp only [exec]
      exact (ih.eval here hst.2 hs).andThen fun v t _ ht => ⟨trivial, ht.echo v.text⟩
  | leave keyword =>
      simp only [Stmt.sites, List.forall_mem_singleton] at hst
      simp only [exec]
      exact ⟨hst, hs⟩
  | next keyword =>
      simp only [Stmt.sites, List.forall_mem_singleton] at hst
      simp only [exec]
      exact ⟨hst, hs⟩

theorem execAll_ends {b : List Stmt} (here : LevelId)
    (hb : ∀ site ∈ Stmt.sitesAll (underway calls) b, A site) (hs : Ready A calls s) :
    Ends A calls (Placed A calls) (execAll (n + 1) b here s) := by
  cases b with
  | nil =>
      simp only [execAll]
      exact ⟨trivial, hs⟩
  | cons st rest =>
      simp only [Stmt.sitesAll, List.forall_mem_append] at hb
      simp only [execAll]
      refine (ih.exec here hb.1 hs).andThen fun signal t hsignal ht => ?_
      cases signal with
      | normal => exact ih.execAll here hb.2 ht
      | _ => exact ⟨hsignal, ht⟩

theorem execLoop_ends {e : Expr} {b : List Stmt} (here : LevelId)
    (he : ∀ t ∈ e.tokens, A ⟨underway calls, t⟩)
    (hb : ∀ site ∈ Stmt.sitesAll (underway calls) b, A site) (hs : Ready A calls s) :
    Ends A calls (Placed A calls) (execLoop (n + 1) e b here s) := by
  simp only [execLoop]
  refine (ih.eval here he hs).andThen fun v t _ ht => ?_
  split
  · refine (ih.execAll here hb ht).andThen fun signal u hsignal hu => ?_
    cases signal with
    | leave keyword => exact ⟨trivial, hu⟩
    | giveBack v keyword => exact ⟨hsignal, hu⟩
    | normal => exact ih.execLoop here he hb hu
    | next keyword => exact ih.execLoop here he hb hu
  · exact ⟨trivial, ht⟩

end Steps

/-- With any counter every computation ends as it should. -/
theorem blaming (n : Nat) : Blaming A n := by
  induction n with
  | zero => exact blaming_zero
  | succ n ih =>
      exact
        { eval := eval_ends ih
          evalAll := evalAll_ends ih
          apply := apply_ends ih
          callFunction := callFunction_ends ih
          exec := exec_ends ih
          execAll := execAll_ends ih
          execLoop := execLoop_ends ih }

/-- Programs are carried out with no call under way. -/
theorem interpret_ends {p : List Stmt} {s : Session} (n : Nat)
    (hp : ∀ site ∈ Stmt.sitesAll none p, A site) (hs : s.store.Holds (Sited A)) :
    Ends A [] (fun _ => True) (interpret n p s) := by
  cases n with
  | zero =>
      simp only [interpret]
      trivial
  | succ n =>
      simp only [interpret]
      have hready : Ready A [] { s with calls := [] } := ⟨hs, rfl⟩
      have hcode : ∀ site ∈ Stmt.sitesAll (underway []) p, A site := hp
      refine ((blaming n).execAll Store.globals hcode hready).andThen fun signal t hsignal ht => ?_
      cases signal with
      | leave keyword => exact raise_ends ht hsignal .strayControl
      | next keyword => exact raise_ends ht hsignal .strayControl
      | normal => exact ⟨trivial, ht⟩
      | giveBack v keyword => exact ⟨trivial, ht⟩

end Blame

end PocketScript
