import PocketScript.Proofs.Evaluation.Upkeep
import PocketScript.Proofs.Program.Known

/-!
# Where code comes from

The code that a run carries out is that of the program, and that of the functions it
calls. Functions are values: they are bound, handed on and called long after the
program that declared them has ended. Still they come out of programs, and programs
come out of the parser. So whatever the parser guarantees of all expressions and
statements of a program holds of all that is ever carried out.

What is guaranteed is a parameter here. A task fits if the code it is about is of the
sorts and so are all functions that it can get at, as arguments or bound in the store.
Native functions may do anything but bring other code. One that has a source run runs
what was parsed, and one that binds a value binds one that it holds, so what is left is
the bodies of functions that it makes and the programs that it has carried out.

The argument goes by the counter. With what tasks of a smaller counter come to, each
function of the evaluator is one pass over its cases, which says both that the parts
fit and that what comes of it does.

## Main definitions

* `Code.Sorted`: The body of a function is of the sorts.
* `Code.Fits`: A task is about code of the sorts.
* `Code.Comes`: What comes of a task is of the sorts.
* `Code.Goes`: A task hands on what fits and comes to what is of the sorts.

## Theorems

* `Code.Goes.andThen`: A task that does one part and goes on.
* `Code.Fits.goes`: A task that fits hands on what fits and comes to what fits.
* `Code.Fits.reaches`: So all code that comes up is of the sorts.
-/

namespace PocketScript

namespace Code

section

variable (A : Expr → Prop) (B : Stmt → Prop)

/-- The code of a value, if it has any, is of the sorts, and so is what a native function
    brings. -/
def Sorted : Value → Prop
  | .function f => Stmt.EveryAll A B f.body
  | .native f => f.action.Brings (Stmt.EveryAll A B)
  | _ => True

/-- All functions that the session binds are of the sorts. -/
def Ready (s : Session) : Prop := s.store.Holds (Sorted A B)

/-- The value that a signal hands on is of the sorts. -/
def Carries : Signal → Prop
  | .giveBack v _ => Sorted A B v
  | _ => True

/-- How a computation ends: in a session of the sorts, and with a result of some sort. -/
def Ends {ε α : Type} (R : α → Prop) : Outcome ε α → Prop
  | .ok a t => R a ∧ Ready A B t
  | .fault _ t => Ready A B t
  | .starved => True

/-- A task that is about code of the sorts. -/
def Fits : Task → Prop
  | .eval _ e _ s => e.Every A ∧ Ready A B s
  | .evalAll _ es _ s => Expr.EveryAll A es ∧ Ready A B s
  | .apply _ f args _ s => Sorted A B f ∧ (∀ v ∈ args, Sorted A B v) ∧ Ready A B s
  | .callFunction _ f args _ s =>
    Stmt.EveryAll A B f.body ∧ (∀ v ∈ args, Sorted A B v) ∧ Ready A B s
  | .callNative _ script held s => script.Brings (Stmt.EveryAll A B) ∧
    (∀ v ∈ held, Sorted A B v) ∧ Ready A B s
  | .exec _ st _ s => st.Every A B ∧ Ready A B s
  | .execAll _ b _ s => Stmt.EveryAll A B b ∧ Ready A B s
  | .execLoop _ e b _ s => e.Every A ∧ Stmt.EveryAll A B b ∧ Ready A B s
  | .interpret _ p s => Stmt.EveryAll A B p ∧ Ready A B s
  | .runSource _ _ s => Ready A B s

/-- What comes of a task is of the sorts. -/
def Comes : Task → Prop
  | .eval n e here s => Ends A B (Sorted A B) (eval n e here s)
  | .evalAll n es here s => Ends A B (fun vs => ∀ v ∈ vs, Sorted A B v) (evalAll n es here s)
  | .apply n f args paren s => Ends A B (Sorted A B) (apply n f args paren s)
  | .callFunction n f args paren s => Ends A B (Sorted A B) (callFunction n f args paren s)
  | .callNative n script held s => Ends A B (Sorted A B) (callNative n script held s)
  | .exec n st here s => Ends A B (Carries A B) (exec n st here s)
  | .execAll n b here s => Ends A B (Carries A B) (execAll n b here s)
  | .execLoop n e b here s => Ends A B (Carries A B) (execLoop n e b here s)
  | .interpret n p s => Ends A B (fun _ => True) (interpret n p s)
  | .runSource n source s => Ends A B (fun _ => True) (runSource n source s)

/-- A task hands on parts that fit, and what comes of it is of the sorts. -/
structure Goes {ε α : Type} (parts : List Task) (R : α → Prop) (o : Outcome ε α) : Prop where
  fits : ∀ part ∈ parts, Fits A B part
  ends : Ends A B R o

end

variable {A : Expr → Prop} {B : Stmt → Prop}

section Laws

variable {ε α β : Type} {s t : Session} {first : Task} {R : α → Prop} {Q : β → Prop}
  {o : Outcome ε α}

theorem sorted_of_data {v : Value} (h : v.isCallable = false) : Sorted A B v := by
  cases v <;> trivial

theorem Ends.left (h : Ends A B R o) (ht : o.session? = some t) : Ready A B t := by
  cases o with
  | ok a u => exact Option.some.inj ht ▸ h.2
  | fault e u => exact Option.some.inj ht ▸ h
  | starved => cases ht

theorem Goes.both {parts : List Task} (h : Goes A B parts R o) :
    (∀ part ∈ parts, Fits A B part) ∧ Ends A B R o := ⟨h.fits, h.ends⟩

/-- A task that does everything by itself. -/
theorem Goes.done (h : Ends A B R o) : Goes A B [] R o :=
  ⟨fun _ hpart => absurd hpart List.not_mem_nil, h⟩

/-- A task that leaves everything to one part. -/
theorem Goes.only (hfits : Fits A B first) (h : Ends A B R o) : Goes A B [first] R o :=
  ⟨List.forall_mem_singleton.mpr hfits, h⟩

/-- A task that does one part and goes on with what came of it. -/
theorem Goes.andThen {f : α → Session → Outcome ε β} {g : α → Session → List Task}
    (hfits : Fits A B first) (h : Ends A B R o)
    (hrest : ∀ a t, R a → Ready A B t → Goes A B (g a t) Q (f a t)) :
    Goes A B (first :: o.leading g) Q (o.andThen f) := by
  cases o with
  | ok a t =>
      have hgoes := hrest a t h.1 h.2
      exact ⟨List.forall_mem_cons.mpr ⟨hfits, hgoes.fits⟩, hgoes.ends⟩
  | fault e t => exact .only hfits h
  | starved => exact .only hfits trivial

/-- A task that does one part and then ends by itself. -/
theorem Goes.last {f : α → Session → Outcome ε β} (hfits : Fits A B first) (h : Ends A B R o)
    (hrest : ∀ a t, R a → Ready A B t → Ends A B Q (f a t)) :
    Goes A B [first] Q (o.andThen f) := by
  cases o with
  | ok a t => exact .only hfits (hrest a t h.1 h.2)
  | fault e t => exact .only hfits h
  | starved => exact .only hfits trivial

/-- A task that has something carried out and goes on with its fault, if there was
    one. -/
theorem Goes.either {ε' : Type} {o : Outcome ε Unit} {f : Option ε → Session → Outcome ε' β}
    {g : Option ε → Session → List Task} (hfits : Fits A B first) (h : Ends A B (fun _ => True) o)
    (hrest : ∀ e t, Ready A B t → Goes A B (g e t) Q (f e t)) :
    Goes A B (first :: o.leadingEither g) Q (o.either f) := by
  cases o with
  | ok a t =>
      have hgoes := hrest none t h.2
      exact ⟨List.forall_mem_cons.mpr ⟨hfits, hgoes.fits⟩, hgoes.ends⟩
  | fault e t =>
      have hgoes := hrest (some e) t h
      exact ⟨List.forall_mem_cons.mpr ⟨hfits, hgoes.fits⟩, hgoes.ends⟩
  | starved => exact .only hfits trivial

theorem Ready.bind (h : Ready A B s) (level : LevelId) (name : Text) {v : Value}
    (hv : Sorted A B v) : Ready A B (s.bind level name v) := h.set level name hv

theorem Ready.same (h : Ready A B s) (hstore : t.store = s.store) : Ready A B t := by
  rw [Ready, hstore]
  exact h

theorem Ready.echo (h : Ready A B s) (line : Text) : Ready A B (s.echo line) := by
  refine h.same ?_
  rw [Session.echo]
  split <;> rfl

/-- A declaration binds a function that it has the code of. -/
theorem Ready.declare (h : Ready A B s) (here : LevelId) (name : Token) (params : List Token)
    {body : List Stmt} (hbody : Stmt.EveryAll A B body) :
    Ready A B (declare here name params body s) :=
  (h.same rfl).bind here name.lexeme hbody

theorem Ready.bindAll (here : LevelId) (params : List Token) {args : List Value}
    (h : Ready A B s) (hargs : ∀ v ∈ args, Sorted A B v) :
    Ready A B (bindAll here params args s) := by
  induction params generalizing args s with
  | nil => exact h
  | cons p params ih =>
      cases args with
      | nil => exact h
      | cons v args =>
          rw [List.forall_mem_cons] at hargs
          exact ih (h.bind here p.lexeme hargs.1) hargs.2

theorem Ready.received (h : Ready A B s) (f : Closure) (paren : Token) {args : List Value}
    (hargs : ∀ v ∈ args, Sorted A B v) : Ready A B (s.received f args paren) :=
  Ready.bindAll _ _ (h.openLevel _) hargs

theorem Ready.keepRemarks (h : Ready A B s) (remarks : List GrammarFault) :
    Ready A B (s.begin.keepRemarks remarks) := h.same (Session.store_keepRemarks _ _).1

theorem Ready.conclude (h : Ready A B s) (succeeded : Bool) : Ready A B (s.conclude succeeded) :=
  h.same (Session.store_conclude _ _).1

/-- Doing what a native function asks for keeps functions of the sorts, and shows it no
    other. -/
theorem Ready.reply (h : Ready A B s) {q : Query} (hq : q.Brings (Stmt.EveryAll A B))
    {held : List Value} (hheld : ∀ v ∈ held, Sorted A B v) :
    Ready A B (s.reply q held).session ∧ ∀ v ∈ (s.reply q held).shown, Sorted A B v := by
  have hnone : ∀ v ∈ ([] : List Value), Sorted A B v := fun _ hv => absurd hv List.not_mem_nil
  cases q with
  | lookup level name =>
      exact ⟨h, fun v hv => Store.Holds.lookup h (Option.mem_toList.mp hv)⟩
  | bind level name v =>
      exact ⟨h.bind level name (Value.among_of sorted_of_data hheld v), hnone⟩
  | remove level name =>
      simp only [Session.reply]
      cases hremove : s.store.remove level name with
      | none => exact ⟨h, hnone⟩
      | some store => exact ⟨Store.Holds.remove h hremove, hnone⟩
  | make name params body home =>
      exact ⟨h.same rfl, List.forall_mem_singleton.mpr hq⟩
  | nest level => exact ⟨Store.Holds.openLevel h _, hnone⟩
  | _ => exact ⟨h.same rfl, hnone⟩

theorem ends_deleteAll (here : LevelId) (targets : List Token) (h : Ready A B s) :
    Ends A B (Carries A B) (deleteAll here targets s) := by
  induction targets generalizing s with
  | nil => exact ⟨trivial, h⟩
  | cons target targets ih =>
      rw [deleteAll, Store.delete]
      cases hremove : s.store.remove here target.lexeme with
      | none => exact h
      | some store => exact ih (h.remove hremove)

/-- A call that ends gives what its body gave back. -/
theorem Ends.finishCall {o : Outcome RuntimeFault Signal} (h : Ends A B (Carries A B) o) :
    Ends A B (Sorted A B) (finishCall o) := by
  cases o with
  | starved => trivial
  | fault e t => exact h
  | ok signal t =>
      cases signal with
      | normal => exact ⟨trivial, h.2⟩
      | giveBack v keyword => exact h
      | leave keyword => exact h.2
      | next keyword => exact h.2

end Laws

section Parts

variable {n : Nat} (ih : ∀ task : Task, task.counter = n → Fits A B task → Comes A B task)
  {s : Session} {here : LevelId}
include ih

theorem eval_goes {e : Expr} (h : Fits A B (.eval (n + 1) e here s)) :
    Goes A B (Task.eval (n + 1) e here s).parts (Sorted A B) (eval (n + 1) e here s) := by
  rcases h with ⟨he, hs⟩
  cases e with
  | constant v p =>
      simp only [eval, Task.parts]
      exact .done ⟨sorted_of_data (Value.isCallable_ofLiteral v), hs⟩
  | grouping inner p =>
      simp only [eval, Task.parts]
      exact .only ⟨he.2, hs⟩ (ih (.eval n inner here s) rfl ⟨he.2, hs⟩)
  | reference name =>
      simp only [eval, Task.parts]
      rcases Store.Holds.get_cases hs here name with ⟨v, hv, hsorted⟩ | hnone
      · rw [hv]
        exact .done ⟨hsorted, hs⟩
      · rw [hnone]
        exact .done hs
  | assign name value =>
      simp only [eval, Task.parts]
      exact .last ⟨he.2, hs⟩ (ih (.eval n value here s) rfl ⟨he.2, hs⟩) fun v t hv ht =>
        ⟨hv, ht.bind here name.lexeme hv⟩
  | augmented name operator value =>
      simp only [eval, Task.parts]
      rcases Store.Holds.get_cases hs here name with ⟨v, hv, _⟩ | hnone
      · rw [hv]
        refine .last ⟨he.2, hs⟩ (ih (.eval n value here s) rfl ⟨he.2, hs⟩) fun w t hw ht => ?_
        cases hresult : operator.kind.underlying?.bind fun op => Value.binary? op v w with
        | none => exact ht
        | some r =>
            rcases Option.bind_eq_some_iff.mp hresult with ⟨op, _, hop⟩
            have hr : Sorted A B r := sorted_of_data (Value.isCallable_of_binary? hop)
            exact ⟨hr, ht.bind here name.lexeme hr⟩
      · rw [hnone]
        exact .done hs
  | step operator name =>
      simp only [eval, Task.parts]
      rcases Store.Holds.get_cases hs here name with ⟨v, hv, _⟩ | hnone
      · rw [hv]
        simp only
        cases hresult : v.step? operator.kind with
        | none => exact .done hs
        | some r =>
            have hr : Sorted A B r := sorted_of_data (Value.isCallable_of_step? hresult)
            exact .done ⟨hr, hs.bind here name.lexeme hr⟩
      · rw [hnone]
        exact .done hs
  | unary operator operand =>
      simp only [eval, Task.parts]
      refine .last ⟨he.2, hs⟩ (ih (.eval n operand here s) rfl ⟨he.2, hs⟩) fun v t _ ht => ?_
      cases hresult : v.unary? operator.kind with
      | none => exact ht
      | some r => exact ⟨sorted_of_data (Value.isCallable_of_unary? hresult), ht⟩
  | binary left operator right =>
      simp only [eval, Task.parts]
      refine .andThen ⟨he.2.1, hs⟩ (ih (.eval n left here s) rfl ⟨he.2.1, hs⟩) fun v t _ ht => ?_
      refine .last ⟨he.2.2, ht⟩ (ih (.eval n right here t) rfl ⟨he.2.2, ht⟩) fun w u _ hu => ?_
      cases hresult : Value.binary? operator.kind v w with
      | none => exact hu
      | some r => exact ⟨sorted_of_data (Value.isCallable_of_binary? hresult), hu⟩
  | logical left operator right =>
      simp only [eval, Task.parts]
      refine .andThen ⟨he.2.1, hs⟩ (ih (.eval n left here s) rfl ⟨he.2.1, hs⟩) fun v t hv ht => ?_
      by_cases hdecided : v.truthy = (operator.kind == .either)
      · rw [if_pos hdecided, if_pos hdecided]
        exact .done ⟨hv, ht⟩
      · rw [if_neg hdecided, if_neg hdecided]
        exact .only ⟨he.2.2, ht⟩ (ih (.eval n right here t) rfl ⟨he.2.2, ht⟩)
  | call callee paren args =>
      simp only [eval, Task.parts]
      refine .andThen ⟨he.2.1, hs⟩ (ih (.eval n callee here s) rfl ⟨he.2.1, hs⟩) fun f t hf ht => ?_
      refine .andThen ⟨he.2.2, ht⟩ (ih (.evalAll n args here t) rfl ⟨he.2.2, ht⟩)
        fun vs u hvs hu => ?_
      exact .only ⟨hf, hvs, hu⟩ (ih (.apply n f vs paren u) rfl ⟨hf, hvs, hu⟩)

theorem evalAll_goes {es : List Expr} (h : Fits A B (.evalAll (n + 1) es here s)) :
    Goes A B (Task.evalAll (n + 1) es here s).parts (fun vs => ∀ v ∈ vs, Sorted A B v)
      (evalAll (n + 1) es here s) := by
  rcases h with ⟨hes, hs⟩
  cases es with
  | nil =>
      simp only [evalAll, Task.parts]
      exact .done ⟨fun _ hv => absurd hv List.not_mem_nil, hs⟩
  | cons e es =>
      simp only [evalAll, Task.parts]
      refine .andThen ⟨hes.1, hs⟩ (ih (.eval n e here s) rfl ⟨hes.1, hs⟩) fun v t hv ht => ?_
      exact .last ⟨hes.2, ht⟩ (ih (.evalAll n es here t) rfl ⟨hes.2, ht⟩) fun vs u hvs hu =>
        ⟨List.forall_mem_cons.mpr ⟨hv, hvs⟩, hu⟩

theorem apply_goes {f : Value} {args : List Value} {paren : Token}
    (h : Fits A B (.apply (n + 1) f args paren s)) :
    Goes A B (Task.apply (n + 1) f args paren s).parts (Sorted A B)
      (apply (n + 1) f args paren s) := by
  rcases h with ⟨hf, hargs, hs⟩
  cases f with
  | function f =>
      simp only [apply, Task.parts]
      split
      · exact .only ⟨hf, hargs, hs⟩ (ih (.callFunction n f args paren s) rfl ⟨hf, hargs, hs⟩)
      · exact .done hs
  | native f =>
      simp only [apply, Task.parts]
      split
      · have hfits : Fits A B (.callNative n (f.action (args.map Value.shown)) args s) :=
          ⟨hf _, hargs, hs⟩
        refine .only hfits ?_
        have hcomes :
            Ends A B (Sorted A B) (callNative n (f.action (args.map Value.shown)) args s) :=
          ih _ rfl hfits
        -- However a fault is reported, it leaves the session that the function left.
        generalize callNative n (f.action (args.map Value.shown)) args s = o at hcomes ⊢
        cases o with
        | ok v t => exact hcomes
        | fault e t => cases e <;> exact hcomes
        | starved => trivial
      · exact .done hs
  | _ =>
      simp only [apply, Task.parts]
      exact .done hs

theorem callFunction_goes {f : Closure} {args : List Value} {paren : Token}
    (h : Fits A B (.callFunction (n + 1) f args paren s)) :
    Goes A B (Task.callFunction (n + 1) f args paren s).parts (Sorted A B)
      (callFunction (n + 1) f args paren s) := by
  rcases h with ⟨hbody, hargs, hs⟩
  have hfits : Fits A B (.execAll n f.body s.store.levels.size (s.received f args paren)) :=
    ⟨hbody, hs.received f paren hargs⟩
  rw [callFunction_eq_finishCall, Task.parts_callFunction]
  exact .only hfits (Ends.finishCall (ih _ rfl hfits))

theorem callNative_goes {script : Script} {held : List Value}
    (h : Fits A B (.callNative (n + 1) script held s)) :
    Goes A B (Task.callNative (n + 1) script held s).parts (Sorted A B)
      (callNative (n + 1) script held s) := by
  rcases h with ⟨hscript, hheld, hs⟩
  cases script with
  | give v =>
      simp only [callNative, Task.parts]
      exact .done ⟨Value.among_of sorted_of_data hheld v, hs⟩
  | fail e =>
      simp only [callNative, Task.parts]
      exact .done hs
  | ask q next =>
      simp only [callNative, Task.parts]
      rcases hs.reply hscript.1 hheld with ⟨hready, hshown⟩
      have hfits : Fits A B (.callNative n (next (s.reply q held).answer)
          (held ++ (s.reply q held).shown) (s.reply q held).session) :=
        ⟨hscript.2 _, List.forall_mem_append.mpr ⟨hheld, hshown⟩, hready⟩
      exact .only hfits (ih _ rfl hfits)
  | wrap name arity action next =>
      simp only [callNative, Task.parts]
      have hmade : Sorted A B (.native ⟨name, arity, action, s.stamps⟩) := hscript.1
      have hfits : Fits A B (.callNative n next
          (held ++ [.native ⟨name, arity, action, s.stamps⟩]) s.stamp.2) :=
        ⟨hscript.2, List.forall_mem_append.mpr ⟨hheld, List.forall_mem_singleton.mpr hmade⟩,
          hs.same rfl⟩
      exact .only hfits (ih _ rfl hfits)
  | run work next =>
      have hnext : ∀ e t, Ready A B t → Fits A B (.callNative n (next e) held t) :=
        fun e t ht => ⟨hscript.2 e, hheld, ht⟩
      cases work with
      | source source =>
          simp only [callNative, Task.parts]
          exact .either hs (ih (.runSource n source s) rfl hs) fun e t ht =>
            .only (hnext e t ht) (ih _ rfl (hnext e t ht))
      | program p =>
          simp only [callNative, Task.parts]
          have hfits : Fits A B (.interpret n p s) := ⟨hscript.1, hs⟩
          exact .either hfits (ih _ rfl hfits) fun e t ht =>
            .only (hnext _ t ht) (ih _ rfl (hnext _ t ht))

theorem exec_goes {st : Stmt} (h : Fits A B (.exec (n + 1) st here s)) :
    Goes A B (Task.exec (n + 1) st here s).parts (Carries A B) (exec (n + 1) st here s) := by
  rcases h with ⟨hst, hs⟩
  cases st with
  | function name params body =>
      simp only [exec, Task.parts]
      exact .done ⟨trivial, hs.declare here name params hst.2⟩
  | giveBack keyword value =>
      cases value with
      | none =>
          simp only [exec, Task.parts]
          exact .done ⟨trivial, hs⟩
      | some value =>
          simp only [exec, Task.parts]
          exact .last ⟨hst.2, hs⟩ (ih (.eval n value here s) rfl ⟨hst.2, hs⟩) fun v t hv ht =>
            ⟨hv, ht⟩
  | delete keyword targets =>
      simp only [exec, Task.parts]
      exact .done (ends_deleteAll here targets hs)
  | loop keyword condition body =>
      simp only [exec, Task.parts]
      exact .only ⟨hst.2.1, hst.2.2, hs⟩
        (ih (.execLoop n condition body here s) rfl ⟨hst.2.1, hst.2.2, hs⟩)
  | branch keyword condition consequent alternate =>
      simp only [exec, Task.parts]
      rcases hst with ⟨-, hcondition, hthen, helse⟩
      refine .andThen ⟨hcondition, hs⟩ (ih (.eval n condition here s) rfl ⟨hcondition, hs⟩)
        fun v t _ ht => ?_
      by_cases hv : v.truthy
      · rw [if_pos hv, if_pos hv]
        exact .only ⟨hthen, ht⟩ (ih (.execAll n consequent here t) rfl ⟨hthen, ht⟩)
      · rw [if_neg hv, if_neg hv]
        cases alternate with
        | none => exact .done ⟨trivial, ht⟩
        | some body => exact .only ⟨helse, ht⟩ (ih (.execAll n body here t) rfl ⟨helse, ht⟩)
  | expression value =>
      simp only [exec, Task.parts]
      exact .last ⟨hst.2, hs⟩ (ih (.eval n value here s) rfl ⟨hst.2, hs⟩) fun v t _ ht =>
        ⟨trivial, ht⟩
  | echo keyword value =>
      simp only [exec, Task.parts]
      exact .last ⟨hst.2, hs⟩ (ih (.eval n value here s) rfl ⟨hst.2, hs⟩) fun v t _ ht =>
        ⟨trivial, ht.echo v.text⟩
  | leave keyword =>
      simp only [exec, Task.parts]
      exact .done ⟨trivial, hs⟩
  | next keyword =>
      simp only [exec, Task.parts]
      exact .done ⟨trivial, hs⟩

theorem execAll_goes {b : List Stmt} (h : Fits A B (.execAll (n + 1) b here s)) :
    Goes A B (Task.execAll (n + 1) b here s).parts (Carries A B)
      (execAll (n + 1) b here s) := by
  rcases h with ⟨hb, hs⟩
  cases b with
  | nil =>
      simp only [execAll, Task.parts]
      exact .done ⟨trivial, hs⟩
  | cons st rest =>
      simp only [execAll, Task.parts]
      refine .andThen ⟨hb.1, hs⟩ (ih (.exec n st here s) rfl ⟨hb.1, hs⟩)
        fun signal t hsignal ht => ?_
      cases signal with
      | normal => exact .only ⟨hb.2, ht⟩ (ih (.execAll n rest here t) rfl ⟨hb.2, ht⟩)
      | _ => exact .done ⟨hsignal, ht⟩

theorem execLoop_goes {e : Expr} {b : List Stmt} (h : Fits A B (.execLoop (n + 1) e b here s)) :
    Goes A B (Task.execLoop (n + 1) e b here s).parts (Carries A B)
      (execLoop (n + 1) e b here s) := by
  rcases h with ⟨he, hb, hs⟩
  simp only [execLoop, Task.parts]
  refine .andThen ⟨he, hs⟩ (ih (.eval n e here s) rfl ⟨he, hs⟩) fun v t _ ht => ?_
  by_cases hv : v.truthy
  · rw [if_pos hv, if_pos hv]
    refine .andThen ⟨hb, ht⟩ (ih (.execAll n b here t) rfl ⟨hb, ht⟩) fun signal u hsignal hu => ?_
    have hagain : Goes A B [.execLoop n e b here u] (Carries A B) (execLoop n e b here u) :=
      .only ⟨he, hb, hu⟩ (ih (.execLoop n e b here u) rfl ⟨he, hb, hu⟩)
    cases signal with
    | normal => exact hagain
    | next keyword => exact hagain
    | leave keyword => exact .done ⟨trivial, hu⟩
    | giveBack v keyword => exact .done ⟨hsignal, hu⟩
  · rw [if_neg hv, if_neg hv]
    exact .done ⟨trivial, ht⟩

theorem interpret_goes {p : List Stmt} (h : Fits A B (.interpret (n + 1) p s)) :
    Goes A B (Task.interpret (n + 1) p s).parts (fun _ => True) (interpret (n + 1) p s) := by
  have hfits : Fits A B (.execAll n p Store.globals { s with calls := [] }) := ⟨h.1, h.2.same rfl⟩
  simp only [interpret, Task.parts]
  refine .last hfits (ih _ rfl hfits) fun signal t _ ht => ?_
  cases signal with
  | leave keyword => exact ht
  | next keyword => exact ht
  | normal => exact ⟨trivial, ht⟩
  | giveBack v keyword => exact ⟨trivial, ht⟩

/-- A source is carried out if it was parsed, and so its code is of the sorts. -/
theorem runSource_goes (hparsed : ∀ ts p, (parse ts).outcome = .ok p → Stmt.EveryAll A B p)
    {source : Text} (h : Fits A B (.runSource (n + 1) source s)) :
    Goes A B (Task.runSource (n + 1) source s).parts (fun _ => True)
      (runSource (n + 1) source s) := by
  simp only [runSource, Task.parts]
  cases Token.scan source with
  | error e => exact .done (h.same rfl)
  | ok tokens =>
      have hremarks : Ready A B (s.begin.keepRemarks (parse tokens).remarks) := h.keepRemarks _
      simp only
      cases hparse : (parse tokens).outcome with
      | error e => exact .done hremarks
      | ok program =>
          have hfits : Fits A B (.interpret n program ((s.begin.keepRemarks
              (parse tokens).remarks).note (.parsed tokens.length program.length))) :=
            ⟨hparsed tokens program hparse, hremarks.same (Session.store_note _ _)⟩
          have hcomes : Ends A B (fun _ => True) (interpret n program _) := ih _ rfl hfits
          refine .only hfits ?_
          simp only
          generalize interpret n program _ = o at hcomes ⊢
          cases o with
          | ok _ t => exact ⟨trivial, hcomes.2.conclude true⟩
          | fault e t => exact Ready.conclude hcomes false
          | starved => trivial

end Parts

section Runs

variable (hparsed : ∀ ts p, (parse ts).outcome = .ok p → Stmt.EveryAll A B p)
include hparsed

/-- A task that fits hands on parts that fit, and what comes of it is of the sorts. -/
theorem Fits.goes {task : Task} (h : Fits A B task) :
    (∀ part ∈ task.parts, Fits A B part) ∧ Comes A B task := by
  induction hn : task.counter generalizing task with
  | zero =>
      cases task <;> cases hn <;>
        simp only [Task.parts, Comes, eval, evalAll, apply, callFunction, callNative, exec, execAll,
          execLoop, interpret, runSource, Ends, List.not_mem_nil, false_implies, implies_true,
          and_self]
  | succ n ih =>
      have hcomes : ∀ task : Task, task.counter = n → Fits A B task → Comes A B task :=
        fun task hcounter hfits => (ih hfits hcounter).2
      cases task with
      | eval m e here s =>
          obtain rfl : m = n + 1 := hn
          exact (eval_goes hcomes h).both
      | evalAll m es here s =>
          obtain rfl : m = n + 1 := hn
          exact (evalAll_goes hcomes h).both
      | apply m f args paren s =>
          obtain rfl : m = n + 1 := hn
          exact (apply_goes hcomes h).both
      | callFunction m f args paren s =>
          obtain rfl : m = n + 1 := hn
          exact (callFunction_goes hcomes h).both
      | callNative m script held s =>
          obtain rfl : m = n + 1 := hn
          exact (callNative_goes hcomes h).both
      | exec m st here s =>
          obtain rfl : m = n + 1 := hn
          exact (exec_goes hcomes h).both
      | execAll m b here s =>
          obtain rfl : m = n + 1 := hn
          exact (execAll_goes hcomes h).both
      | execLoop m e b here s =>
          obtain rfl : m = n + 1 := hn
          exact (execLoop_goes hcomes h).both
      | interpret m p s =>
          obtain rfl : m = n + 1 := hn
          exact (interpret_goes hcomes h).both
      | runSource m source s =>
          obtain rfl : m = n + 1 := hn
          exact (runSource_goes hcomes hparsed h).both

/-- All code that comes up while a task is worked on that fits is of the sorts. -/
theorem Fits.reaches {task inner : Task} (h : Fits A B task) (hreaches : task.Reaches inner) :
    Fits A B inner := by
  induction hreaches with
  | refl => exact h
  | tail _ hpart ih => exact (ih.goes hparsed).1 _ hpart

/-- A task that fits leaves functions of the sorts only. -/
theorem Fits.left {task : Task} {t : Session} (h : Fits A B task) (ht : task.left? = some t) :
    Ready A B t := by
  have hcomes := (h.goes hparsed).2
  cases task <;> exact Ends.left hcomes ht

end Runs

end Code

end PocketScript
