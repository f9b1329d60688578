import PocketScript.Session.Evaluate

/-!
# What a run does to a session

A relation between the session before and the session after holds of every run
if it holds of the few things that a run does to a session: binding and
removing names, giving out stamps, opening a level, writing a line, reading the
clock, keeping a log, keeping something for the host, having the output thrown
away, and entering and leaving calls.

`Passage` lists them. Calls come as a pair: a relation has to survive what
happens between entering and leaving, and it may not hold in between. The
start of a program is like that too, because it forgets the calls under way.

## Main definitions

* `Passage`: A relation that survives everything a run does.
* `Outcome.Leaves`: The session that an outcome leaves is related to a given
  one.
* `Passage.Holds`: Everything leaves related sessions, with a given counter.

## Theorems

* `Passage.holds`: A passage holds of every run, also of one that faults.
* `settled_passage`: Calls that were entered are left, and the clock keeps its
  pace.
-/

namespace PocketScript

/-- A relation between sessions that survives everything a run does. -/
structure Passage (R : Session → Session → Prop) : Prop where
  refl : ∀ s, R s s
  trans : ∀ {s t u}, R s t → R t u → R s u
  bind : ∀ s level name v, R s (s.bind level name v)
  remove : ∀ {s : Session} {here name store}, s.store.remove here name = some store →
    R s { s with store := store }
  openLevel : ∀ s outer, R s { s with store := (s.store.openLevel outer).2 }
  stamp : ∀ s, R s s.stamp.2
  echo : ∀ s line, R s (s.echo line)
  readClock : ∀ s, R s s.readClock.2
  note : ∀ s r, R s (s.note r)
  remarks : ∀ s rs, R s { s with remarks := rs }
  remember : ∀ s t, R s { s with memory := t }
  mute : ∀ s muted, R s { s with muted := muted }
  call : ∀ {s t : Session} {function pos}, R (s.enter function pos) t → R s t.leave
  program : ∀ {s t : Session}, R { s with calls := [] } t → R s t

/-- The session that an outcome leaves is related to `s`. -/
def Outcome.Leaves {ε α : Type} (R : Session → Session → Prop) (s : Session) :
    Outcome ε α → Prop
  | .ok _ t => R s t
  | .fault _ t => R s t
  | .starved => True

namespace Passage

variable {R : Session → Session → Prop} {ε α β : Type}

theorem leaves_trans (P : Passage R) {s t : Session} {o : Outcome ε α} (hst : R s t)
    (h : o.Leaves R t) : o.Leaves R s := by
  cases o with
  | ok a u => exact P.trans hst h
  | fault e u => exact P.trans hst h
  | starved => trivial

theorem leaves_andThen (P : Passage R) {s : Session} {o : Outcome ε α}
    {f : α → Session → Outcome ε β} (h : o.Leaves R s) (hf : ∀ a t, (f a t).Leaves R t) :
    (o.andThen f).Leaves R s := by
  cases o with
  | ok a t => exact P.leaves_trans h (hf a t)
  | fault e t => exact h
  | starved => trivial

theorem leaves_either {ε' : Type} (P : Passage R) {s : Session} {o : Outcome ε Unit}
    {f : Option ε → Session → Outcome ε' β} (h : o.Leaves R s)
    (hf : ∀ e t, (f e t).Leaves R t) : (o.either f).Leaves R s := by
  cases o with
  | ok a t => exact P.leaves_trans h (hf none t)
  | fault e t => exact P.leaves_trans h (hf (some e) t)
  | starved => trivial

theorem leaves_raise (P : Passage R) (s : Session) (e : RuntimeFault) :
    (s.raise e : Outcome RuntimeFault α).Leaves R s := P.refl s

/-- With counter `n`, everything leaves related sessions. -/
structure Holds (R : Session → Session → Prop) (n : Nat) : Prop where
  eval : ∀ e here s, (eval n e here s).Leaves R s
  evalAll : ∀ es here s, (evalAll n es here s).Leaves R s
  apply : ∀ f args paren s, (apply n f args paren s).Leaves R s
  callFunction : ∀ f args paren s, (callFunction n f args paren s).Leaves R s
  callNative : ∀ script held s, (callNative n script held s).Leaves R s
  exec : ∀ st here s, (exec n st here s).Leaves R s
  execAll : ∀ b here s, (execAll n b here s).Leaves R s
  execLoop : ∀ e b here s, (execLoop n e b here s).Leaves R s
  interpret : ∀ p s, (interpret n p s).Leaves R s
  runSource : ∀ source s, (runSource n source s).Leaves R s

theorem holds_zero : Holds R 0 := by
  constructor
  all_goals
    intros
    simp only [eval, evalAll, apply, callFunction, callNative, exec, execAll, execLoop, interpret,
      runSource]
    trivial

section

variable (P : Passage R)
include P

theorem deleteAll_leaves (here : LevelId) (ts : List Token) : ∀ s,
    (deleteAll here ts s).Leaves R s := by
  induction ts with
  | nil => intro s; exact P.refl s
  | cons t ts ih =>
      intro s
      rw [deleteAll, Store.delete]
      cases hremove : s.store.remove here t.lexeme with
      | none => exact P.leaves_raise s _
      | some store => exact P.leaves_trans (P.remove hremove) (ih _)

theorem bindAll_related (here : LevelId) (params : List Token) : ∀ (args : List Value) (s : Session),
    R s (bindAll here params args s) := by
  induction params with
  | nil => intro args s; exact P.refl s
  | cons p params ih =>
      intro args s
      cases args with
      | nil => exact P.refl s
      | cons v args => exact P.trans (P.bind s here p.lexeme v) (ih args _)

theorem declare_related (here : LevelId) (name : Token) (params : List Token) (body : List Stmt)
    (s : Session) : R s (declare here name params body s) :=
  P.trans (P.stamp s) (P.bind s.stamp.2 here name.lexeme _)

theorem keepRemarks_related (remarks : List GrammarFault) (s : Session) :
    R s (s.keepRemarks remarks) := by
  have hnotes : ∀ (rs : List GrammarFault) (t : Session),
      R t (rs.foldl (fun t r => t.note (.remark r.pos.line r.message)) t) := by
    intro rs
    induction rs with
    | nil => intro t; exact P.refl t
    | cons r rs ih => intro t; exact P.trans (P.note t _) (ih _)
  exact P.trans (P.remarks s remarks) (hnotes remarks _)

theorem begin_related (s : Session) : R s s.begin := P.trans (P.readClock s) (P.remarks _ [])

theorem conclude_related (succeeded : Bool) (s : Session) : R s (s.conclude succeeded) := by
  rw [Session.conclude]
  split
  · exact P.trans (P.readClock s) (P.note _ _)
  · exact P.refl s

/-- A session that does what a host asks for goes through one of these changes. -/
theorem reply_related (q : Query) (held : List Value) (s : Session) :
    R s (s.reply q held).session := by
  cases q with
  | time => exact P.readClock s
  | kept => exact P.refl s
  | remember t => exact P.remember s t
  | remarks => exact P.refl s
  | mute muted => exact P.mute s muted
  | names level => exact P.refl s
  | outer level => exact P.refl s
  | nest level => exact P.openLevel s _
  | lookup level name => exact P.refl s
  | bind level name v => exact P.bind s level name _
  | make name params body home => exact P.stamp s
  | remove level name =>
      rw [Session.reply]
      cases hremove : s.store.remove level name with
      | none => exact P.refl s
      | some store => exact P.remove hremove

/-- A call is left whatever came of its body. -/
theorem finishCall_leaves {s : Session} {function : Text} {pos : Position}
    {o : Outcome RuntimeFault Signal} (h : o.Leaves R (s.enter function pos)) :
    (finishCall o).Leaves R s := by
  cases o with
  | starved => trivial
  | fault e t => exact P.call h
  | ok signal t => cases signal <;> exact P.call h

variable {n : Nat} (ih : Holds R n)
include ih

theorem eval_leaves (e : Expr) (here : LevelId) (s : Session) :
    (eval (n + 1) e here s).Leaves R s := by
  cases e with
  | constant v p =>
      simp only [eval]
      exact P.refl s
  | grouping inner p =>
      simp only [eval]
      exact ih.eval inner here s
  | reference name =>
      simp only [eval]
      split <;> exact P.refl s
  | assign name value =>
      simp only [eval]
      exact P.leaves_andThen (ih.eval value here s) fun v t => P.bind t here _ v
  | augmented name operator value =>
      simp only [eval]
      split
      · exact P.leaves_raise s _
      · refine P.leaves_andThen (ih.eval value here s) fun v t => ?_
        split
        · exact P.bind t here _ _
        · exact P.leaves_raise t _
  | step operator name =>
      simp only [eval]
      split
      · exact P.leaves_raise s _
      · split
        · exact P.bind s here _ _
        · exact P.leaves_raise s _
  | unary operator operand =>
      simp only [eval]
      refine P.leaves_andThen (ih.eval operand here s) fun v t => ?_
      split <;> exact P.refl t
  | binary left operator right =>
      simp only [eval]
      refine P.leaves_andThen (ih.eval left here s) fun a t => ?_
      refine P.leaves_andThen (ih.eval right here t) fun b u => ?_
      split <;> exact P.refl u
  | logical left operator right =>
      simp only [eval]
      refine P.leaves_andThen (ih.eval left here s) fun a t => ?_
      split
      · exact P.refl t
      · exact ih.eval right here t
  | call callee paren args =>
      simp only [eval]
      exact P.leaves_andThen (ih.eval callee here s) fun f t =>
        P.leaves_andThen (ih.evalAll args here t) fun vs u => ih.apply f vs paren u

theorem evalAll_leaves (es : List Expr) (here : LevelId) (s : Session) :
    (evalAll (n + 1) es here s).Leaves R s := by
  cases es with
  | nil =>
      simp only [evalAll]
      exact P.refl s
  | cons e es =>
      simp only [evalAll]
      exact P.leaves_andThen (ih.eval e here s) fun v t =>
        P.leaves_andThen (ih.evalAll es here t) fun vs u => P.refl u

theorem apply_leaves (f : Value) (args : List Value) (paren : Token) (s : Session) :
    (apply (n + 1) f args paren s).Leaves R s := by
  cases f with
  | function f =>
      simp only [apply]
      split
      · exact ih.callFunction f args paren s
      · exact P.leaves_raise s _
  | native f =>
      simp only [apply]
      split
      · have hcall := ih.callNative (f.action (args.map Value.shown)) args s
        generalize callNative n (f.action (args.map Value.shown)) args s = o at hcall ⊢
        cases o with
        | ok v t => exact hcall
        | starved => trivial
        | fault e t => cases e <;> exact hcall
      · exact P.leaves_raise s _
  | _ =>
      simp only [apply]
      exact P.leaves_raise s _

theorem callFunction_leaves (f : Closure) (args : List Value) (paren : Token) (s : Session) :
    (callFunction (n + 1) f args paren s).Leaves R s := by
  simp only [callFunction]
  have hopened := P.trans (P.openLevel s (some f.home))
    (P.bindAll_related (s.store.openLevel (some f.home)).1 f.params args _)
  exact P.leaves_trans hopened (P.finishCall_leaves (ih.execAll _ _ _))

theorem callNative_leaves (script : Script) (held : List Value) (s : Session) :
    (callNative (n + 1) script held s).Leaves R s := by
  cases script with
  | give v =>
      simp only [callNative]
      exact P.refl s
  | fail e =>
      simp only [callNative]
      exact P.refl s
  | ask q next =>
      simp only [callNative]
      exact P.leaves_trans (P.reply_related q held s) (ih.callNative _ _ _)
  | wrap name arity action next =>
      simp only [callNative]
      exact P.leaves_trans (P.stamp s) (ih.callNative _ _ _)
  | run work next =>
      cases work with
      | source t =>
          simp only [callNative]
          exact P.leaves_either (ih.runSource t s) fun e u => ih.callNative (next e) held u
      | program p =>
          simp only [callNative]
          exact P.leaves_either (ih.interpret p s) fun e u => ih.callNative _ held u

theorem exec_leaves (st : Stmt) (here : LevelId) (s : Session) :
    (exec (n + 1) st here s).Leaves R s := by
  cases st with
  | function name params body =>
      simp only [exec]
      exact P.declare_related here name params body s
  | giveBack keyword value =>
      cases value with
      | none =>
          simp only [exec]
          exact P.refl s
      | some value =>
          simp only [exec]
          exact P.leaves_andThen (ih.eval value here s) fun _ t => P.refl t
  | delete keyword targets =>
      simp only [exec]
      exact P.deleteAll_leaves here targets s
  | loop keyword condition body =>
      simp only [exec]
      exact ih.execLoop condition body here s
  | branch keyword condition consequent alternate =>
      simp only [exec]
      refine P.leaves_andThen (ih.eval condition here s) fun v t => ?_
      split
      · exact ih.execAll consequent here t
      · cases alternate with
        | none => exact P.refl t
        | some body => exact ih.execAll body here t
  | expression value =>
      simp only [exec]
      exact P.leaves_andThen (ih.eval value here s) fun _ t => P.refl t
  | echo keyword value =>
      simp only [exec]
      exact P.leaves_andThen (ih.eval value here s) fun v t => P.echo t _
  | leave keyword =>
      simp only [exec]
      exact P.refl s
  | next keyword =>
      simp only [exec]
      exact P.refl s

theorem execAll_leaves (b : List Stmt) (here : LevelId) (s : Session) :
    (execAll (n + 1) b here s).Leaves R s := by
  cases b with
  | nil =>
      simp only [execAll]
      exact P.refl s
  | cons st rest =>
      simp only [execAll]
      refine P.leaves_andThen (ih.exec st here s) fun signal t => ?_
      cases signal with
      | normal => exact ih.execAll rest here t
      | _ => exact P.refl t

theorem execLoop_leaves (e : Expr) (b : List Stmt) (here : LevelId) (s : Session) :
    (execLoop (n + 1) e b here s).Leaves R s := by
  simp only [execLoop]
  refine P.leaves_andThen (ih.eval e here s) fun v t => ?_
  split
  · refine P.leaves_andThen (ih.execAll b here t) fun signal u => ?_
    cases signal with
    | normal => exact ih.execLoop e b here u
    | next k => exact ih.execLoop e b here u
    | leave k => exact P.refl u
    | giveBack v k => exact P.refl u
  · exact P.refl t

theorem interpret_leaves (p : List Stmt) (s : Session) : (interpret (n + 1) p s).Leaves R s := by
  simp only [interpret]
  have hprogram : ∀ {o : Outcome RuntimeFault Unit}, o.Leaves R { s with calls := [] } →
      o.Leaves R s := by
    intro o ho
    cases o with
    | ok a t => exact P.program ho
    | fault e t => exact P.program ho
    | starved => trivial
  refine hprogram (P.leaves_andThen (ih.execAll p _ _) fun signal t => ?_)
  cases signal <;> exact P.refl t

theorem runSource_leaves (source : Text) (s : Session) :
    (runSource (n + 1) source s).Leaves R s := by
  simp only [runSource]
  cases Token.scan source with
  | error e => exact P.begin_related s
  | ok tokens =>
      have hkept := P.trans (P.begin_related s) (P.keepRemarks_related (parse tokens).remarks _)
      dsimp only
      cases (parse tokens).outcome with
      | error e => exact hkept
      | ok program =>
          have hrun := P.leaves_trans (P.trans hkept (P.note _ (.parsed tokens.length program.length)))
            (ih.interpret program _)
          dsimp only
          generalize interpret n program _ = o at hrun ⊢
          cases o with
          | ok a t => exact P.trans hrun (P.conclude_related true t)
          | fault e t => exact P.trans hrun (P.conclude_related false t)
          | starved => trivial

theorem holds_succ : Holds R (n + 1) where
  eval := P.eval_leaves ih
  evalAll := P.evalAll_leaves ih
  apply := P.apply_leaves ih
  callFunction := P.callFunction_leaves ih
  callNative := P.callNative_leaves ih
  exec := P.exec_leaves ih
  execAll := P.execAll_leaves ih
  execLoop := P.execLoop_leaves ih
  interpret := P.interpret_leaves ih
  runSource := P.runSource_leaves ih

end

/-- A passage holds of every run. -/
theorem holds (P : Passage R) (n : Nat) : Holds R n := by
  induction n with
  | zero => exact holds_zero
  | succ n ih => exact P.holds_succ ih

end Passage

/-- What a run does to the calls under way and to the pace of the clock: it
    leaves the calls that it entered, and the clock as it was. -/
def Settled (s t : Session) : Prop := t.calls <:+ s.calls ∧ t.clock.tick = s.clock.tick

theorem settled_passage : Passage Settled where
  refl s := ⟨List.suffix_refl _, rfl⟩
  trans h k := ⟨k.1.trans h.1, k.2.trans h.2⟩
  bind s _ _ _ := ⟨List.suffix_refl _, rfl⟩
  remove _ := ⟨List.suffix_refl _, rfl⟩
  openLevel s _ := ⟨List.suffix_refl _, rfl⟩
  stamp s := ⟨List.suffix_refl _, rfl⟩
  echo s line := by
    rw [Session.echo]
    split <;> exact ⟨List.suffix_refl _, rfl⟩
  readClock s := ⟨List.suffix_refl _, rfl⟩
  note s r := by
    rw [Session.note]
    split <;> exact ⟨List.suffix_refl _, rfl⟩
  remarks s _ := ⟨List.suffix_refl _, rfl⟩
  remember s _ := ⟨List.suffix_refl _, rfl⟩
  mute s _ := ⟨List.suffix_refl _, rfl⟩
  call h := by
    refine ⟨?_, h.2⟩
    -- The call that was entered is still there, or was forgotten by a program
    -- that started inside it.
    rcases List.suffix_cons_iff.mp h.1 with heq | hsuffix
    · simp only [Session.leave, heq, List.tail_cons]
      exact List.suffix_refl _
    · exact (List.tail_suffix _).trans hsuffix
  program h := ⟨(List.suffix_nil.mp h.1) ▸ List.nil_suffix, h.2⟩

end PocketScript
