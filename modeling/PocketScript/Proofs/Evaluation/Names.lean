import PocketScript.Proofs.Evaluation.Reachable
import PocketScript.Proofs.Program.Sites
import PocketScript.Proofs.Scanning.Neighbours

/-!
# The names at the outermost level

The outermost level binds what the program carried out there binds, and nothing
else. A call binds names too, but in levels that it opens. So every name that a
session binds at its outermost level was written in a source that was run in it, as
an identifier, or was there when the session started.

Which names a piece of code can bind where it is carried out is a matter of its text
(`Expr.bound`, `Stmt.bound`). The body of a function does not count: it is carried
out somewhere else.

That calls leave the outermost level alone is a property that runs keep, away from
that level. It needs native functions that neither have anything carried out nor bind
names, since those would do so at the outermost level.

## Main definitions

* `Expr.bound`, `Stmt.boundAll`: The names that code binds where it is carried out.
* `Session.Names`: Every name at the outermost level is of some sort.
* `Keeping.naming`: What is carried out further inside keeps it so.
* `Session.Worded`: The outermost level binds words only.

## Theorems

* `Grammar.Derives.bound_mem`: The names that are bound were written as identifiers.
* `namesKept`, `names_interpret`: Code whose names are of the sort keeps it so.
* `Session.Worded.runSource`: Running a source binds words only.
-/

namespace PocketScript

mutual

/-- The names that an expression binds where it is evaluated. -/
def Expr.bound : Expr → List Token
  | .constant _ _ => []
  | .grouping inner _ => inner.bound
  | .reference _ => []
  | .assign name value => name :: value.bound
  | .augmented name _ value => name :: value.bound
  | .step _ name => [name]
  | .unary _ operand => operand.bound
  | .binary left _ right => left.bound ++ right.bound
  | .logical left _ right => left.bound ++ right.bound
  | .call callee _ args => callee.bound ++ Expr.boundAll args

/-- The names that expressions bind. -/
def Expr.boundAll : List Expr → List Token
  | [] => []
  | e :: es => e.bound ++ Expr.boundAll es

end

mutual

/-- The names that a statement binds where it is carried out. -/
def Stmt.bound : Stmt → List Token
  | .expression value => value.bound
  | .echo _ value => value.bound
  | .function name _ _ => [name]
  | .giveBack _ none => []
  | .giveBack _ (some value) => value.bound
  | .delete _ _ => []
  | .branch _ condition consequent alternate =>
    condition.bound ++ (Stmt.boundAll consequent ++ Stmt.boundElse alternate)
  | .loop _ condition body => condition.bound ++ Stmt.boundAll body
  | .leave _ => []
  | .next _ => []

/-- The names that statements bind. -/
def Stmt.boundAll : List Stmt → List Token
  | [] => []
  | st :: rest => st.bound ++ Stmt.boundAll rest

/-- The names that an else part binds. -/
def Stmt.boundElse : Option (List Stmt) → List Token
  | none => []
  | some body => Stmt.boundAll body

end

namespace Grammar

/-- The names that a tree binds, of whatever form it is. -/
def Form.bound : (f : Form) → f.Tree → List Token
  | assignment, e => e.bound
  | chain _, e => e.bound
  | operand _, e => e.bound
  | unary, e => e.bound
  | prefixed, e => e.bound
  | called, e => e.bound
  | suffixed, e => e.bound
  | primary, e => e.bound
  | arguments, es => Expr.boundAll es
  | listed, es => Expr.boundAll es
  | parameters, _ => []
  | named, _ => []
  | statement, st => st.bound
  | conditional, st => st.bound
  | block, b => Stmt.boundAll b
  | statements, b => Stmt.boundAll b

/-- The names that a tree binds are identifiers among the tokens it derives from. -/
theorem Derives.bound_mem {f : Form} {ts : List Token} {tree : f.Tree} (h : Derives f ts tree) :
    ∀ t ∈ f.bound tree, t ∈ ts ∧ t.kind = .identifier := by
  induction h
  all_goals
    simp only [Form.bound, Stmt.bound, Stmt.boundAll, Stmt.boundElse, Expr.bound, Expr.boundAll] at *
    grind

end Grammar

/-- Names and reserved words of a source are words. -/
theorem Lexicon.isWord_of_scan {source : Text} {ts : List Token} (h : Token.scan source = .ok ts)
    {t : Token} (ht : t ∈ ts) (hkind : Lexicon.IsWordKind t.kind) : Lexicon.IsWord t.lexeme := by
  rcases exists_tokenised_of_word h ht hkind with ⟨body, hbody, _, htbody⟩
  exact ((hbody.isLexeme t htbody).word_of_kind hkind).1

/-- Every name that the outermost level binds is of the sort. -/
structure Session.Names (P : Text → Prop) (s : Session) : Prop where
  opened : 0 < s.store.levels.size
  bound : ∀ name v, Text.Dict.find? name (s.store.bindings Store.globals) = some v → P name

/-- The outcome leaves the outermost level with names of the sort. -/
def Outcome.Names {ε α : Type} (P : Text → Prop) (o : Outcome ε α) : Prop :=
  ∀ t, o.session? = some t → t.Names P

section

variable {P : Text → Prop} {s t : Session}

namespace Session.Names

theorem same (h : s.Names P) (hstore : t.store = s.store) : t.Names P :=
  ⟨hstore ▸ h.opened, hstore ▸ h.bound⟩

theorem bind (h : s.Names P) {level : LevelId} {name : Text} (v : Value)
    (hname : level = Store.globals → P name) : (s.bind level name v).Names P := by
  refine ⟨by rw [Session.bind, Store.set, Store.size_update]; exact h.opened, ?_⟩
  intro name' w hw
  rw [Session.bind, Store.set, Store.bindings_update] at hw
  split at hw
  · rename_i hglobals
    rw [Text.Dict.find?_insert] at hw
    split at hw
    · rename_i heq
      exact heq ▸ hname hglobals.1
    · exact h.bound name' w hw
  · exact h.bound name' w hw

theorem remove (h : s.Names P) {level : LevelId} {name : Text} {store : Store}
    (hremove : s.store.remove level name = some store) :
    { s with store := store }.Names P := by
  rcases Store.exists_of_remove hremove with ⟨l, rfl⟩
  refine ⟨by rw [Store.size_update]; exact h.opened, ?_⟩
  intro name' w hw
  dsimp only at hw
  rw [Store.bindings_update] at hw
  split at hw
  · rw [Text.Dict.find?_erase] at hw
    split at hw
    · cases hw
    · exact h.bound name' w hw
  · exact h.bound name' w hw

end Session.Names

/-- What is carried out inside the outermost level binds no name there. -/
def Keeping.naming (P : Text → Prop) : Keeping :=
  .ofInert (fun id => id ≠ Store.globals) (Session.Names P) True
    (fun _ v hs hl => hs.bind v fun heq => absurd heq hl)
    (fun _ hs hremove => hs.remove hremove)
    (fun home hs => by
      refine ⟨Nat.ne_of_gt hs.opened, ?_, ?_⟩
      · rw [Store.size_openLevel]
        exact Nat.succ_pos _
      · intro name v hv
        rw [Store.bindings_openLevel] at hv
        exact hs.bound name v hv)
    (fun hs hstore _ => hs.same hstore)

theorem names_andThen {ε α β : Type} {o : Outcome ε α} {f : α → Session → Outcome ε β}
    (h : o.Names P) (hf : ∀ a t, o = .ok a t → t.Names P → (f a t).Names P) :
    (o.andThen f).Names P := by
  cases o with
  | ok a t => exact hf a t rfl (h t rfl)
  | fault e t => exact h
  | starved => exact h

theorem names_ok {ε α : Type} {a : α} (h : s.Names P) : (Outcome.ok a s : Outcome ε α).Names P := by
  rintro _ ⟨⟩
  exact h

theorem names_raise {α : Type} (h : s.Names P) (e : RuntimeFault) :
    (s.raise e : Outcome RuntimeFault α).Names P := by
  rintro _ ⟨⟩
  exact h

theorem names_starved {ε α : Type} : (Outcome.starved : Outcome ε α).Names P := nofun

theorem names_deleteAll (targets : List Token) (h : s.Names P) :
    (deleteAll Store.globals targets s).Names P := by
  induction targets generalizing s with
  | nil => exact names_ok h
  | cons target targets ih =>
      rw [deleteAll, Store.delete]
      cases hremove : s.store.remove Store.globals target.lexeme with
      | none => exact names_raise h _
      | some store => exact ih (h.remove hremove)

/-- An inert native function leaves the store alone. -/
theorem names_callNative {script : Script} {held : List Value}
    (hscript : script.Inert) (hheld : ∀ v ∈ held, v.Inert)
    (hs : s.store.Holds Value.Inert) (h : s.Names P) (n : Nat) :
    (callNative n script held s).Names P := by
  have haside := callNative_aside (n := n) hscript hheld hs
  intro t ht
  generalize callNative n script held s = o at haside ht
  cases o with
  | ok v u => exact Option.some.inj ht ▸ h.same haside.2.store
  | fault e u => exact Option.some.inj ht ▸ h.same haside.2.store
  | starved => cases ht

/-- A call binds nothing at the outermost level. -/
theorem names_apply {f : Value} {args : List Value} (hf : f.Inert) (hargs : ∀ v ∈ args, v.Inert)
    (hs : s.store.Holds Value.Inert) (h : s.Names P) (n : Nat) (paren : Token) :
    (apply n f args paren s).Names P := by
  cases n with
  | zero =>
      simp only [apply]
      exact names_starved
  | succ n =>
      cases f with
      | function f =>
          simp only [apply]
          split
          · intro t ht
            have hends : (Keeping.naming P).Ends (callFunction n f args paren s) :=
              Keeping.callFunction (Or.inl trivial) hf hargs ⟨h, hs⟩
            exact (hends.kept ht).session
          · exact names_raise h _
      | native f =>
          simp only [apply]
          split
          · have hcall := names_callNative (hf f rfl (args.map Value.shown)) hargs hs h n
            generalize callNative n _ args s = o at hcall ⊢
            cases o with
            | ok v t => exact hcall
            | starved => exact names_starved
            | fault e t => cases e <;> exact names_raise (hcall t rfl) _
          · exact names_raise h _
      | _ =>
          simp only [apply]
          exact names_raise h _

theorem inert_of_eval {n : Nat} {e : Expr} {here : LevelId} {v : Value}
    (hs : s.store.Holds Value.Inert) (h : eval n e here s = .ok v t) :
    v.Inert ∧ t.store.Holds Value.Inert := by
  rcases Keeping.inert.eval_ok trivial trivial ⟨trivial, hs⟩ h with ⟨hv, ht, _⟩
  exact ⟨hv, ht.values⟩

theorem inert_of_evalAll {n : Nat} {es : List Expr} {here : LevelId} {vs : List Value}
    (hs : s.store.Holds Value.Inert) (h : evalAll n es here s = .ok vs t) :
    (∀ v ∈ vs, v.Inert) ∧ t.store.Holds Value.Inert := by
  rcases Keeping.inert.evalAll_ok trivial trivial ⟨trivial, hs⟩ h with ⟨hvs, ht, _⟩
  exact ⟨hvs, ht.values⟩

theorem inert_of_exec {n : Nat} {st : Stmt} {here : LevelId} {signal : Signal}
    (hs : s.store.Holds Value.Inert) (h : exec n st here s = .ok signal t) :
    t.store.Holds Value.Inert := by
  have hst : Keeping.inert.stmt (innermost s.calls) true st := trivial
  exact (Keeping.inert.exec_ok trivial trivial ⟨trivial, hs⟩ hst h).1.values

theorem inert_of_execAll {n : Nat} {b : List Stmt} {here : LevelId} {signal : Signal}
    (hs : s.store.Holds Value.Inert) (h : execAll n b here s = .ok signal t) :
    t.store.Holds Value.Inert := by
  have hb : Keeping.inert.body (innermost s.calls) true b := trivial
  exact (Keeping.inert.execAll_ok trivial trivial ⟨trivial, hs⟩ hb h).1.values

/-- The names are of the sort. -/
def Bounds (P : Text → Prop) (names : List Token) : Prop := ∀ name ∈ names, P name.lexeme

theorem Bounds.append {xs ys : List Token} (h : Bounds P (xs ++ ys)) :
    Bounds P xs ∧ Bounds P ys := List.forall_mem_append.mp h

theorem Bounds.cons {x : Token} {xs : List Token} (h : Bounds P (x :: xs)) :
    P x.lexeme ∧ Bounds P xs := List.forall_mem_cons.mp h

/-- With this counter, code that is carried out at the outermost level and whose names
    are of the sort leaves names of the sort there. -/
structure NamesKept (P : Text → Prop) (n : Nat) : Prop where
  eval : ∀ {e s}, Bounds P e.bound → s.store.Holds Value.Inert → s.Names P →
    (eval n e Store.globals s).Names P
  evalAll : ∀ {es s}, Bounds P (Expr.boundAll es) → s.store.Holds Value.Inert → s.Names P →
    (evalAll n es Store.globals s).Names P
  exec : ∀ {st s}, Bounds P st.bound → s.store.Holds Value.Inert → s.Names P →
    (exec n st Store.globals s).Names P
  execAll : ∀ {b s}, Bounds P (Stmt.boundAll b) → s.store.Holds Value.Inert → s.Names P →
    (execAll n b Store.globals s).Names P
  execLoop : ∀ {e b s}, Bounds P e.bound → Bounds P (Stmt.boundAll b) →
    s.store.Holds Value.Inert → s.Names P → (execLoop n e b Store.globals s).Names P

variable {n : Nat}

theorem names_eval (ih : NamesKept P n) {e : Expr} (he : Bounds P e.bound)
    (hs : s.store.Holds Value.Inert) (h : s.Names P) :
    (eval (n + 1) e Store.globals s).Names P := by
  cases e with
  | constant v p =>
      simp only [eval]
      exact names_ok h
  | grouping inner p =>
      simp only [eval]
      exact ih.eval he hs h
  | reference name =>
      simp only [eval]
      split
      · exact names_ok h
      · exact names_raise h _
  | assign name value =>
      simp only [eval]
      exact names_andThen (ih.eval he.cons.2 hs h) fun v t _ ht =>
        names_ok (ht.bind v fun _ => he.cons.1)
  | augmented name operator value =>
      simp only [eval]
      split
      · exact names_raise h _
      · refine names_andThen (ih.eval he.cons.2 hs h) fun v t _ ht => ?_
        split
        · exact names_ok (ht.bind _ fun _ => he.cons.1)
        · exact names_raise ht _
  | step operator name =>
      simp only [eval]
      split
      · exact names_raise h _
      · split
        · exact names_ok (h.bind _ fun _ => he.cons.1)
        · exact names_raise h _
  | unary operator operand =>
      simp only [eval]
      refine names_andThen (ih.eval he hs h) fun v t _ ht => ?_
      split
      · exact names_ok ht
      · exact names_raise ht _
  | binary left operator right =>
      simp only [eval]
      refine names_andThen (ih.eval he.append.1 hs h) fun a t hleft ht => ?_
      refine names_andThen (ih.eval he.append.2 (inert_of_eval hs hleft).2 ht) fun b u _ hu => ?_
      split
      · exact names_ok hu
      · exact names_raise hu _
  | logical left operator right =>
      simp only [eval]
      refine names_andThen (ih.eval he.append.1 hs h) fun a t hleft ht => ?_
      split
      · exact names_ok ht
      · exact ih.eval he.append.2 (inert_of_eval hs hleft).2 ht
  | call callee paren args =>
      simp only [eval]
      refine names_andThen (ih.eval he.append.1 hs h) fun f t hcallee ht => ?_
      rcases inert_of_eval hs hcallee with ⟨hf, hst⟩
      refine names_andThen (ih.evalAll he.append.2 hst ht) fun vs u hargs hu => ?_
      rcases inert_of_evalAll hst hargs with ⟨hvs, hsu⟩
      -- The names of the body count for nothing, as they are bound on a level of the call.
      exact names_apply hf hvs hsu hu n paren

theorem names_evalAll (ih : NamesKept P n) {es : List Expr} (hes : Bounds P (Expr.boundAll es))
    (hs : s.store.Holds Value.Inert) (h : s.Names P) :
    (evalAll (n + 1) es Store.globals s).Names P := by
  cases es with
  | nil =>
      simp only [evalAll]
      exact names_ok h
  | cons e es =>
      simp only [evalAll]
      refine names_andThen (ih.eval hes.append.1 hs h) fun v t he ht => ?_
      exact names_andThen (ih.evalAll hes.append.2 (inert_of_eval hs he).2 ht)
        fun vs u _ hu => names_ok hu

theorem names_exec (ih : NamesKept P n) {st : Stmt} (hst : Bounds P st.bound)
    (hs : s.store.Holds Value.Inert) (h : s.Names P) :
    (exec (n + 1) st Store.globals s).Names P := by
  cases st with
  | function name params body =>
      simp only [exec]
      have hstamped : s.stamp.2.Names P := h.same rfl
      exact names_ok (hstamped.bind _ fun _ => hst.cons.1)
  | giveBack keyword value =>
      cases value with
      | none =>
          simp only [exec]
          exact names_ok h
      | some value =>
          simp only [exec]
          exact names_andThen (ih.eval hst hs h) fun v t _ ht => names_ok ht
  | delete keyword targets =>
      simp only [exec]
      exact names_deleteAll targets h
  | loop keyword condition body =>
      simp only [exec]
      exact ih.execLoop hst.append.1 hst.append.2 hs h
  | branch keyword condition consequent alternate =>
      simp only [exec]
      refine names_andThen (ih.eval hst.append.1 hs h) fun v t hcondition ht => ?_
      have hst' := (inert_of_eval hs hcondition).2
      split
      · exact ih.execAll hst.append.2.append.1 hst' ht
      · cases alternate with
        | none => exact names_ok ht
        | some body => exact ih.execAll hst.append.2.append.2 hst' ht
  | expression value =>
      simp only [exec]
      exact names_andThen (ih.eval hst hs h) fun v t _ ht => names_ok ht
  | echo keyword value =>
      simp only [exec]
      refine names_andThen (ih.eval hst hs h) fun v t _ ht => names_ok (ht.same ?_)
      rw [Session.echo]
      split <;> rfl
  | leave keyword =>
      simp only [exec]
      exact names_ok h
  | next keyword =>
      simp only [exec]
      exact names_ok h

theorem names_execAll (ih : NamesKept P n) {b : List Stmt} (hb : Bounds P (Stmt.boundAll b))
    (hs : s.store.Holds Value.Inert) (h : s.Names P) :
    (execAll (n + 1) b Store.globals s).Names P := by
  cases b with
  | nil =>
      simp only [execAll]
      exact names_ok h
  | cons st rest =>
      simp only [execAll]
      refine names_andThen (ih.exec hb.append.1 hs h) fun signal t hexec ht => ?_
      cases signal with
      | normal => exact ih.execAll hb.append.2 (inert_of_exec hs hexec) ht
      | _ => exact names_ok ht

theorem names_execLoop (ih : NamesKept P n) {e : Expr} {b : List Stmt} (he : Bounds P e.bound)
    (hb : Bounds P (Stmt.boundAll b)) (hs : s.store.Holds Value.Inert) (h : s.Names P) :
    (execLoop (n + 1) e b Store.globals s).Names P := by
  simp only [execLoop]
  refine names_andThen (ih.eval he hs h) fun v t hcondition ht => ?_
  have hst := (inert_of_eval hs hcondition).2
  split
  · refine names_andThen (ih.execAll hb hst ht) fun signal u hbody hu => ?_
    have hsu := inert_of_execAll hst hbody
    cases signal with
    | normal => exact ih.execLoop he hb hsu hu
    | next k => exact ih.execLoop he hb hsu hu
    | leave k => exact names_ok hu
    | giveBack v k => exact names_ok hu
  · exact names_ok ht

theorem namesKept (P : Text → Prop) (n : Nat) : NamesKept P n := by
  induction n with
  | zero =>
      constructor
      all_goals
        intros
        simp only [eval, evalAll, exec, execAll, execLoop]
        exact names_starved
  | succ n ih =>
      exact
        { eval := names_eval ih
          evalAll := names_evalAll ih
          exec := names_exec ih
          execAll := names_execAll ih
          execLoop := names_execLoop ih }

/-- Programs bind the names that they write. -/
theorem names_interpret {p : List Stmt} (hp : Bounds P (Stmt.boundAll p))
    (hs : s.store.Holds Value.Inert) (h : s.Names P) (n : Nat) : (interpret n p s).Names P := by
  cases n with
  | zero =>
      simp only [interpret]
      exact names_starved
  | succ n =>
      simp only [interpret]
      refine names_andThen ((namesKept P n).execAll hp hs (h.same rfl)) fun signal t _ ht => ?_
      cases signal with
      | leave k => exact names_raise ht _
      | next k => exact names_raise ht _
      | _ => exact names_ok ht

end

namespace Session

/-- The outermost level binds words only, and nothing is bound anywhere that could
    bind another name there. -/
structure Worded (s : Session) : Prop where
  inert : s.store.Holds Value.Inert
  names : s.Names Lexicon.IsWord

theorem Worded.same {s t : Session} (h : s.Worded) (hstore : t.store = s.store) : t.Worded :=
  ⟨hstore ▸ h.inert, h.names.same hstore⟩

theorem worded_fresh (clock : Clock) (muted logging : Bool) :
    (fresh clock muted logging).Worded := by
  refine ⟨holds_fresh clock muted logging (Value.inert_native Native.inert_clock),
    Nat.zero_lt_one, ?_⟩
  intro name v hv
  have hone : (fresh clock muted logging).store.bindings Store.globals =
      [((utf8 "clock" : Text), Value.native ⟨"clock", 0, .clock, 0⟩)] := rfl
  rw [hone, Text.Dict.find?_cons] at hv
  split at hv
  · rename_i hname
    rw [hname]
    exact Lexicon.isWord_of_spellsWord (by decide +kernel)
  · cases hv

/-- Running a source binds words only at the outermost level. -/
theorem Worded.runSource {s t : Session} (h : s.Worded) {n : Nat} {source : Text}
    (ht : (runSource n source s).session? = some t) : t.Worded := by
  refine ⟨holds_inert_of_runSource h.inert ht, ?_⟩
  cases n with
  | zero =>
      simp only [PocketScript.runSource] at ht
      cases ht
  | succ n =>
      cases hscan : Token.scan source with
      | error e =>
          simp only [PocketScript.runSource, hscan] at ht
          exact h.names.same (Option.some.inj ht ▸ rfl)
      | ok ts =>
          have hkept := (store_keepRemarks (parse ts).remarks s.begin).1
          cases hparse : (parse ts).outcome with
          | error e =>
              simp only [PocketScript.runSource, hscan, hparse] at ht
              exact h.names.same (Option.some.inj ht ▸ hkept)
          | ok p =>
              have hbounds : Bounds Lexicon.IsWord (Stmt.boundAll p) := by
                intro name hname
                have hderives := (parse_eq_ok_iff ts p).mp hparse
                rcases hderives.bound_mem name hname with ⟨hmem, hkind⟩
                exact Lexicon.isWord_of_scan hscan
                  ((List.takeWhile_prefix _).subset hmem) (Or.inl hkind)
              simp only [PocketScript.runSource, hscan, hparse] at ht
              have hstart := (store_note (.parsed ts.length p.length)
                (s.begin.keepRemarks (parse ts).remarks)).trans hkept
              have hrun := names_interpret hbounds (hstart ▸ h.inert) (h.names.same hstart) n
              generalize interpret n p _ = o at hrun ht
              cases o with
              | starved => cases ht
              | ok a u =>
                  exact (hrun u rfl).same (Option.some.inj ht ▸ (store_conclude true u).1)
              | fault e u =>
                  exact (hrun u rfl).same (Option.some.inj ht ▸ (store_conclude false u).1)

end Session

end PocketScript
