import PocketScript.Proofs.Parser.Completeness
import PocketScript.Proofs.Parser.Exact

/-!
# More tokens do not mend a fault

A fault that was found before the end of the input stays, whatever follows.

The parser looks at one token at a time, and what it has decided on the way to
a token cannot depend on those behind it. So the same tokens with others after
them are read in the same way, up to where the first reading ran into the end
of the input. `Firm` says this of two readings. There are three ways for it to
say nothing: the first reading took all of its tokens, so that more of them
might go on with it; its fault is about the end of the input; or its counter
was used up. Each of these is passed on by whatever is read next, because at
the end of the input there is nothing but its end to find fault with.

One fault is not like this. The operand of an increment in front is read as
far as it goes before it is found to be no name, and the fault is reported at
the increment, behind which the reading has gone on. More tokens can go on with
the operand and come upon another fault first. What they cannot do is make a
name of it (`called_gives_reference`), so the reading stays hopeless.

## Main definitions

* `Reading.Hopeless`: A reading that gives nothing.
* `GrammarFault.IsStepBefore`: The fault of an increment in front of what is no
  name.
* `Reading.Firm`: What becomes of a reading when more tokens follow.
* `FirmExpressions`, `FirmStatements`: All readers are firm, with a counter.

## Theorems

* `Reading.Firm.andThen`: Readings in a row are firm if their parts are.
* `firmExpressions`, `firmStatements`, `program_firm`: Every reader is firm.
* `fault_before_end_is_final`: A fault before the end is final.
-/

namespace PocketScript

open Grammar Reading

/-- The fault of an increment in front of something that is no name. -/
def GrammarFault.IsStepBefore (e : GrammarFault) : Prop :=
  e.cause = .invalidTarget ∧ e.detail = "Invalid target in prefix operation"

namespace Reading

variable {α β : Type} {stop : Token} {ts us : List Token}

/-- A reading that gives no form. -/
def Hopeless (r : Reading α) : Prop := ∀ a rest, ¬ r.Gives a rest

theorem Hopeless.noting {r : Reading α} (h : r.Hopeless) (remarks : List GrammarFault) :
    (noting remarks r).Hopeless :=
  fun a rest hg => h a rest ((noting_gives _ _ _ _).mp hg)

theorem Hopeless.andThen {r : Reading α} (h : r.Hopeless) (f : α → List Token → Reading β) :
    (r.andThen f).Hopeless := by
  intro b rest hg
  rcases (andThen_gives _ _ _ _).mp hg with ⟨a, mid, ha, _⟩
  exact h a mid ha

/-- What becomes of a reading of `ts`, with `stop` at the end of the input, when
    `us` follow. -/
inductive Firm (stop : Token) (ts us : List Token) : Reading α → Reading α → Prop where
  | taken {a : α} {remarks : List GrammarFault} {r : Reading α} :
      Firm stop ts us (done a [] remarks) r
  | done {a : α} {t : Token} {rest : List Token} {remarks : List GrammarFault} :
      t :: rest <:+ ts →
      Firm stop ts us (done a (t :: rest) remarks) (done a (t :: rest ++ us) remarks)
  | failed {e : GrammarFault} {remarks : List GrammarFault} : e.found ∈ ts →
      Firm stop ts us (failed e remarks) (failed e remarks)
  | hopeless {e : GrammarFault} {remarks : List GrammarFault} {r : Reading α} :
      e.found ∈ ts → e.IsStepBefore → r.Hopeless → Firm stop ts us (failed e remarks) r
  | atEnd {e : GrammarFault} {remarks : List GrammarFault} {r : Reading α} :
      e.found = stop → Firm stop ts us (failed e remarks) r
  | starved {r : Reading α} : Firm stop ts us starved r

theorem firm_done {a : α} {rest : List Token} {remarks : List GrammarFault} (h : rest <:+ ts) :
    Firm stop ts us (done a rest remarks) (done a (rest ++ us) remarks) := by
  cases rest with
  | nil => exact .taken
  | cons t rest => exact .done h

namespace Firm

/-- At the end of the input nothing is known of what more tokens bring. -/
theorem ofNil {r r' : Reading α} (h : Firm stop [] us r r') (r'' : Reading α) :
    Firm stop ts us r r'' := by
  cases h with
  | taken => exact .taken
  | done hrest => exact absurd (List.suffix_nil.mp hrest) (List.cons_ne_nil _ _)
  | failed hmem => exact absurd hmem List.not_mem_nil
  | hopeless hmem _ _ => exact absurd hmem List.not_mem_nil
  | atEnd hstop => exact .atEnd hstop
  | starved => exact .starved

theorem mono {ts' : List Token} {r r' : Reading α} (h : Firm stop ts us r r')
    (hts : ts <:+ ts') : Firm stop ts' us r r' := by
  cases h with
  | taken => exact .taken
  | done hrest => exact .done (hrest.trans hts)
  | failed hmem => exact .failed (hts.subset hmem)
  | hopeless hmem he hr => exact .hopeless (hts.subset hmem) he hr
  | atEnd hstop => exact .atEnd hstop
  | starved => exact .starved

theorem noting {r r' : Reading α} (h : Firm stop ts us r r') (remarks : List GrammarFault) :
    Firm stop ts us (Reading.noting remarks r) (Reading.noting remarks r') := by
  cases h with
  | taken => exact .taken
  | done hrest => exact .done hrest
  | failed hmem => exact .failed hmem
  | hopeless hmem he hr => exact .hopeless hmem he (hr.noting remarks)
  | atEnd hstop => exact .atEnd hstop
  | starved => exact .starved

/-- A remark on the next token. With no token left it is on another one than it
    would be with more, but then the reading fails at the end. -/
theorem notingNext {r r' : Reading α} (h : Firm stop ts us r r')
    {remarks remarks' : List GrammarFault} (hnext : ts ≠ [] → remarks = remarks') :
    Firm stop ts us (Reading.noting remarks r) (Reading.noting remarks' r') := by
  cases ts with
  | nil => exact (h.noting remarks).ofNil _
  | cons t rest =>
      rw [← hnext (List.cons_ne_nil t rest)]
      exact h.noting remarks

/-- Readings in a row. If the first took all of its tokens, the second starts at
    the end of the input. -/
theorem andThen {r r' : Reading α} {f f' : α → List Token → Reading β}
    (h : Firm stop ts us r r')
    (hf : ∀ a rest, rest <:+ ts → Firm stop rest us (f a rest) (f' a (rest ++ us))) :
    Firm stop ts us (r.andThen f) (r'.andThen f') := by
  cases h with
  | @taken a remarks r' =>
      have hend := (hf a [] (List.nil_suffix)).noting remarks
      exact hend.ofNil _
  | @done a t rest remarks hrest => exact ((hf a (t :: rest) hrest).noting remarks).mono hrest
  | failed hmem => exact .failed hmem
  | hopeless hmem he hr => exact .hopeless hmem he (hr.andThen f')
  | atEnd hstop => exact .atEnd hstop
  | starved => exact .starved

theorem map {r r' : Reading α} (h : Firm stop ts us r r') (g : α → β) :
    Firm stop ts us (r.map g) (r'.map g) :=
  h.andThen fun _ _ _ => firm_done (List.suffix_refl _)

end Firm

theorem expect_firm (stop stop' : Token) (us : List Token) (k : Kind) (detail : Text)
    (ts : List Token) :
    Firm stop ts us (expect stop k detail ts) (expect stop' k detail (ts ++ us)) := by
  cases ts with
  | nil => exact .atEnd rfl
  | cons t rest =>
      rw [List.cons_append, expect, expect]
      split
      · exact firm_done (List.suffix_cons t rest)
      · exact .failed List.mem_cons_self

theorem names_firm (stop stop' : Token) (us : List Token) (detail : Text)
    (remarks : Nat → Token → List GrammarFault) (count : Nat) (ts : List Token) :
    Firm stop ts us (names stop detail remarks count ts)
      (names stop' detail remarks count (ts ++ us)) := by
  fun_induction names stop detail remarks count ts with
  | case1 count => exact .atEnd rfl
  | case2 count t ht c rest hc ih =>
      rw [List.cons_append, List.cons_append, names, if_pos ht]
      simp only [if_pos hc]
      exact ((ih.map _).noting _).mono ((List.suffix_cons c rest).trans (List.suffix_cons t _))
  | case3 count t ht c rest hc =>
      rw [List.cons_append, List.cons_append, names, if_pos ht]
      simp only [if_neg hc]
      exact .done (List.suffix_cons t _)
  | case4 count t ht => exact .taken
  | case5 count t rest ht =>
      rw [List.cons_append, names.eq_def]
      simp only [if_neg ht]
      exact .failed List.mem_cons_self

theorem nextIs_append (k : Kind) (t : Token) (ts us : List Token) :
    nextIs k (t :: ts ++ us) = nextIs k (t :: ts) := rfl

end Reading

/-- Argument lists make calls, so what reads as a bare name has none. -/
theorem calls_gives_reference {stop : Token} {name : Token} {rest : List Token} {n : Nat} :
    ∀ {e : Expr} {ts : List Token}, (calls stop n e ts).Gives (.reference name) rest →
      e = .reference name ∧ ts = rest ∧ Clear [.leftParen] ts := by
  induction n with
  | zero => intro e ts hg; exact absurd hg (starved_gives _ _)
  | succ n ih =>
      intro e ts hg
      cases ts with
      | nil =>
          rcases (done_gives _ _ _ _ _).mp hg with ⟨he, hrest⟩
          exact ⟨he, hrest, clear_nil _⟩
      | cons t ts =>
          rw [calls] at hg
          by_cases ht : t.kind = .leftParen
          · rw [if_pos ht] at hg
            rcases (andThen_gives _ _ _ _).mp hg with ⟨args, mid, _, hclose⟩
            rcases (andThen_gives _ _ _ _).mp hclose with ⟨paren, mid', _, hcalls⟩
            exact absurd (ih hcalls).1 (by simp)
          · rw [if_neg ht] at hg
            rcases (done_gives _ _ _ _ _).mp hg with ⟨he, hrest⟩
            exact ⟨he, hrest, clear_cons (by simpa using ht)⟩

/-- What reads as a bare name is an identifier that nothing goes on with. -/
theorem called_gives_reference {stop : Token} {n : Nat} {name : Token} {ts rest : List Token}
    (hg : (called stop n ts).Gives (.reference name) rest) :
    ts = name :: rest ∧ name.kind = .identifier ∧ Clear callExtenders rest := by
  have hparts := (soundExpressions stop n).called hg
  rcases hparts with ⟨vs, rfl, hd⟩
  rcases hd.reference name rfl with ⟨rfl, hname⟩
  refine ⟨rfl, hname, ?_⟩
  -- The tokens are known. What is left is where the reading stopped.
  cases n with
  | zero => exact absurd hg (starved_gives _ _)
  | succ n =>
      rw [called, andThen_gives] at hg
      rcases hg with ⟨e, mid, hsuffixed, hcalls⟩
      rcases calls_gives_reference hcalls with ⟨rfl, rfl, hparen⟩
      cases n with
      | zero => exact absurd hsuffixed (starved_gives _ _)
      | succ n =>
          rw [suffixed, andThen_gives] at hsuffixed
          rcases hsuffixed with ⟨v, mid', _, hstep⟩
          cases mid' with
          | nil =>
              rcases (done_gives _ _ _ _ _).mp hstep with ⟨_, hrest⟩
              rw [← hrest]
              exact clear_nil _
          | cons op mid' =>
              simp only at hstep
              by_cases hop : op.kind ∈ steps
              · rw [if_pos hop] at hstep
                cases v with
                | reference other =>
                    rcases (done_gives _ _ _ _ _).mp hstep with ⟨hstepped, _⟩
                    exact absurd hstepped (by simp)
                | _ => exact absurd hstep (failed_gives _ _ _ _)
              · rw [if_neg hop] at hstep
                rcases (done_gives _ _ _ _ _).mp hstep with ⟨_, hrest⟩
                subst hrest
                refine clear_cons fun hmem => ?_
                rcases List.mem_cons.mp hmem with hleft | hsteps
                · exact hparen.head (List.mem_singleton.mpr hleft)
                · exact hop hsteps

/-- And such an identifier is read as a bare name. -/
theorem called_name_within (stop : Token) (n : Nat) {name : Token} {rest : List Token}
    (hname : name.kind = .identifier) (hclear : Clear callExtenders rest) :
    Within (called stop n (name :: rest)) (done (.reference name) rest []) := by
  have hk : name.kind ∉ constants := by rw [hname]; decide
  match n with
  | 0 => exact Or.inl rfl
  | 1 => exact Or.inl rfl
  | 2 => exact Or.inl rfl
  | n + 3 =>
      refine Or.inr ?_
      rw [called, suffixed, primary, if_neg hk, if_pos hname]
      cases rest with
      | nil => rfl
      | cons t rest =>
          have hsteps : t.kind ∉ steps := fun hm => hclear.head (List.mem_cons_of_mem _ hm)
          have hparen : t.kind ≠ .leftParen := fun hm => hclear.head (by rw [hm]; decide)
          simp only [Reading.andThen, if_neg hsteps, Reading.noting, List.append_nil, calls,
            if_neg hparen]

/-- With this counter, what is read as an expression is firm. -/
structure FirmExpressions (stop stop' : Token) (us : List Token) (n : Nat) : Prop where
  expression : ∀ ts, Firm stop ts us (expression stop n ts) (expression stop' n (ts ++ us))
  chain : ∀ r ts, Firm stop ts us (chain stop n r ts) (chain stop' n r (ts ++ us))
  links : ∀ r e ts, Firm stop ts us (links stop n r e ts) (links stop' n r e (ts ++ us))
  operand : ∀ r ts, Firm stop ts us (operand stop n r ts) (operand stop' n r (ts ++ us))
  signed : ∀ ts, Firm stop ts us (signed stop n ts) (signed stop' n (ts ++ us))
  stepped : ∀ ts, Firm stop ts us (stepped stop n ts) (stepped stop' n (ts ++ us))
  called : ∀ ts, Firm stop ts us (called stop n ts) (called stop' n (ts ++ us))
  calls : ∀ e ts, Firm stop ts us (calls stop n e ts) (calls stop' n e (ts ++ us))
  arguments : ∀ c ts, Firm stop ts us (arguments stop n c ts) (arguments stop' n c (ts ++ us))
  suffixed : ∀ ts, Firm stop ts us (suffixed stop n ts) (suffixed stop' n (ts ++ us))
  primary : ∀ ts, Firm stop ts us (primary stop n ts) (primary stop' n (ts ++ us))

section FirmExpressions

variable {stop stop' : Token} {us : List Token} {n : Nat}

theorem expression_firm (h : FirmExpressions stop stop' us n) (ts : List Token) :
    Firm stop ts us (expression stop (n + 1) ts) (expression stop' (n + 1) (ts ++ us)) := by
  rw [expression, expression]
  refine (h.chain .either ts).andThen fun left rest _ => ?_
  cases rest with
  | nil => exact .taken
  | cons op rest =>
      have hrest := List.suffix_cons op rest
      simp only [List.cons_append]
      split
      · cases left with
        | reference name => exact ((h.expression rest).map _).mono hrest
        | _ => exact .failed List.mem_cons_self
      · split
        · cases left with
          | reference name => exact ((h.expression rest).map _).mono hrest
          | _ => exact .failed List.mem_cons_self
        · exact .done (List.suffix_refl _)

theorem links_firm (h : FirmExpressions stop stop' us n) (r : Rung) (e : Expr) (ts : List Token) :
    Firm stop ts us (links stop (n + 1) r e ts) (links stop' (n + 1) r e (ts ++ us)) := by
  cases ts with
  | nil => exact .taken
  | cons op rest =>
      rw [List.cons_append, links, links]
      split
      · exact ((h.operand r rest).andThen fun right rest' _ =>
          h.links r (r.combine e op right) rest').mono (List.suffix_cons op rest)
      · exact .done (List.suffix_refl _)

theorem operand_firm (h : FirmExpressions stop stop' us n) (r : Rung) (ts : List Token) :
    Firm stop ts us (operand stop (n + 1) r ts) (operand stop' (n + 1) r (ts ++ us)) := by
  rw [operand, operand]
  cases r.above with
  | some next => exact h.chain next ts
  | none => exact h.signed ts

theorem signed_firm (h : FirmExpressions stop stop' us n) (ts : List Token) :
    Firm stop ts us (signed stop (n + 1) ts) (signed stop' (n + 1) (ts ++ us)) := by
  cases ts with
  | nil => exact (h.stepped []).ofNil _
  | cons op rest =>
      rw [List.cons_append, signed, signed]
      split
      · exact ((h.signed rest).map _).mono (List.suffix_cons op rest)
      · exact h.stepped (op :: rest)

/-- If all tokens were taken for an operand that is no name, more tokens do not
    make a name of it. -/
theorem called_hopeless {rest : List Token} {e : Expr} {remarks : List GrammarFault}
    (hcalled : called stop n rest = done e [] remarks) (he : ∀ name, e ≠ .reference name)
    (name : Token) (more : List Token) :
    ¬ (called stop' n (rest ++ us)).Gives (.reference name) more := by
  intro hg
  rcases called_gives_reference hg with ⟨hts, hname, hclear⟩
  have hlen := ((soundExpressions stop n).called ⟨remarks, hcalled⟩).length_lt rfl
  cases rest with
  | nil => exact absurd hlen (Nat.lt_irrefl 0)
  | cons first tail =>
      rw [List.cons_append] at hts
      rcases List.cons.inj hts with ⟨rfl, rfl⟩
      have htail : Clear callExtenders tail := by
        intro t tail' ht
        exact hclear t (tail' ++ us) (by rw [ht, List.cons_append])
      rcases called_name_within stop n hname htail with hstarved | hdone
      · rw [hstarved] at hcalled
        cases hcalled
      · rw [hdone] at hcalled
        exact he first (Reading.done.inj hcalled).1.symm

/-- The increment in front, which is where a fault can look past the token it is
    about. -/
theorem stepped_firm (h : FirmExpressions stop stop' us n) (ts : List Token) :
    Firm stop ts us (stepped stop (n + 1) ts) (stepped stop' (n + 1) (ts ++ us)) := by
  cases ts with
  | nil => exact (h.called []).ofNil _
  | cons op rest =>
      rw [List.cons_append, stepped, stepped]
      split
      · have hcalled := h.called rest
        generalize hr : called stop n rest = r at hcalled ⊢
        generalize hr' : called stop' n (rest ++ us) = r' at hcalled ⊢
        cases hcalled with
        | @taken e remarks =>
            cases e with
            | reference name => exact .taken
            | _ =>
                refine .hopeless List.mem_cons_self ⟨rfl, rfl⟩ ?_
                intro x more hg
                rcases (andThen_gives _ _ _ _).mp hg with ⟨v, mid, hv, hstep⟩
                cases v with
                | reference name =>
                    rw [← hr'] at hv
                    exact called_hopeless hr (by simp) name mid hv
                | _ => exact absurd hstep (failed_gives _ _ _ _)
        | @done e t rest' remarks hrest =>
            cases e with
            | reference name => exact .done (hrest.trans (List.suffix_cons op rest))
            | _ => exact .failed List.mem_cons_self
        | failed hmem => exact .failed (List.mem_cons_of_mem _ hmem)
        | hopeless hmem he hhopeless =>
            exact .hopeless (List.mem_cons_of_mem _ hmem) he (hhopeless.andThen _)
        | atEnd hstop => exact .atEnd hstop
        | starved => exact .starved
      · exact h.called (op :: rest)

theorem calls_firm (h : FirmExpressions stop stop' us n) (e : Expr) (ts : List Token) :
    Firm stop ts us (calls stop (n + 1) e ts) (calls stop' (n + 1) e (ts ++ us)) := by
  cases ts with
  | nil => exact .taken
  | cons t rest =>
      rw [List.cons_append, calls, calls]
      split
      · refine (Firm.andThen ?_ fun args rest' _ => (expect_firm stop stop' us _ _ rest').andThen
          fun paren rest'' _ => h.calls (.call e paren args) rest'').mono (List.suffix_cons t rest)
        cases rest with
        | nil => exact (h.arguments 0 []).ofNil _
        | cons u rest =>
            rw [nextIs_append]
            split
            · exact .done (List.suffix_refl _)
            · exact h.arguments 0 (u :: rest)
      · exact .done (List.suffix_refl _)

theorem arguments_firm (h : FirmExpressions stop stop' us n) (count : Nat) (ts : List Token) :
    Firm stop ts us (arguments stop (n + 1) count ts)
      (arguments stop' (n + 1) count (ts ++ us)) := by
  rw [arguments, arguments]
  refine ((h.expression ts).andThen fun arg rest _ => ?_).notingNext fun hne => ?_
  · cases rest with
    | nil => exact .taken
    | cons c rest =>
        simp only [List.cons_append]
        split
        · exact ((h.arguments (count + 1) rest).map _).mono (List.suffix_cons c rest)
        · exact .done (List.suffix_refl _)
  · cases ts with
    | nil => exact absurd rfl hne
    | cons t rest => rfl

theorem suffixed_firm (h : FirmExpressions stop stop' us n) (ts : List Token) :
    Firm stop ts us (suffixed stop (n + 1) ts) (suffixed stop' (n + 1) (ts ++ us)) := by
  rw [suffixed, suffixed]
  refine (h.primary ts).andThen fun e rest _ => ?_
  cases rest with
  | nil => exact .taken
  | cons op rest =>
      simp only [List.cons_append]
      split
      · cases e with
        | reference name => exact firm_done (List.suffix_cons op rest)
        | _ => exact .failed List.mem_cons_self
      · exact .done (List.suffix_refl _)

theorem primary_firm (h : FirmExpressions stop stop' us n) (ts : List Token) :
    Firm stop ts us (primary stop (n + 1) ts) (primary stop' (n + 1) (ts ++ us)) := by
  cases ts with
  | nil => exact .atEnd rfl
  | cons t rest =>
      have hrest := List.suffix_cons t rest
      rw [List.cons_append, primary, primary]
      split
      · exact firm_done hrest
      · split
        · exact firm_done hrest
        · split
          · exact ((h.expression rest).andThen fun inner rest' _ =>
              (expect_firm stop stop' us _ _ rest').map _).mono hrest
          · exact .failed List.mem_cons_self

end FirmExpressions

theorem firmExpressions (stop stop' : Token) (us : List Token) (n : Nat) :
    FirmExpressions stop stop' us n := by
  induction n with
  | zero => constructor <;> intros <;> exact .starved
  | succ n ih =>
      exact
        { expression := expression_firm ih
          chain := fun r ts => by
            rw [chain, chain]
            exact (ih.operand r ts).andThen fun left rest _ => ih.links r left rest
          links := links_firm ih
          operand := operand_firm ih
          signed := signed_firm ih
          stepped := stepped_firm ih
          called := fun ts => by
            rw [called, called]
            exact (ih.suffixed ts).andThen fun e rest _ => ih.calls e rest
          calls := calls_firm ih
          arguments := arguments_firm ih
          suffixed := suffixed_firm ih
          primary := primary_firm ih }

section Parts

variable (stop stop' : Token) (us : List Token) (n : Nat)

theorem terminated_firm (detail : Text) (ts : List Token) :
    Firm stop ts us (terminated stop n detail ts) (terminated stop' n detail (ts ++ us)) :=
  ((firmExpressions stop stop' us n).expression ts).andThen fun _ rest _ =>
    (expect_firm stop stop' us _ _ rest).map _

theorem giveBack_firm (keyword : Token) (ts : List Token) :
    Firm stop ts us (giveBack stop n keyword ts) (giveBack stop' n keyword (ts ++ us)) := by
  have hvalue := (terminated_firm stop stop' us n "Expected ';' after return value" ts).map
    fun e => Stmt.giveBack keyword (some e)
  rw [giveBack, giveBack]
  cases ts with
  | nil => exact hvalue.ofNil _
  | cons t rest =>
      rw [nextIs_append]
      split
      · exact (expect_firm stop stop' us _ _ _).map _
      · exact hvalue

theorem delete_firm (keyword : Token) (ts : List Token) :
    Firm stop ts us (delete stop keyword ts) (delete stop' keyword (ts ++ us)) :=
  (names_firm stop stop' us _ _ 0 ts).andThen fun _ rest _ =>
    (expect_firm stop stop' us _ _ rest).map _

theorem parameters_firm (ts : List Token) :
    Firm stop ts us (parameters stop ts) (parameters stop' (ts ++ us)) := by
  rw [parameters, parameters]
  refine Firm.andThen ?_ fun _ rest _ => (expect_firm stop stop' us _ _ rest).map _
  cases ts with
  | nil => exact (names_firm stop stop' us _ _ 0 []).ofNil _
  | cons t rest =>
      rw [nextIs_append]
      split
      · exact .done (List.suffix_refl _)
      · exact names_firm stop stop' us _ _ 0 (t :: rest)

end Parts

/-- With this counter, what is read as statements is firm. -/
structure FirmStatements (stop stop' : Token) (us : List Token) (n : Nat) : Prop where
  statement : ∀ ts, Firm stop ts us (statement stop n ts) (statement stop' n (ts ++ us))
  branch : ∀ t ts, Firm stop ts us (branch stop n t ts) (branch stop' n t (ts ++ us))
  block : ∀ c ts, Firm stop ts us (block stop n c ts) (block stop' n c (ts ++ us))
  statements : ∀ ts, Firm stop ts us (statements stop n ts) (statements stop' n (ts ++ us))

section FirmStatements

variable {stop stop' : Token} {us : List Token} {n : Nat}

theorem statement_firm (h : FirmStatements stop stop' us n) (ts : List Token) :
    Firm stop ts us (statement stop (n + 1) ts) (statement stop' (n + 1) (ts ++ us)) := by
  have hexpr := (firmExpressions stop stop' us n).expression
  have hterm := terminated_firm stop stop' us n
  have hexpect := expect_firm stop stop' us
  cases ts with
  | nil => exact ((hterm _ []).map _).ofNil _
  | cons t rest =>
      have hrest := List.suffix_cons t rest
      rw [List.cons_append, statement, statement]
      split
      · refine ((hexpect _ _ rest).andThen fun name rest _ => ?_).mono hrest
        refine (hexpect _ _ rest).andThen fun _ rest _ => ?_
        exact (parameters_firm stop stop' us rest).andThen fun params rest _ =>
          (h.block _ rest).map _
      · exact (giveBack_firm stop stop' us n t rest).mono hrest
      · exact (delete_firm stop stop' us t rest).mono hrest
      · exact ((hexpr rest).andThen fun condition rest _ => (h.block _ rest).map _).mono hrest
      · exact (h.branch t rest).mono hrest
      · exact ((hterm _ rest).map _).mono hrest
      · exact ((hexpect _ _ rest).map _).mono hrest
      · exact ((hexpect _ _ rest).map _).mono hrest
      · exact (hterm _ (t :: rest)).map _

theorem branch_firm (h : FirmStatements stop stop' us n) (keyword : Token) (ts : List Token) :
    Firm stop ts us (branch stop (n + 1) keyword ts) (branch stop' (n + 1) keyword (ts ++ us)) := by
  rw [branch, branch]
  refine ((firmExpressions stop stop' us n).expression ts).andThen fun condition rest _ => ?_
  refine (h.block _ rest).andThen fun consequent rest _ => ?_
  cases rest with
  | nil => exact .taken
  | cons e rest =>
      have hrest := List.suffix_cons e rest
      simp only [List.cons_append]
      split
      · cases rest with
        | nil => exact ((h.block _ []).map _).ofNil _
        | cons i rest =>
            simp only [List.cons_append]
            split
            · exact ((h.branch i rest).map _).mono ((List.suffix_cons i rest).trans hrest)
            · exact ((h.block _ (i :: rest)).map _).mono hrest
      · exact .done (List.suffix_refl _)

theorem block_firm (h : FirmStatements stop stop' us n) (context : Text) (ts : List Token) :
    Firm stop ts us (block stop (n + 1) context ts) (block stop' (n + 1) context (ts ++ us)) := by
  rw [block, block]
  refine (expect_firm stop stop' us _ _ ts).andThen fun _ rest _ => ?_
  exact (h.statements rest).andThen fun _ rest _ => (expect_firm stop stop' us _ _ rest).map _

theorem statements_firm (h : FirmStatements stop stop' us n) (ts : List Token) :
    Firm stop ts us (statements stop (n + 1) ts) (statements stop' (n + 1) (ts ++ us)) := by
  cases ts with
  | nil => exact .taken
  | cons t rest =>
      rw [List.cons_append, statements, statements]
      split
      · exact .done (List.suffix_refl _)
      · exact (h.statement (t :: rest)).andThen fun s rest _ => (h.statements rest).map _

end FirmStatements

theorem firmStatements (stop stop' : Token) (us : List Token) (n : Nat) :
    FirmStatements stop stop' us n := by
  induction n with
  | zero => constructor <;> intros <;> exact .starved
  | succ n ih =>
      exact
        { statement := statement_firm ih
          branch := branch_firm ih
          block := block_firm ih
          statements := statements_firm ih }

theorem program_firm (stop stop' : Token) (us : List Token) (n : Nat) : ∀ ts : List Token,
    Firm stop ts us (program stop n ts) (program stop' n (ts ++ us)) := by
  induction n with
  | zero => intro ts; exact .starved
  | succ n ih =>
      intro ts
      cases ts with
      | nil => exact .taken
      | cons t rest =>
          rw [List.cons_append, program, program]
          exact ((firmStatements stop stop' us n).statement (t :: rest)).andThen
            fun s rest _ => (ih rest).map _

/-- A counter that is larger than needed reads the same. -/
theorem program_of_descentBound_le (stop : Token) {ts : List Token} {n : Nat}
    (h : descentBound ts ≤ n) : program stop n ts = program stop (descentBound ts) ts := by
  rcases program_steady stop h ts with hstarved | heq
  · exact absurd hstarved (program_fed stop ts)
  · exact heq.symm

/-- The fault that parsing ends with is the fault of reading a program. -/
theorem parse_eq_error_iff (ts : List Token) (e : GrammarFault) (remarks : List GrammarFault) :
    ((parse ts).outcome = .error e ∧ (parse ts).remarks = remarks) ↔
      program (endToken ts) (descentBound (Token.beforeEnd ts)) (Token.beforeEnd ts) =
        failed e remarks := by
  rw [parse, ← Token.beforeEnd]
  have hfed := program_fed (endToken ts) (Token.beforeEnd ts)
  generalize program (endToken ts) (descentBound (Token.beforeEnd ts)) (Token.beforeEnd ts) = r
    at hfed ⊢
  cases r with
  | done p rest more => simp
  | failed f more => simp
  | starved => exact absurd rfl hfed

theorem Token.beforeEnd_append {ts : List Token} (h : ∀ t ∈ ts, t.isEnd = false)
    (us : List Token) : Token.beforeEnd (ts ++ us) = ts ++ Token.beforeEnd us :=
  List.takeWhile_append_of_pos fun t ht => by rw [h t ht]; rfl

theorem Token.beforeEnd_of_no_end {ts : List Token} (h : ∀ t ∈ ts, t.isEnd = false) :
    Token.beforeEnd ts = ts := by
  have happend := Token.beforeEnd_append h []
  rw [List.append_nil] at happend
  exact happend.trans (List.append_nil ts)

theorem isEnd_endToken (ts : List Token) : (endToken ts).isEnd = true := by
  rw [endToken]
  cases hfind : ts.find? Token.isEnd with
  | some t => exact List.find?_some hfind
  | none => rfl

/-- A fault that was found at a token of the input, with none that ends it, is
    final: whatever follows, parsing fails. It fails with the same fault and the
    same remarks, unless it is the fault of an increment in front, which is found
    only after the operand was read. -/
theorem fault_before_end_is_final {ts : List Token} (hts : ∀ t ∈ ts, t.isEnd = false)
    {e : GrammarFault} (he : (parse ts).outcome = .error e) (hfound : e.found.isEnd = false)
    (us : List Token) :
    (∃ e', (parse (ts ++ us)).outcome = .error e') ∧
      (e.cause = .tokenMismatch ∨ e.cause = .expectedExpression ∨
          e.cause = .invalidTarget ∧ (e.detail = "Invalid assignment target" ∨
            e.detail = "Invalid target in suffix operation") →
        (parse (ts ++ us)).outcome = .error e ∧
          (parse (ts ++ us)).remarks = (parse ts).remarks) := by
  have hbefore := Token.beforeEnd_of_no_end hts
  have hbefore' := Token.beforeEnd_append hts us
  -- Both readings, with the counter of the longer one.
  have hle : descentBound ts ≤ descentBound (ts ++ Token.beforeEnd us) := by
    simp only [descentBound, List.length_append]
    omega
  have hfirm := program_firm (endToken ts) (endToken (ts ++ us)) (Token.beforeEnd us)
    (descentBound (ts ++ Token.beforeEnd us)) ts
  have hfailed := (parse_eq_error_iff ts e (parse ts).remarks).mp ⟨he, rfl⟩
  rw [hbefore] at hfailed
  rw [program_of_descentBound_le (endToken ts) hle, hfailed] at hfirm
  have hsame := parse_eq_error_iff (ts ++ us)
  have hfed := program_fed (endToken (ts ++ us)) (Token.beforeEnd (ts ++ us))
  rw [hbefore'] at hsame hfed
  generalize program (endToken (ts ++ us)) (descentBound (ts ++ Token.beforeEnd us))
    (ts ++ Token.beforeEnd us) = r at hfirm hsame hfed
  cases hfirm with
  | failed _ =>
      have hkept := (hsame e (parse ts).remarks).mpr rfl
      exact ⟨⟨e, hkept.1⟩, fun _ => hkept⟩
  | atEnd hstop =>
      rw [hstop, isEnd_endToken] at hfound
      cases hfound
  | hopeless _ hstep hhopeless =>
      refine ⟨?_, fun hcause => ?_⟩
      · cases r with
        | done p rest more => exact absurd ⟨more, rfl⟩ (hhopeless p rest)
        | failed f more => exact ⟨f, ((hsame f more).mpr rfl).1⟩
        | starved => exact absurd rfl hfed
      · -- The fault is none of those that stay.
        rcases hstep with ⟨htarget, hdetail⟩
        rw [htarget, hdetail] at hcause
        exact absurd hcause (by decide)

-- The exception is needed. The fault of an increment in front of a constant
-- gives way to the fault of a call that has only begun.
example :
    (parse [byteToken .increment 43 1, byteToken .number 49 3]).outcome =
        .error (badTarget (byteToken .increment 43 1) "Invalid target in prefix operation") ∧
      (parse [byteToken .increment 43 1, byteToken .number 49 3,
        byteToken .leftParen 40 4]).outcome = .error (noExpression (.endAt ⟨1, 4⟩)) :=
  ⟨rfl, rfl⟩

/-- A constant cannot be assigned to, whatever it is to be assigned. -/
theorem assigned_constant_is_final :
    (parse [byteToken .number 49 1, byteToken .assign 61 2, byteToken .identifier 120 3,
        byteToken .semicolon 59 4]).outcome =
      .error (badTarget (byteToken .assign 61 2) "Invalid assignment target") := by
  have hshort : (parse [byteToken .number 49 1, byteToken .assign 61 2]).outcome =
      .error (badTarget (byteToken .assign 61 2) "Invalid assignment target") := rfl
  exact ((fault_before_end_is_final (by decide) hshort rfl
    [byteToken .identifier 120 3, byteToken .semicolon 59 4]).2
      (Or.inr (Or.inr ⟨rfl, Or.inl rfl⟩))).1

end PocketScript
