import Mathlib.Data.List.Forall2
import PocketScript.Proofs.Parser.Exact
import PocketScript.Proofs.Program.Surplus

/-!
# What the parser remarks on

The parser makes a remark for every argument and every parameter beyond the limit,
at the token where it starts, and reads on as if nothing had been the matter. It
makes no other remarks.

Remarks are handed upwards by all readers and joined in the order of reading, so the
proof follows the readers, as soundness does, and says of each what the tokens it
took and the remarks it made have to do with what is surplus in its tree. `Marked`
says it by a walk over the tokens on which every token carries at most one remark:
that makes the remarks stand in the order of the tokens and at different ones.

An argument beyond the limit carries a remark on its first token, and arguments
beyond the limit may be inside it. What keeps those two apart is that an expression
takes a token before anything inside it can be surplus (`Inside`).

## Main definitions

* `Marked`: The remarks on the surplus written by tokens.
* `Inside`: The same, with no remark on the first token.
* `Reading.Tells`: What a reading says of the tokens it took and its remarks.
* `MarksExpressions`, `MarksStatements`: All readers mark what is surplus.

## Theorems

* `Marked.append`: Tokens in a row are marked as their parts are.
* `Reading.tells_andThen`: Readings in a row tell what their parts do.
* `marksExpressions`, `marksStatements`: Readers mark what is surplus.
* `Marked.exists_places`: Marks stand at rising places.
* `remarks_are_the_surplus`: The remarks on a program are its surplus.
-/

namespace PocketScript

open Grammar Reading

/-- The tokens write the surplus in this order, and the remarks are those on it. No
    token carries more than one. -/
inductive Marked : List Token → List Surplus → List GrammarFault → Prop where
  | nil : Marked [] [] []
  | plain {t : Token} {ts : List Token} {items : List Surplus} {remarks : List GrammarFault} :
      Marked ts items remarks → Marked (t :: ts) items remarks
  | mark {t : Token} {ts : List Token} {item : Surplus} {items : List Surplus}
      {remarks : List GrammarFault} : item.Starts (t :: ts) → Marked ts items remarks →
      Marked (t :: ts) (item :: items) (item.remark t :: remarks)

/-- The same with no remark on the first token. -/
def Inside (ts : List Token) (items : List Surplus) (remarks : List GrammarFault) : Prop :=
  ∃ t us, ts = t :: us ∧ Marked us items remarks

section Marks

variable {ts us : List Token} {items items' : List Surplus} {remarks remarks' : List GrammarFault}

theorem Marked.append (h : Marked ts items remarks) (h' : Marked us items' remarks') :
    Marked (ts ++ us) (items ++ items') (remarks ++ remarks') := by
  induction h with
  | nil => exact h'
  | plain _ ih => exact .plain ih
  | mark hstarts _ ih => exact .mark (hstarts.append us) ih

theorem marked_plain (ts : List Token) : Marked ts [] [] := by
  induction ts with
  | nil => exact .nil
  | cons t ts ih => exact .plain ih

theorem Marked.inside (h : Marked ts items remarks) (t : Token) : Inside (t :: ts) items remarks :=
  ⟨t, ts, rfl, h⟩

theorem Inside.marked (h : Inside ts items remarks) : Marked ts items remarks := by
  rcases h with ⟨t, us, rfl, hus⟩
  exact .plain hus

theorem Inside.append (h : Inside ts items remarks) (h' : Marked us items' remarks') :
    Inside (ts ++ us) (items ++ items') (remarks ++ remarks') := by
  rcases h with ⟨t, vs, rfl, hvs⟩
  exact ⟨t, vs ++ us, rfl, hvs.append h'⟩

theorem Inside.followed (h : Inside ts items remarks) (us : List Token) :
    Inside (ts ++ us) items remarks := by
  have happend := h.append (marked_plain us)
  rwa [List.append_nil, List.append_nil] at happend

/-- The first token has room for a remark on the whole. -/
theorem Inside.start (h : Inside ts items remarks) {item : Surplus} (hstarts : item.Starts ts)
    (stop : Token) (rest : List Token) :
    Marked ts (item :: items) (item.remark (peek stop (ts ++ rest)) :: remarks) := by
  rcases h with ⟨t, vs, rfl, hvs⟩
  exact .mark hstarts hvs

theorem Marked.cause_eq (h : Marked ts items remarks) :
    ∀ remark ∈ remarks, remark.cause = .tooManyArguments := by
  induction h with
  | nil => exact List.forall_mem_nil _
  | plain _ ih => exact ih
  | @mark t ts item items remarks _ _ ih =>
      exact List.forall_mem_cons.mpr ⟨item.cause_remark t, ih⟩

/-- Marks stand at rising places in the tokens. -/
theorem Marked.exists_places (h : Marked ts items remarks) :
    ∃ places : List (Nat × Surplus), places.map Prod.snd = items ∧
      (places.map Prod.fst).Pairwise (· < ·) ∧
      List.Forall₂ (fun place remark => ts[place.1]? = some remark.found ∧
        remark = place.2.remark remark.found ∧ place.2.Starts (ts.drop place.1)) places remarks := by
  induction h with
  | nil => exact ⟨[], rfl, .nil, .nil⟩
  | @plain t ts items remarks _ ih =>
      rcases ih with ⟨places, rfl, hrising, hmarks⟩
      refine ⟨places.map fun place => (place.1 + 1, place.2), ?_, ?_, ?_⟩
      · rw [List.map_map]
        rfl
      · rw [List.map_map] at *
        rw [List.pairwise_map] at hrising ⊢
        exact hrising.imp fun hlt => Nat.succ_lt_succ hlt
      · rw [List.forall₂_map_left_iff]
        exact hmarks
  | @mark t ts item items remarks hstarts _ ih =>
      rcases ih with ⟨places, rfl, hrising, hmarks⟩
      refine ⟨(0, item) :: places.map fun place => (place.1 + 1, place.2), ?_, ?_, ?_⟩
      · rw [List.map_cons, List.map_map]
        rfl
      · rw [List.map_cons, List.map_map, List.pairwise_cons]
        refine ⟨fun place hplace => ?_, ?_⟩
        · rcases List.mem_map.mp hplace with ⟨place', _, rfl⟩
          exact Nat.succ_pos _
        · rw [List.pairwise_map] at hrising ⊢
          exact hrising.imp fun hlt => Nat.succ_lt_succ hlt
      · refine .cons ?_ ?_
        · rw [Surplus.found_remark]
          exact ⟨rfl, rfl, hstarts⟩
        · rw [List.forall₂_map_left_iff]
          exact hmarks

end Marks

namespace Reading

variable {α β : Type} {r : Reading α} {ts : List Token}
  {P : α → List Token → List GrammarFault → Prop} {Q : β → List Token → List GrammarFault → Prop}

/-- What holds of the form that was read, the tokens taken for it and the remarks. -/
def Tells (r : Reading α) (ts : List Token) (P : α → List Token → List GrammarFault → Prop) :
    Prop :=
  ∀ a rest remarks, r = done a rest remarks → ∃ us, ts = us ++ rest ∧ P a us remarks

theorem tells_done {a : α} (us : List Token) {rest : List Token} {remarks : List GrammarFault}
    (h : P a us remarks) : (done a rest remarks).Tells (us ++ rest) P := by
  rintro _ _ _ ⟨⟩
  exact ⟨us, rfl, h⟩

theorem tells_failed (e : GrammarFault) (remarks : List GrammarFault) :
    (failed e remarks : Reading α).Tells ts P := by
  rintro _ _ _ ⟨⟩

theorem tells_starved : (starved : Reading α).Tells ts P := by
  rintro _ _ _ ⟨⟩

theorem tells_noting {before : List GrammarFault}
    (h : r.Tells ts fun a us remarks => P a us (before ++ remarks)) :
    (noting before r).Tells ts P := by
  intro a rest remarks hdone
  cases r with
  | done _ _ more =>
      cases hdone
      exact h a rest more rfl
  | failed e more => cases hdone
  | starved => cases hdone

theorem tells_andThen {f : α → List Token → Reading β} (h : r.Tells ts P)
    (hf : ∀ a us remarks rest, ts = us ++ rest → P a us remarks →
      (f a rest).Tells rest fun b vs more => Q b (us ++ vs) (remarks ++ more)) :
    (r.andThen f).Tells ts Q := by
  cases r with
  | done a rest remarks =>
      rcases h a rest remarks rfl with ⟨us, rfl, hus⟩
      refine tells_noting fun b rest' more hdone => ?_
      rcases hf a us remarks rest rfl hus b rest' more hdone with ⟨vs, rfl, hvs⟩
      exact ⟨us ++ vs, (List.append_assoc _ _ _).symm, hvs⟩
  | failed e remarks => exact tells_failed e remarks
  | starved => exact tells_starved

theorem tells_map {f : α → β} (h : r.Tells ts P)
    (hf : ∀ a us remarks, P a us remarks → Q (f a) us remarks) : (r.map f).Tells ts Q := by
  refine tells_andThen h fun a us remarks rest _ ha => ?_
  have hQ := hf a us remarks ha
  exact tells_done [] (by rwa [List.append_nil, List.append_nil])

theorem tells_expect (stop : Token) (k : Kind) (detail : Text) (ts : List Token) :
    (expect stop k detail ts).Tells ts fun t us remarks => us = [t] ∧ remarks = [] := by
  cases ts with
  | nil => exact tells_failed _ _
  | cons t ts =>
      rw [expect]
      split
      · exact tells_done [t] ⟨rfl, rfl⟩
      · exact tells_failed _ _

theorem Tells.imp {R : α → List Token → List GrammarFault → Prop} (h : r.Tells ts P)
    (hP : ∀ a us remarks, P a us remarks → R a us remarks) : r.Tells ts R := by
  intro a rest remarks hdone
  rcases h a rest remarks hdone with ⟨us, hts, hus⟩
  exact ⟨us, hts, hP a us remarks hus⟩

/-- A reading tells the same behind a token that was taken before it. -/
theorem Tells.behind {R : α → List Token → List GrammarFault → Prop} (h : r.Tells ts P)
    {t : Token} (hP : ∀ a us remarks, P a us remarks → R a (t :: us) remarks) :
    r.Tells (t :: ts) R := by
  intro a rest remarks hdone
  rcases h a rest remarks hdone with ⟨us, rfl, hus⟩
  exact ⟨t :: us, rfl, hP a us remarks hus⟩

theorem Tells.and {R : α → List Token → List GrammarFault → Prop} (h : r.Tells ts P)
    (h' : r.Tells ts R) : r.Tells ts fun a us remarks => P a us remarks ∧ R a us remarks := by
  intro a rest remarks hdone
  rcases h a rest remarks hdone with ⟨us, rfl, hus⟩
  rcases h' a rest remarks hdone with ⟨vs, hvs, hR⟩
  rw [List.append_cancel_right hvs] at hus ⊢
  exact ⟨vs, rfl, hus, hR⟩

/-- What is read as an expression is derived, whatever is remarked on. -/
theorem tells_derives (stop : Token) (n : Nat) (ts : List Token) :
    (expression stop n ts).Tells ts fun e us _ => Derives .assignment us e := by
  intro e rest remarks hdone
  exact (soundExpressions stop n).expression ⟨remarks, hdone⟩

end Reading

/-- The remarks are those on what is surplus in the expression. -/
def Expr.Remarked (e : Expr) (us : List Token) (remarks : List GrammarFault) : Prop :=
  Inside us e.surplus remarks

/-- With the tokens and the remarks of the beginning in front, the remarks are those on
    what is surplus in the expression. -/
def Expr.Continues (left e : Expr) (us : List Token) (remarks : List GrammarFault) : Prop :=
  ∀ vs before, left.Remarked vs before → e.Remarked (vs ++ us) (before ++ remarks)

theorem Expr.continues_refl (e : Expr) : e.Continues e [] [] := by
  intro vs before h
  rwa [List.append_nil, List.append_nil]

/-- With this counter, expressions are remarked on as they should be. -/
structure MarksExpressions (stop : Token) (n : Nat) : Prop where
  expression : ∀ ts, (expression stop n ts).Tells ts Expr.Remarked
  chain : ∀ r ts, (chain stop n r ts).Tells ts Expr.Remarked
  links : ∀ r left ts, (links stop n r left ts).Tells ts left.Continues
  operand : ∀ r ts, (operand stop n r ts).Tells ts Expr.Remarked
  signed : ∀ ts, (signed stop n ts).Tells ts Expr.Remarked
  stepped : ∀ ts, (stepped stop n ts).Tells ts Expr.Remarked
  called : ∀ ts, (called stop n ts).Tells ts Expr.Remarked
  calls : ∀ f ts, (calls stop n f ts).Tells ts f.Continues
  arguments : ∀ count ts, (arguments stop n count ts).Tells ts fun es us remarks =>
    Marked us (Expr.surplusFrom count es) remarks
  suffixed : ∀ ts, (suffixed stop n ts).Tells ts Expr.Remarked
  primary : ∀ ts, (primary stop n ts).Tells ts Expr.Remarked

section Expressions

variable {stop : Token} {n : Nat}

theorem expression_marks (h : MarksExpressions stop n) (ts : List Token) :
    (expression stop (n + 1) ts).Tells ts Expr.Remarked := by
  rw [expression]
  refine tells_andThen (h.chain .either ts) fun left us remarks rest _ hleft => ?_
  have hvalue : (done left rest []).Tells rest fun e vs more =>
      e.Remarked (us ++ vs) (remarks ++ more) :=
    tells_done [] (left.continues_refl us remarks hleft)
  cases rest with
  | nil => exact hvalue
  | cons op rest =>
      dsimp only
      split
      · cases left with
        | reference name =>
            refine tells_map ((h.expression rest).behind fun e vs more he => ?_) fun _ _ _ => id
            exact Inside.append hleft (.plain he.marked)
        | _ => exact tells_failed _ _
      · split
        · cases left with
          | reference name =>
              refine tells_map ((h.expression rest).behind fun e vs more he => ?_) fun _ _ _ => id
              exact Inside.append hleft (.plain he.marked)
          | _ => exact tells_failed _ _
        · exact hvalue

theorem chain_marks (h : MarksExpressions stop n) (r : Rung) (ts : List Token) :
    (chain stop (n + 1) r ts).Tells ts Expr.Remarked := by
  rw [chain]
  exact tells_andThen (h.operand r ts) fun left us remarks rest _ hleft =>
    (h.links r left rest).imp fun e vs more he => he us remarks hleft

theorem surplus_combine (r : Rung) (left : Expr) (op : Token) (right : Expr) :
    (r.combine left op right).surplus = left.surplus ++ right.surplus := by
  cases r <;> rfl

theorem links_marks (h : MarksExpressions stop n) (r : Rung) (left : Expr) (ts : List Token) :
    (links stop (n + 1) r left ts).Tells ts left.Continues := by
  cases ts with
  | nil => exact tells_done [] left.continues_refl
  | cons op ts =>
      rw [links]
      split
      · refine Tells.behind (P := fun e us remarks => left.Continues e (op :: us) remarks) ?_
          fun _ _ _ => id
        refine tells_andThen (h.operand r ts) fun right us remarks rest _ hright => ?_
        refine (h.links r (r.combine left op right) rest).imp fun e vs more he ws before hleft => ?_
        have hcombined : (r.combine left op right).Remarked (ws ++ op :: us) (before ++ remarks) := by
          rw [Expr.Remarked, surplus_combine]
          exact Inside.append hleft (.plain hright.marked)
        simpa using he _ _ hcombined
      · exact tells_done [] left.continues_refl

theorem operand_marks (h : MarksExpressions stop n) (r : Rung) (ts : List Token) :
    (operand stop (n + 1) r ts).Tells ts Expr.Remarked := by
  rw [operand]
  cases r.above with
  | some next => exact h.chain next ts
  | none => exact h.signed ts

theorem signed_marks (h : MarksExpressions stop n) (ts : List Token) :
    (signed stop (n + 1) ts).Tells ts Expr.Remarked := by
  cases ts with
  | nil => exact h.stepped []
  | cons op ts =>
      rw [signed]
      split
      · exact tells_map ((h.signed ts).behind fun e us remarks he => he.marked.inside op)
          fun _ _ _ => id
      · exact h.stepped (op :: ts)

theorem stepped_marks (h : MarksExpressions stop n) (ts : List Token) :
    (stepped stop (n + 1) ts).Tells ts Expr.Remarked := by
  cases ts with
  | nil => exact h.called []
  | cons op ts =>
      rw [stepped]
      split
      · refine tells_andThen ((h.called ts).behind
          (R := fun e us remarks => Inside us e.surplus remarks)
          fun e us remarks he => he.marked.inside op) fun e us remarks rest _ he => ?_
        cases e with
        | reference name => exact tells_done [] ((Expr.step op name).continues_refl us remarks he)
        | _ => exact tells_failed _ _
      · exact h.called (op :: ts)

theorem called_marks (h : MarksExpressions stop n) (ts : List Token) :
    (called stop (n + 1) ts).Tells ts Expr.Remarked := by
  rw [called]
  exact tells_andThen (h.suffixed ts) fun f us remarks rest _ hf =>
    (h.calls f rest).imp fun e vs more he => he us remarks hf

theorem calls_marks (h : MarksExpressions stop n) (f : Expr) (ts : List Token) :
    (calls stop (n + 1) f ts).Tells ts f.Continues := by
  cases ts with
  | nil => exact tells_done [] f.continues_refl
  | cons left ts =>
      rw [calls]
      split
      · refine Tells.behind (P := fun e us remarks => f.Continues e (left :: us) remarks) ?_
          fun _ _ _ => id
        have hargs : (if nextIs .rightParen ts then done [] ts [] else arguments stop n 0 ts).Tells ts
            fun es us remarks => Marked us (Expr.surplusFrom 0 es) remarks := by
          split
          · exact tells_done [] .nil
          · exact h.arguments 0 ts
        refine tells_andThen hargs fun args us remarks rest _ hargs => ?_
        refine tells_andThen (tells_expect _ _ _ rest) fun paren vs more rest' _ hparen => ?_
        rcases hparen with ⟨rfl, rfl⟩
        -- What was read so far, with this call, is the callee of the calls to come.
        refine (h.calls (.call f paren args) rest').imp fun e ws last he before first hf => ?_
        have hcall : (Expr.call f paren args).Remarked ((before ++ left :: us) ++ [paren])
            (first ++ remarks) := (Inside.append hf (.plain hargs)).followed [paren]
        simpa using he _ _ hcall
      · exact tells_done [] f.continues_refl

/-- The first token of an argument beyond the limit is remarked on, and what is
    surplus inside it comes behind. -/
theorem marked_of_remarked (stop : Token) {e : Expr} {us : List Token} {remarks : List GrammarFault}
    (h : e.Remarked us remarks) (hd : Derives .assignment us e) (count : Nat)
    (rest : List Token) :
    Marked us ((if argumentLimit ≤ count then [.argument e] else []) ++ e.surplus)
      (excess "Can't have more than 255 arguments" count (peek stop (us ++ rest)) ++ remarks) := by
  rw [excess]
  split
  · have hstarts : (Surplus.argument e).Starts us := ⟨us, List.prefix_rfl, hd⟩
    exact Inside.start h hstarts stop rest
  · exact Inside.marked h

theorem arguments_marks (h : MarksExpressions stop n) (count : Nat) (ts : List Token) :
    (arguments stop (n + 1) count ts).Tells ts fun es us remarks =>
      Marked us (Expr.surplusFrom count es) remarks := by
  rw [arguments]
  refine tells_noting ?_
  refine tells_andThen ((h.expression ts).and (tells_derives stop n ts))
    fun e us remarks rest hts he => ?_
  have hfirst := marked_of_remarked stop he.1 he.2 count rest
  rw [← hts] at hfirst
  have hlast : (done [e] rest []).Tells rest fun es vs more =>
      Marked (us ++ vs) (Expr.surplusFrom count es)
        (excess "Can't have more than 255 arguments" count (peek stop ts) ++ (remarks ++ more)) := by
    refine tells_done [] ?_
    simpa [Expr.surplusFrom] using hfirst
  cases rest with
  | nil => exact hlast
  | cons comma rest =>
      dsimp only
      split
      · refine tells_map ((h.arguments (count + 1) rest).behind fun es vs more hes => ?_)
          fun _ _ _ => id
        have hall := hfirst.append (.plain (t := comma) hes)
        simpa [Expr.surplusFrom] using hall
      · exact hlast

theorem suffixed_marks (h : MarksExpressions stop n) (ts : List Token) :
    (suffixed stop (n + 1) ts).Tells ts Expr.Remarked := by
  rw [suffixed]
  refine tells_andThen (h.primary ts) fun e us remarks rest _ he => ?_
  have hbare : (done e rest []).Tells rest fun e vs more =>
      e.Remarked (us ++ vs) (remarks ++ more) :=
    tells_done [] (e.continues_refl us remarks he)
  cases rest with
  | nil => exact hbare
  | cons op rest =>
      dsimp only
      split
      · cases e with
        | reference name =>
            refine tells_done [op] ?_
            rw [List.append_nil]
            exact he.followed [op]
        | _ => exact tells_failed _ _
      · exact hbare

theorem primary_marks (h : MarksExpressions stop n) (ts : List Token) :
    (primary stop (n + 1) ts).Tells ts Expr.Remarked := by
  cases ts with
  | nil => exact tells_failed _ _
  | cons t ts =>
      have hsingle : ∀ e : Expr, e.surplus = [] → (done e ts []).Tells (t :: ts) Expr.Remarked := by
        intro e he
        refine tells_done [t] ?_
        rw [Expr.Remarked, he]
        exact Marked.nil.inside t
      rw [primary]
      split
      · exact hsingle _ rfl
      · split
        · exact hsingle _ rfl
        · split
          · refine Tells.behind (P := fun e us remarks => e.Remarked (t :: us) remarks) ?_
              fun _ _ _ => id
            refine tells_andThen (h.expression ts) fun inner us remarks rest _ hinner => ?_
            refine tells_map (tells_expect _ _ _ rest) fun right vs more hright => ?_
            rcases hright with ⟨rfl, rfl⟩
            have hgrouping := (hinner.followed [right]).marked.inside t
            rwa [List.append_nil]
          · exact tells_failed _ _

end Expressions

/-- Every counter remarks on expressions as it should. -/
theorem marksExpressions (stop : Token) (n : Nat) : MarksExpressions stop n := by
  induction n with
  | zero => constructor <;> intros <;> exact tells_starved
  | succ n ih =>
      exact
        { expression := expression_marks ih
          chain := chain_marks ih
          links := links_marks ih
          operand := operand_marks ih
          signed := signed_marks ih
          stepped := stepped_marks ih
          called := called_marks ih
          calls := calls_marks ih
          arguments := arguments_marks ih
          suffixed := suffixed_marks ih
          primary := primary_marks ih }

section Parts

variable {stop : Token} {n : Nat}

/-- Names are marked if one more name in front is. -/
theorem names_marks {detail : Text} {remarks : Nat → Token → List GrammarFault}
    {g : Nat → List Token → List Surplus} (hnil : ∀ count, g count [] = [])
    (hcons : ∀ {count us names more} (t : Token), Marked us (g (count + 1) names) more →
      Marked (t :: us) (g count (t :: names)) (remarks count t ++ more))
    (count : Nat) (ts : List Token) :
    (Reading.names stop detail remarks count ts).Tells ts fun names us more =>
      Marked us (g count names) more := by
  have hlast : ∀ count (t : Token) (rest : List Token),
      (done [t] rest (remarks count t)).Tells (t :: rest) fun names us more =>
        Marked us (g count names) more := by
    intro count t rest
    refine tells_done [t] ?_
    have hone := @hcons count [] [] [] t
    rw [hnil, List.append_nil] at hone
    exact hone .nil
  fun_induction Reading.names stop detail remarks count ts with
  | case1 count => exact tells_failed _ _
  | case2 count t ht c ts hc ih =>
      have hbehind : (Reading.names stop detail remarks (count + 1) ts).Tells (c :: ts)
          fun names us more => Marked us (g (count + 1) names) more :=
        ih.behind fun _ _ _ => .plain
      exact tells_noting (tells_map (hbehind.behind fun _ _ _ => hcons t) fun _ _ _ => id)
  | case3 count t ht c ts hc => exact hlast count t (c :: ts)
  | case4 count t ht => exact hlast count t []
  | case5 count t ts ht => exact tells_failed _ _

/-- Parameters beyond the limit are remarked on. -/
theorem parameterNames_marks (ts : List Token) :
    (Reading.names stop "Expected parameter name" (excess "Can't have more than 255 parameters")
      0 ts).Tells ts fun params us remarks =>
        Marked us (Surplus.parametersFrom 0 params) remarks := by
  refine names_marks (fun _ => rfl) (fun {count us names more} t hus => ?_) 0 ts
  rw [excess, Surplus.parametersFrom]
  split
  · have hstarts : (Surplus.parameter t).Starts (t :: us) := ⟨us, rfl⟩
    exact .mark hstarts hus
  · exact .plain hus

/-- Targets of a delete statement are not. -/
theorem targets_marks (detail : Text) (ts : List Token) :
    (Reading.names stop detail (fun _ _ => []) 0 ts).Tells ts fun _ us remarks =>
      Marked us [] remarks :=
  names_marks (g := fun _ _ => []) (fun _ => rfl) (fun _ => .plain) 0 ts

/-- A token that is expected carries no remark. -/
theorem Marked.closed {us : List Token} {items : List Surplus} {remarks : List GrammarFault}
    (h : Marked us items remarks) (k : Kind) (detail : Text) (rest : List Token) :
    (expect stop k detail rest).Tells rest fun _ vs more =>
      Marked (us ++ vs) items (remarks ++ more) := by
  refine (tells_expect stop k detail rest).imp fun t vs more ht => ?_
  rcases ht with ⟨rfl, rfl⟩
  have hall := h.append (marked_plain [t])
  rwa [List.append_nil] at hall

theorem parameters_marks (ts : List Token) :
    (parameters stop ts).Tells ts fun params us remarks =>
      Marked us (Surplus.parametersFrom 0 params) remarks := by
  rw [parameters]
  have hnames : (if nextIs .rightParen ts then done [] ts []
      else names stop "Expected parameter name" (excess "Can't have more than 255 parameters")
        0 ts).Tells ts fun params us remarks =>
          Marked us (Surplus.parametersFrom 0 params) remarks := by
    split
    · exact tells_done [] .nil
    · exact parameterNames_marks ts
  exact tells_andThen hnames fun params us remarks rest _ hparams =>
    tells_map (hparams.closed _ _ rest) fun _ _ _ => id

theorem terminated_marks (detail : Text) (ts : List Token) :
    (terminated stop n detail ts).Tells ts fun e us remarks => Marked us e.surplus remarks := by
  rw [terminated]
  exact tells_andThen ((marksExpressions stop n).expression ts) fun e us remarks rest _ he =>
    tells_map (he.marked.closed _ _ rest) fun _ _ _ => id

theorem giveBack_marks (keyword : Token) (ts : List Token) :
    (giveBack stop n keyword ts).Tells ts fun st us remarks => Marked us st.surplus remarks := by
  rw [giveBack]
  split
  · exact tells_map (Marked.nil.closed _ _ ts) fun _ _ _ => id
  · exact tells_map (terminated_marks _ ts) fun _ _ _ => id

theorem delete_marks (keyword : Token) (ts : List Token) :
    (delete stop keyword ts).Tells ts fun st us remarks => Marked us st.surplus remarks := by
  rw [delete]
  exact tells_andThen (targets_marks _ ts) fun targets us remarks rest _ htargets =>
    tells_map (htargets.closed _ _ rest) fun _ _ _ => id

end Parts

/-- The remarks are those on what is surplus in the statement. -/
def Stmt.Remarked (st : Stmt) (us : List Token) (remarks : List GrammarFault) : Prop :=
  Marked us st.surplus remarks

/-- The remarks are those on what is surplus in the statements. -/
def Stmt.RemarkedAll (b : List Stmt) (us : List Token) (remarks : List GrammarFault) : Prop :=
  Marked us (Stmt.surplusAll b) remarks

/-- With this counter, statements are remarked on as they should be. -/
structure MarksStatements (stop : Token) (n : Nat) : Prop where
  statement : ∀ ts, (statement stop n ts).Tells ts Stmt.Remarked
  branch : ∀ keyword ts, (branch stop n keyword ts).Tells ts Stmt.Remarked
  block : ∀ context ts, (block stop n context ts).Tells ts Stmt.RemarkedAll
  statements : ∀ ts, (statements stop n ts).Tells ts Stmt.RemarkedAll

section Statements

variable {stop : Token} {n : Nat}

theorem functionStatement_marks (h : MarksStatements stop n) (ts : List Token) :
    ((expect stop .identifier "Expected function name" ts).andThen fun name rest =>
      (expect stop .leftParen "Expected '(' after function name" rest).andThen fun _ rest =>
        (parameters stop rest).andThen fun params rest =>
          (block stop n "function body" rest).map
            fun body => Stmt.function name params body).Tells ts Stmt.Remarked := by
  refine tells_andThen (Marked.nil.closed _ _ ts) fun name us remarks rest _ hname => ?_
  refine tells_andThen (hname.closed _ _ rest) fun left vs more rest' _ hleft => ?_
  refine tells_andThen (parameters_marks rest') fun params ws last rest'' _ hparams => ?_
  refine tells_map (h.block _ rest'') fun body xs inner hbody => ?_
  have hall := hleft.append (hparams.append hbody)
  simpa [Stmt.Remarked, Stmt.surplus] using hall

theorem loopStatement_marks (h : MarksStatements stop n) (keyword : Token) (ts : List Token) :
    ((expression stop n ts).andThen fun condition rest =>
      (block stop n "while body" rest).map
        fun body => Stmt.loop keyword condition body).Tells ts Stmt.Remarked :=
  tells_andThen ((marksExpressions stop n).expression ts) fun _ _ _ rest _ hcondition =>
    tells_map (h.block _ rest) fun _ _ _ hbody => hcondition.marked.append hbody

theorem statement_marks (h : MarksStatements stop n) (ts : List Token) :
    (statement stop (n + 1) ts).Tells ts Stmt.Remarked := by
  have hexpression : ∀ (detail : Text) us,
      ((terminated stop n detail us).map Stmt.expression).Tells us Stmt.Remarked :=
    fun detail us => tells_map (terminated_marks detail us) fun _ _ _ => id
  cases ts with
  | nil => exact hexpression _ []
  | cons t ts =>
      -- The keyword carries no remark, so what is behind it decides.
      have hkeyword : ∀ {r : Reading Stmt}, r.Tells ts Stmt.Remarked →
          r.Tells (t :: ts) Stmt.Remarked := fun hr => hr.behind fun _ _ _ => .plain
      rw [statement]
      split
      case h_1 => exact hkeyword (functionStatement_marks h ts)
      case h_2 => exact hkeyword (giveBack_marks t ts)
      case h_3 => exact hkeyword (delete_marks t ts)
      case h_4 => exact hkeyword (loopStatement_marks h t ts)
      case h_5 => exact hkeyword (h.branch t ts)
      case h_6 => exact hkeyword (tells_map (terminated_marks _ ts) fun _ _ _ => id)
      case h_7 => exact hkeyword (tells_map (Marked.nil.closed _ _ ts) fun _ _ _ => id)
      case h_8 => exact hkeyword (tells_map (Marked.nil.closed _ _ ts) fun _ _ _ => id)
      case h_9 => exact hexpression _ (t :: ts)

theorem branch_marks (h : MarksStatements stop n) (keyword : Token) (ts : List Token) :
    (branch stop (n + 1) keyword ts).Tells ts Stmt.Remarked := by
  rw [branch]
  refine tells_andThen ((marksExpressions stop n).expression ts)
    fun condition us remarks rest _ hcondition => ?_
  refine tells_andThen (h.block _ rest) fun consequent vs more rest' _ hconsequent => ?_
  -- Whatever the else part is, its surplus comes behind that of the rest.
  have helse : ∀ (alternate : Option (List Stmt)) {ws : List Token} {last : List GrammarFault},
      Marked ws (Stmt.surplusElse alternate) last →
      (Stmt.branch keyword condition consequent alternate).Remarked (us ++ (vs ++ ws))
        (remarks ++ (more ++ last)) := by
    intro alternate ws last hlast
    exact hcondition.marked.append (hconsequent.append hlast)
  cases rest' with
  | nil => exact tells_done [] (helse none .nil)
  | cons otherwise rest' =>
      dsimp only
      split
      · have hblock : ∀ us', ((block stop n "else body" us').map
            fun alternate => Stmt.branch keyword condition consequent (some alternate)).Tells
              (otherwise :: us') fun st ws last =>
                st.Remarked (us ++ (vs ++ ws)) (remarks ++ (more ++ last)) := fun us' =>
          tells_map ((h.block _ us').behind fun _ _ _ => .plain) fun alternate _ _ hbody =>
            helse (some alternate) hbody
        cases rest' with
        | nil => exact hblock []
        | cons i rest' =>
            dsimp only
            split
            · have hnested : (branch stop n i rest').Tells (otherwise :: i :: rest')
                  Stmt.Remarked :=
                ((h.branch i rest').behind (R := Stmt.Remarked) fun _ _ _ => .plain).behind
                  fun _ _ _ => .plain
              refine tells_map hnested fun nested _ _ hbody => ?_
              refine helse (some [nested]) ?_
              rw [Stmt.surplusElse, Stmt.surplusAll, Stmt.surplusAll, List.append_nil]
              exact hbody
            · exact hblock (i :: rest')
      · exact tells_done [] (helse none .nil)

theorem block_marks (h : MarksStatements stop n) (context : Text) (ts : List Token) :
    (block stop (n + 1) context ts).Tells ts Stmt.RemarkedAll := by
  rw [block]
  refine tells_andThen (Marked.nil.closed _ _ ts) fun left us remarks rest _ hleft => ?_
  refine tells_andThen (h.statements rest) fun body vs more rest' _ hbody => ?_
  have hinner := hleft.append hbody
  refine tells_map (hinner.closed _ _ rest') fun right ws last hall => ?_
  simpa [Stmt.RemarkedAll] using hall

theorem statements_marks (h : MarksStatements stop n) (ts : List Token) :
    (statements stop (n + 1) ts).Tells ts Stmt.RemarkedAll := by
  cases ts with
  | nil => exact tells_done [] .nil
  | cons t ts =>
      rw [statements]
      split
      · exact tells_done [] .nil
      · exact tells_andThen (h.statement (t :: ts)) fun _ _ _ rest _ hst =>
          tells_map (h.statements rest) fun _ _ _ hmore => Marked.append hst hmore

end Statements

/-- Every counter remarks on statements as it should. -/
theorem marksStatements (stop : Token) (n : Nat) : MarksStatements stop n := by
  induction n with
  | zero => constructor <;> intros <;> exact tells_starved
  | succ n ih =>
      exact
        { statement := statement_marks ih
          branch := branch_marks ih
          block := block_marks ih
          statements := statements_marks ih }

/-- The remarks on a program are those on what is surplus in it. -/
theorem program_marks (stop : Token) (n : Nat) (ts : List Token) :
    (program stop n ts).Tells ts Stmt.RemarkedAll := by
  induction n generalizing ts with
  | zero => exact tells_starved
  | succ n ih =>
      cases ts with
      | nil => exact tells_done [] .nil
      | cons t ts =>
          rw [program]
          exact tells_andThen ((marksStatements stop n).statement (t :: ts)) fun _ _ _ rest _ hst =>
            tells_map (ih rest) fun _ _ _ hmore => Marked.append hst hmore

/-- Parsing marks what is surplus among the tokens that it looks at. -/
theorem marked_of_parse {ts : List Token} {p : List Stmt} (h : (parse ts).outcome = .ok p) :
    Marked (Token.beforeEnd ts) (Stmt.surplusAll p) (parse ts).remarks := by
  have hderives := (parse_eq_ok_iff ts p).mp h
  rcases program_gives_of_derives (endToken ts) hderives with ⟨remarks, hread⟩
  have hremarks : (parse ts).remarks = remarks := by
    rw [parse]
    rw [Token.beforeEnd] at hread
    rw [hread]
  rcases program_marks _ _ _ p [] remarks hread with ⟨us, hus, hmarked⟩
  rw [List.append_nil] at hus
  rw [hremarks, hus]
  exact hmarked

/-- If parsing succeeds, the program is the one that the tokens derive in a grammar
    without a limit, so it has all arguments and all parameters. There are as many
    remarks as there are arguments and parameters beyond the limit, over all calls
    and functions, and all are of that cause. They are the remarks on the surplus in
    the order in which it is written, each at the token where an argument or
    parameter beyond the limit starts, and the places of these tokens rise. -/
theorem remarks_are_the_surplus {ts : List Token} {p : List Stmt}
    (h : (parse ts).outcome = .ok p) :
    Derives .statements (Token.beforeEnd ts) p ∧
    (parse ts).remarks.length = Stmt.excessAll p ∧
    (∀ remark ∈ (parse ts).remarks, remark.cause = .tooManyArguments) ∧
    ∃ places : List (Nat × Surplus), places.map Prod.snd = Stmt.surplusAll p ∧
      (places.map Prod.fst).Pairwise (· < ·) ∧
      List.Forall₂ (fun place remark => ts[place.1]? = some remark.found ∧
        remark = place.2.remark remark.found ∧ place.2.Starts (ts.drop place.1))
        places (parse ts).remarks := by
  have hmarked := marked_of_parse h
  rcases hmarked.exists_places with ⟨places, hitems, hrising, hplaces⟩
  refine ⟨(parse_eq_ok_iff ts p).mp h, ?_, hmarked.cause_eq, places, hitems, hrising, ?_⟩
  · rw [← Stmt.length_surplusAll, ← hitems, List.length_map, hplaces.length_eq]
  · -- The tokens that are looked at are the first ones.
    have hfirst : Token.beforeEnd ts <+: ts := List.takeWhile_prefix _
    rcases hfirst with ⟨rest, hrest⟩
    refine hplaces.imp fun place remark hplace => ?_
    rcases hplace with ⟨hfound, hremark, hstarts⟩
    have hlt := (List.getElem?_eq_some_iff.mp hfound).1
    rw [← hrest, List.getElem?_append_left hlt, List.drop_append_of_le_length (Nat.le_of_lt hlt)]
    exact ⟨hfound, hremark, hstarts.append rest⟩

/-- A call or less is an expression by itself. -/
theorem derives_of_called {ts : List Token} {e : Expr} (h : Derives .called ts e) :
    Derives .assignment ts e := by
  have hfactor : Derives (.chain .factor) ts e := .single (.tightest (.unsigned (.unstepped h)))
  exact .value (.single (.tighter .and (.single (.tighter .equality (.single
    (.tighter .comparison (.single (.tighter .term (.single (.tighter .factor hfactor))))))))))

/-- The name `x` with a comma behind it, a number of times, and then other tokens. -/
def crowd : Nat → List Token → List Token
  | 0, last => last
  | n + 1, last => byteToken .identifier 120 3 :: byteToken .comma 44 4 :: crowd n last

theorem derives_crowd {last : List Token} {es : List Expr} (h : Derives .listed last es) (n : Nat) :
    Derives .listed (crowd n last)
      (List.replicate n (.reference (byteToken .identifier 120 3)) ++ es) := by
  induction n with
  | zero => exact h
  | succ n ih =>
      exact .nextExpression (derives_of_called (.callee (.bare (.name rfl)))) rfl ih

theorem excessAll_crowd (n : Nat) (es : List Expr) :
    Expr.excessAll (List.replicate n (.reference (byteToken .identifier 120 3)) ++ es) =
      Expr.excessAll es := by
  induction n with
  | zero => rfl
  | succ n ih =>
      rw [List.replicate_succ, List.cons_append, Expr.excessAll, ih, Expr.excess, Nat.zero_add]

/-- A call of `f` with 255 times `x` as arguments, and one more. -/
def crowdedCall (last : List Token) : List Token :=
  byteToken .identifier 102 1 :: byteToken .leftParen 40 2 ::
    (crowd 255 last ++ [byteToken .rightParen 41 5])

def crowdedCallTree (last : Expr) : Expr :=
  .call (.reference (byteToken .identifier 102 1)) (byteToken .rightParen 41 5)
    (List.replicate 255 (.reference (byteToken .identifier 120 3)) ++ [last])

theorem derives_crowdedCall {last : List Token} {e : Expr} (h : Derives .assignment last e) :
    Derives .assignment (crowdedCall last) (crowdedCallTree e) := by
  have hcallee : Derives .called [byteToken .identifier 102 1]
      (.reference (byteToken .identifier 102 1)) :=
    .callee (.bare (.name rfl))
  exact derives_of_called
    (.call hcallee rfl (.someArguments (derives_crowd (.lastExpression h) 255)) rfl)

theorem excess_crowdedCallTree (e : Expr) : (crowdedCallTree e).excess = 1 + e.excess := by
  rw [crowdedCallTree, Expr.excess, excessAll_crowd, List.length_append, List.length_replicate,
    List.length_singleton]
  simp only [Expr.excess, Expr.excessAll]
  omega

theorem crowdedCall_open {last : List Token} (h : ∀ t ∈ last, t.isEnd = false) :
    ∀ t ∈ crowdedCall last, t.isEnd = false := by
  have hcrowd : ∀ n, ∀ t ∈ crowd n last, t.isEnd = false := by
    intro n
    induction n with
    | zero => exact h
    | succ n ih => exact List.forall_mem_cons.mpr ⟨rfl, List.forall_mem_cons.mpr ⟨rfl, ih⟩⟩
  refine List.forall_mem_cons.mpr ⟨rfl, List.forall_mem_cons.mpr ⟨rfl, ?_⟩⟩
  exact List.forall_mem_append.mpr ⟨hcrowd 255, List.forall_mem_singleton.mpr rfl⟩

/-- In a call with one argument too many, which is itself such a call, either is
    remarked on, the outer one first. -/
theorem nested_calls_are_remarked_twice :
    ∃ p ts, ts = crowdedCall (crowdedCall [byteToken .identifier 120 3]) ++
        [byteToken .semicolon 59 6] ++ [Token.endAt ⟨1, 7⟩] ∧
      (parse ts).outcome = .ok p ∧ (parse ts).remarks.length = 2 ∧
      ∃ places : List Nat, places.Pairwise (· < ·) ∧
        List.Forall₂ (fun place remark => ts[place]? = some remark.found) places
          (parse ts).remarks := by
  have hname : Derives .assignment [byteToken .identifier 120 3]
      (.reference (byteToken .identifier 120 3)) :=
    derives_of_called (.callee (.bare (.name rfl)))
  have hsemicolon : (byteToken .semicolon 59 6).kind = .semicolon := rfl
  have hstatement := Derives.nextStatement
    (.expression (derives_crowdedCall (derives_crowdedCall hname)) hsemicolon) .noStatements
  rw [List.append_nil] at hstatement
  have hopen : ∀ t ∈ crowdedCall (crowdedCall [byteToken .identifier 120 3]) ++
      [byteToken .semicolon 59 6], t.isEnd = false :=
    List.forall_mem_append.mpr ⟨crowdedCall_open (crowdedCall_open
      (List.forall_mem_singleton.mpr rfl)), List.forall_mem_singleton.mpr rfl⟩
  rw [← Token.beforeEnd_concat hopen ⟨1, 7⟩, ← parse_eq_ok_iff] at hstatement
  rcases remarks_are_the_surplus hstatement with ⟨_, hcount, _, places, _, hrising, hplaces⟩
  have htwo : (parse (crowdedCall (crowdedCall [byteToken .identifier 120 3]) ++
      [byteToken .semicolon 59 6] ++ [Token.endAt ⟨1, 7⟩])).remarks.length = 2 := by
    rw [hcount]
    simp only [Stmt.excessAll, Stmt.excess, excess_crowdedCallTree, Expr.excess]
  exact ⟨_, _, rfl, hstatement, htwo, places.map Prod.fst, hrising,
    List.forall₂_map_left_iff.mpr (hplaces.imp fun _ _ hplace => hplace.1)⟩

end PocketScript
