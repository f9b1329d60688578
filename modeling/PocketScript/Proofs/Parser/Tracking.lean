import PocketScript.Proofs.Parser.Cursor
import PocketScript.Proofs.Parser.Firmness

/-!
# The cursor keeps to the tokens

Parsing with a cursor comes to no harm, and it parses what `parse` parses.

The list that a reader is given is what the cursor has in front of it: the
tokens from its index up to the first that ends the input. So the index can be
recovered from the list by its length, and a walk can be compared with a
reading. `Tracks` says that a walk that starts where the list begins ends where
the reading ends, with the same form, fault and remarks. A reading knows
nothing of mishaps, so a walk that tracks one has none, except that both can
use their counter up.

Looks at the array are in range because the index never passes the token that
ends the input, which is in the array. Rounds of loops move the cursor on
because what they read derives a form that is not empty.

## Main definitions

* `Cursor.Course`: Where in an array the first token that ends the input is.
* `Cursor.Lands`, `Cursor.Tracks`: A walk ends as a reading does.
* `Cursor.TracksExpressions`, `Cursor.TracksStatements`: All walks track their
  readers, with a counter.
* `Token.throughEnd`: The tokens up to the first that ends the input.

## Theorems

* `Cursor.Tracks.bind`: Walks in a row.
* `Cursor.tracksExpressions`, `Cursor.tracksStatements`, `Cursor.program_tracks`:
  Every walk tracks its reader.
* `cursor_parses_safely`: No walk comes to a mishap.
-/

namespace PocketScript

namespace Cursor

open Reading (expect mismatch badTarget noExpression excess nextIs noting)

/-- The tokens `before` come first, none of which ends the input, and then
    `stop`, which does. -/
structure Course (tokens : Array Token) (before : List Token) (stop : Token) : Prop where
  split : ∃ after, tokens.toList = before ++ stop :: after
  inner : ∀ t ∈ before, t.isEnd = false
  final : stop.isEnd = true

variable {α β : Type} {tokens : Array Token} {before ts rest : List Token} {stop t : Token}

/-- In front of the cursor is the first token of the list, or else the one that
    ends the input. -/
theorem Course.getElem?_current (hc : Course tokens before stop) (hts : ts <:+ before) :
    tokens[before.length - ts.length]? = some (Reading.peek stop ts) := by
  rcases hc.split with ⟨after, hsplit⟩
  rcases hts with ⟨taken, rfl⟩
  have hlen : (taken ++ ts).length - ts.length = taken.length := by
    rw [List.length_append]
    omega
  rw [hlen, ← Array.getElem?_toList, hsplit, List.append_assoc, List.getElem?_append_right
    (Nat.le_refl _), Nat.sub_self]
  cases ts <;> rfl

/-- Behind it is the token that was taken last. -/
theorem Course.getElem?_previous (hc : Course tokens before stop) (hts : t :: rest <:+ before) :
    tokens[before.length - rest.length - 1]? = some t := by
  have hlen := hts.length_le
  rw [List.length_cons] at hlen
  have hcurrent := hc.getElem?_current hts
  rw [List.length_cons] at hcurrent
  have hindex : before.length - rest.length - 1 = before.length - (rest.length + 1) := by omega
  rw [hindex]
  exact hcurrent

theorem Course.isEnd_peek (hc : Course tokens before stop) (hts : ts <:+ before) :
    (Reading.peek stop ts).isEnd = ts.isEmpty := by
  cases ts with
  | nil => exact hc.final
  | cons t ts => exact hc.inner t (hts.subset List.mem_cons_self)

/-- A walk ends as a reading does, where the list that is left begins and with
    the remarks of the reading behind those already made. -/
inductive Lands (before : List Token) (remarks : List GrammarFault) :
    Reading α → EStateM.Result Halt Spot α → Prop where
  | done {a : α} {rest : List Token} {more : List GrammarFault} : rest <:+ before →
      Lands before remarks (.done a rest more)
        (.ok a ⟨before.length - rest.length, remarks ++ more⟩)
  | failed {e : GrammarFault} {more : List GrammarFault} {i : Nat} : i ≤ before.length →
      Lands before remarks (.failed e more) (.error (.fault e) ⟨i, remarks ++ more⟩)
  | starved {spot : Spot} : Lands before remarks .starved (.error (.mishap .starved) spot)

/-- A walk that starts where `ts` begin ends as a reading does. -/
def Tracks (before : List Token) (w : Walk α) (ts : List Token) (r : Reading α) : Prop :=
  ts <:+ before → ∀ remarks, Lands before remarks r (w ⟨before.length - ts.length, remarks⟩)

theorem Lands.noting {remarks more : List GrammarFault} {r : Reading α}
    {x : EStateM.Result Halt Spot α} (h : Lands before (remarks ++ more) r x) :
    Lands before remarks (Reading.noting more r) x := by
  cases h with
  | done hrest =>
      rw [List.append_assoc]
      exact .done hrest
  | failed hi =>
      rw [List.append_assoc]
      exact .failed hi
  | starved => exact .starved

section Laws

variable {w : Walk α} {k : α → Walk β} {r : Reading α} {f : α → List Token → Reading β}
  {q : Reading β} {a : α}

theorem bind_ok {s s' : Spot} (h : w s = .ok a s') : (w >>= k) s = k a s' := by
  change EStateM.bind w k s = _
  rw [EStateM.bind, h]

theorem bind_error {s s' : Spot} {why : Halt} (h : w s = .error why s') :
    (w >>= k) s = .error why s' := by
  change EStateM.bind w k s = _
  rw [EStateM.bind, h]

/-- That the list is what is left of the tokens may be used on the way. -/
theorem Tracks.of_suffix (h : ts <:+ before → Tracks before w ts r) : Tracks before w ts r :=
  fun hts => h hts hts

/-- Walks in a row track readings in a row. -/
theorem Tracks.bind (h : Tracks before w ts r)
    (hk : ∀ a rest, r.Gives a rest → Tracks before (k a) rest (f a rest)) :
    Tracks before (w >>= k) ts (r.andThen f) := by
  intro hts remarks
  have hlands := h hts remarks
  generalize hx : w ⟨before.length - ts.length, remarks⟩ = x at hlands
  cases hlands with
  | @done a rest more hrest =>
      rw [bind_ok hx]
      exact (hk a rest ⟨more, rfl⟩ hrest (remarks ++ more)).noting
  | failed hi =>
      rw [bind_error hx]
      exact .failed hi
  | starved =>
      rw [bind_error hx]
      exact .starved

/-- A walk that only looks or takes goes before any other. -/
theorem Tracks.andThen (h : Tracks before w ts (.done a rest []))
    (hk : Tracks before (k a) rest q) : Tracks before (w >>= k) ts q := by
  have hbind : Tracks before (w >>= k) ts ((Reading.done a rest []).andThen fun _ _ => q) :=
    h.bind fun b us hb => by
      rcases (Reading.done_gives _ _ _ _ _).mp hb with ⟨rfl, rfl⟩
      exact hk
  cases q <;> exact hbind

theorem pure_tracks (a : α) (ts : List Token) :
    Tracks before (pure a : Walk α) ts (.done a ts []) := by
  intro hts remarks
  have hlands : Lands before remarks (Reading.done a ts [])
      (.ok a ⟨before.length - ts.length, remarks ++ []⟩) := .done hts
  rw [List.append_nil] at hlands
  exact hlands

theorem Tracks.map (h : Tracks before w ts r) (g : α → β) :
    Tracks before (w >>= fun a => pure (g a)) ts (r.map g) :=
  h.bind fun a rest _ => pure_tracks (g a) rest

theorem refuse_tracks (e : GrammarFault) (ts : List Token) :
    Tracks before (refuse e : Walk α) ts (.failed e []) := by
  intro _ remarks
  have hlands : Lands before remarks (Reading.failed e [] : Reading α)
      (.error (.fault e) ⟨before.length - ts.length, remarks ++ []⟩) := .failed (Nat.sub_le _ _)
  rw [List.append_nil] at hlands
  exact hlands

theorem starved_tracks (ts : List Token) :
    Tracks before (throw (.mishap .starved) : Walk α) ts .starved := fun _ _ => .starved

theorem here_tracks (ts : List Token) :
    Tracks before here ts (.done (before.length - ts.length) ts []) :=
  fun hts remarks => pure_tracks (before.length - ts.length) ts hts remarks

/-- Remarks are made before what a walk remarks itself. -/
theorem Tracks.remark {w : Walk α} {r : Reading α} (h : Tracks before w ts r)
    (more : List GrammarFault) :
    Tracks before (Cursor.remark more >>= fun _ => w) ts (Reading.noting more r) := by
  intro hts remarks
  exact (h hts (remarks ++ more)).noting

/-- A round that has taken a token passes its check. -/
theorem Tracks.round {w : Walk α} {r : Reading α} (h : Tracks before w rest r)
    (hts : ts <:+ before) (hlt : rest.length < ts.length) :
    Tracks before (moved (before.length - ts.length) >>= fun _ => w) rest r := by
  have hlen := hts.length_le
  intro hrest remarks
  have hmoved : moved (before.length - ts.length) ⟨before.length - rest.length, remarks⟩ =
      .ok () ⟨before.length - rest.length, remarks⟩ := by
    change (if before.length - rest.length ≤ before.length - ts.length then _ else _ : Walk Unit)
      _ = _
    rw [if_neg (by omega)]
    rfl
  rw [bind_ok hmoved]
  exact h hrest remarks

end Laws

section Looks

variable (hc : Course tokens before stop)
include hc

theorem peek_tracks (ts : List Token) :
    Tracks before (peek tokens) ts (.done (Reading.peek stop ts) ts []) := by
  refine .of_suffix fun hts => (here_tracks ts).andThen ?_
  rw [tokenAt, hc.getElem?_current hts]
  exact pure_tracks _ ts

/-- The token that was taken last. -/
theorem previous_run (hts : t :: rest <:+ before) (remarks : List GrammarFault) :
    previous tokens ⟨before.length - rest.length, remarks⟩ =
      .ok t ⟨before.length - rest.length, remarks⟩ := by
  have hlen := hts.length_le
  rw [List.length_cons] at hlen
  have hpos : ¬ before.length - rest.length = 0 := by omega
  change tokenAt tokens (if before.length - rest.length = 0 then 0 else _) _ = _
  rw [if_neg hpos, tokenAt, hc.getElem?_previous hts]
  rfl

theorem isAtEnd_tracks (ts : List Token) :
    Tracks before (isAtEnd tokens) ts (.done ts.isEmpty ts []) := by
  refine .of_suffix fun hts => (peek_tracks hc ts).andThen ?_
  rw [hc.isEnd_peek hts]
  exact pure_tracks _ ts

theorem check_tracks {k : Kind} (ts : List Token) :
    Tracks before (check tokens k) ts (.done (nextIs k ts) ts []) := by
  refine (isAtEnd_tracks hc ts).andThen ?_
  cases ts with
  | nil => exact pure_tracks _ []
  | cons t ts => exact (peek_tracks hc (t :: ts)).andThen (pure_tracks _ _)

/-- In front of a token that does not end the input, a step is taken. -/
theorem step_run (hts : t :: rest <:+ before) (remarks : List GrammarFault) :
    step tokens ⟨before.length - (t :: rest).length, remarks⟩ =
      .ok () ⟨before.length - rest.length, remarks⟩ := by
  have hlen := hts.length_le
  rw [List.length_cons] at hlen
  have hindex : before.length - (rest.length + 1) + 1 = before.length - rest.length := by omega
  have hlands := isAtEnd_tracks hc (t :: rest) hts remarks
  generalize hx : isAtEnd tokens ⟨before.length - (t :: rest).length, remarks⟩ = x at hlands
  cases hlands with
  | done _ =>
      rw [List.append_nil] at hx
      rw [step, bind_ok hx, List.isEmpty_cons, ← hindex, List.length_cons]
      rfl

/-- Moving on takes the next token. -/
theorem advance_tracks (t : Token) (rest : List Token) :
    Tracks before (advance tokens) (t :: rest) (.done t rest []) := by
  refine (isAtEnd_tracks hc (t :: rest)).andThen ?_
  intro hts remarks
  have hrest : rest <:+ before := (List.suffix_cons t rest).trans hts
  have hdone : Lands before remarks (.done t rest []) (.ok t _) := pure_tracks t rest hrest remarks
  change Lands before remarks _
    ((step tokens >>= fun _ => previous tokens) ⟨before.length - (t :: rest).length, remarks⟩)
  rw [bind_ok (step_run hc hts remarks), previous_run hc hts]
  exact hdone

/-- A token of one of the kinds is taken. -/
theorem takeOf_tracks_some {ks : List Kind} (ht : t.kind ∈ ks) (rest : List Token) :
    Tracks before (takeOf tokens ks) (t :: rest) (.done (some t) rest []) := by
  induction ks with
  | nil => exact absurd ht List.not_mem_nil
  | cons k ks ih =>
      refine (check_tracks hc (t :: rest)).andThen ?_
      by_cases hk : t.kind = k
      · rw [nextIs_head hk]
        refine .of_suffix fun hts => (advance_tracks hc t rest).andThen ?_
        intro hrest remarks
        have hprevious := previous_run hc hts remarks
        rw [bind_ok hprevious]
        exact pure_tracks (some t) rest hrest remarks
      · have hnext : nextIs k (t :: rest) = false := beq_eq_false_iff_ne.mpr hk
        rw [hnext]
        exact ih ((List.mem_cons.mp ht).resolve_left hk)

/-- Anything else is left alone. -/
theorem takeOf_tracks_none {ks : List Kind} (hclear : Clear ks ts) :
    Tracks before (takeOf tokens ks) ts (.done none ts []) := by
  induction ks with
  | nil => exact pure_tracks _ ts
  | cons k ks ih =>
      refine (check_tracks hc ts).andThen ?_
      have hnext : nextIs k ts = false := by
        cases ts with
        | nil => rfl
        | cons t ts =>
            refine beq_eq_false_iff_ne.mpr fun hk => hclear.head ?_
            rw [hk]
            exact List.mem_cons_self
      rw [hnext]
      exact ih (hclear.mono (List.subset_cons_self k ks))

/-- Either a token of one of the kinds comes next and is taken, or else nothing
    is. -/
theorem takeOf_bind {ks : List Kind} {w : Option Token → Walk α} {r : Reading α}
    (hsome : ∀ t rest, ts = t :: rest → t.kind ∈ ks → Tracks before (w (some t)) rest r)
    (hnone : Clear ks ts → Tracks before (w none) ts r) :
    Tracks before (takeOf tokens ks >>= w) ts r := by
  cases ts with
  | nil => exact (takeOf_tracks_none hc (clear_nil ks)).andThen (hnone (clear_nil ks))
  | cons t rest =>
      by_cases ht : t.kind ∈ ks
      · exact (takeOf_tracks_some hc ht rest).andThen (hsome t rest rfl ht)
      · exact (takeOf_tracks_none hc (clear_cons ht)).andThen (hnone (clear_cons ht))

theorem consume_tracks (k : Kind) (detail : Text) (ts : List Token) :
    Tracks before (consume tokens k detail) ts (expect stop k detail ts) := by
  refine (check_tracks hc ts).andThen ?_
  cases ts with
  | nil => exact (peek_tracks hc []).andThen (refuse_tracks _ _)
  | cons t rest =>
      rw [expect]
      by_cases hk : t.kind = k
      · rw [if_pos hk, nextIs_head hk]
        exact advance_tracks hc t rest
      · have hnext : nextIs k (t :: rest) = false := beq_eq_false_iff_ne.mpr hk
        rw [if_neg hk, hnext]
        exact (peek_tracks hc (t :: rest)).andThen (refuse_tracks _ _)

theorem unlessNext_tracks {k : Kind} {w : Walk (List α)} {r : Reading (List α)}
    (h : Tracks before w ts r) :
    Tracks before (unlessNext tokens k w) ts (if nextIs k ts then .done [] ts [] else r) := by
  refine (check_tracks hc ts).andThen ?_
  split
  · exact pure_tracks [] ts
  · exact h

end Looks

/-- Names with commas between them, as one name and what comes after it. -/
theorem names_eq (stop : Token) (detail : Text) (remarks : Nat → Token → List GrammarFault)
    (count : Nat) (ts : List Token) :
    Reading.names stop detail remarks count ts =
      noting (remarks count (Reading.peek stop ts))
        ((expect stop .identifier detail ts).andThen fun name rest =>
          match rest with
          | [] => .done [name] [] []
          | c :: rest' =>
            if c.kind = .comma then
              (Reading.names stop detail remarks (count + 1) rest').map (name :: ·)
            else .done [name] (c :: rest') []) := by
  cases ts with
  | nil => simp [Reading.names, expect, Reading.andThen, noting, Reading.peek]
  | cons t ts =>
      by_cases ht : t.kind = .identifier
      · cases ts with
        | nil => simp [Reading.names, expect, Reading.andThen, noting, Reading.peek, ht]
        | cons c ts =>
            by_cases hcomma : c.kind = .comma
            · simp only [Reading.names, expect, Reading.peek, ht, hcomma, if_true, List.headD_cons,
                Reading.andThen]
              cases (Reading.names stop detail remarks (count + 1) ts).map (t :: ·) <;> rfl
            · simp [Reading.names, expect, Reading.andThen, noting, Reading.peek, ht, hcomma]
      · rw [Reading.names.eq_def]
        simp [expect, Reading.andThen, noting, Reading.peek, ht]

theorem names_tracks (hc : Course tokens before stop) (detail : Text)
    (remarks : Nat → Token → List GrammarFault) {fuel : Nat} :
    ∀ {count : Nat} {ts : List Token}, ts.length < fuel →
      Tracks before (names tokens detail remarks fuel count) ts
        (Reading.names stop detail remarks count ts) := by
  induction fuel with
  | zero => intro count ts hfuel; omega
  | succ fuel ih =>
      intro count ts hfuel
      rw [names, names_eq]
      refine .of_suffix fun hts => (here_tracks ts).andThen ?_
      refine (peek_tracks hc ts).andThen (Tracks.remark ?_ _)
      refine (consume_tracks hc _ _ ts).bind fun name rest hg => ?_
      rcases (Reading.expect_gives _ _ _ _ _ _).mp hg with ⟨rfl, _⟩
      refine .round ?_ hts (Nat.lt_succ_self _)
      rw [List.length_cons] at hfuel
      refine takeOf_bind hc (fun c more hrest hcomma => ?_) fun hclear => ?_
      · rw [hrest, List.length_cons] at hfuel
        simp only [hrest, if_pos (List.mem_singleton.mp hcomma)]
        exact (ih (by omega)).map _
      · cases rest with
        | nil => exact pure_tracks [name] []
        | cons c more =>
            simp only [if_neg hclear.head_ne]
            exact pure_tracks [name] _

/-- With this counter, walks for expressions track their readers. -/
structure TracksExpressions (tokens : Array Token) (before : List Token) (stop : Token) (n : Nat) :
    Prop where
  expression : ∀ ts, Tracks before (expression tokens n) ts (PocketScript.expression stop n ts)
  chain : ∀ r ts, Tracks before (chain tokens n r) ts (PocketScript.chain stop n r ts)
  links : ∀ r e ts, Tracks before (links tokens n r e) ts (PocketScript.links stop n r e ts)
  operand : ∀ r ts, Tracks before (operand tokens n r) ts (PocketScript.operand stop n r ts)
  signed : ∀ ts, Tracks before (signed tokens n) ts (PocketScript.signed stop n ts)
  stepped : ∀ ts, Tracks before (stepped tokens n) ts (PocketScript.stepped stop n ts)
  called : ∀ ts, Tracks before (called tokens n) ts (PocketScript.called stop n ts)
  calls : ∀ e ts, Tracks before (calls tokens n e) ts (PocketScript.calls stop n e ts)
  arguments : ∀ c ts, Tracks before (arguments tokens n c) ts (PocketScript.arguments stop n c ts)
  suffixed : ∀ ts, Tracks before (suffixed tokens n) ts (PocketScript.suffixed stop n ts)
  primary : ∀ ts, Tracks before (primary tokens n) ts (PocketScript.primary stop n ts)

section Expressions

variable {n : Nat} (hc : Course tokens before stop) (h : TracksExpressions tokens before stop n)
include h

theorem operand_tracks (r : Rung) (ts : List Token) :
    Tracks before (operand tokens (n + 1) r) ts (PocketScript.operand stop (n + 1) r ts) := by
  rw [operand, PocketScript.operand]
  cases r.above with
  | some next => exact h.chain next ts
  | none => exact h.signed ts

include hc

theorem expression_tracks (ts : List Token) :
    Tracks before (expression tokens (n + 1)) ts (PocketScript.expression stop (n + 1) ts) := by
  rw [expression, PocketScript.expression]
  refine (h.chain .either ts).bind fun left rest _ => ?_
  refine takeOf_bind hc (fun op more hrest hassign => ?_) fun hassign => ?_
  · simp only [hrest, if_pos (List.mem_singleton.mp hassign)]
    cases left with
    | reference name => exact (h.expression more).map _
    | _ => exact refuse_tracks _ _
  refine takeOf_bind hc (fun op more hrest hcompound => ?_) fun hcompound => ?_
  · rw [hrest] at hassign
    simp only [hrest, if_neg hassign.head_ne, if_pos hcompound]
    cases left with
    | reference name => exact (h.expression more).map _
    | _ => exact refuse_tracks _ _
  · cases rest with
    | nil => exact pure_tracks left []
    | cons op more =>
        simp only [if_neg hassign.head_ne, if_neg hcompound.head]
        exact pure_tracks left _

theorem links_tracks (r : Rung) (e : Expr) (ts : List Token) :
    Tracks before (links tokens (n + 1) r e) ts (PocketScript.links stop (n + 1) r e ts) := by
  rw [links]
  refine .of_suffix fun hts => (here_tracks ts).andThen ?_
  refine takeOf_bind hc (fun op rest hcons hop => ?_) fun hclear => ?_
  · rw [hcons, PocketScript.links, if_pos hop]
    refine (h.operand r rest).bind fun right rest' hg => ?_
    rw [hcons] at hts
    -- An operand is not empty, so the round has taken two tokens at least.
    have hlen := ((soundExpressions stop n).operand hg).length_lt rfl
    exact .round (h.links r _ rest') hts (by rw [List.length_cons]; omega)
  · cases ts with
    | nil => exact pure_tracks e []
    | cons op rest =>
        rw [PocketScript.links, if_neg hclear.head]
        exact pure_tracks e _

theorem signed_tracks (ts : List Token) :
    Tracks before (signed tokens (n + 1)) ts (PocketScript.signed stop (n + 1) ts) := by
  rw [signed]
  refine takeOf_bind hc (fun op rest hcons hop => ?_) fun hclear => ?_
  · rw [hcons, PocketScript.signed, if_pos hop]
    exact (h.signed rest).map _
  · cases ts with
    | nil => exact h.stepped []
    | cons op rest =>
        rw [PocketScript.signed, if_neg hclear.head]
        exact h.stepped _

theorem stepped_tracks (ts : List Token) :
    Tracks before (stepped tokens (n + 1)) ts (PocketScript.stepped stop (n + 1) ts) := by
  rw [stepped]
  refine takeOf_bind hc (fun op rest hcons hop => ?_) fun hclear => ?_
  · rw [hcons, PocketScript.stepped, if_pos hop]
    refine (h.called rest).bind fun e rest' _ => ?_
    cases e with
    | reference name => exact pure_tracks _ rest'
    | _ => exact refuse_tracks _ _
  · cases ts with
    | nil => exact h.called []
    | cons op rest =>
        rw [PocketScript.stepped, if_neg hclear.head]
        exact h.called _

theorem calls_tracks (e : Expr) (ts : List Token) :
    Tracks before (calls tokens (n + 1) e) ts (PocketScript.calls stop (n + 1) e ts) := by
  rw [calls]
  refine .of_suffix fun hts => (here_tracks ts).andThen ?_
  refine takeOf_bind hc (fun t rest hcons ht => ?_) fun hclear => ?_
  · rw [hcons, PocketScript.calls, if_pos (List.mem_singleton.mp ht)]
    refine (unlessNext_tracks hc (h.arguments 0 rest)).bind fun args rest' hargs => ?_
    refine (consume_tracks hc _ _ rest').bind fun paren rest'' hparen => ?_
    -- Whether or not there were arguments, no token came back.
    have hle : rest'.length ≤ rest.length := by
      split at hargs
      · exact Nat.le_of_eq
          (congrArg List.length ((Reading.done_gives _ _ _ _ _).mp hargs).2.symm)
      · exact ((soundExpressions stop n).arguments hargs).length_le
    rcases (Reading.expect_gives _ _ _ _ _ _).mp hparen with ⟨rfl, _⟩
    rw [List.length_cons] at hle
    rw [hcons] at hts
    exact .round (h.calls _ rest'') hts (by rw [List.length_cons]; omega)
  · cases ts with
    | nil => exact pure_tracks e []
    | cons t rest =>
        rw [PocketScript.calls, if_neg hclear.head_ne]
        exact pure_tracks e _

theorem arguments_tracks (count : Nat) (ts : List Token) :
    Tracks before (arguments tokens (n + 1) count) ts
      (PocketScript.arguments stop (n + 1) count ts) := by
  rw [arguments, PocketScript.arguments]
  refine .of_suffix fun hts => (here_tracks ts).andThen ?_
  refine (peek_tracks hc ts).andThen (Tracks.remark ?_ _)
  refine (h.expression ts).bind fun arg rest hg => ?_
  refine .round ?_ hts (((soundExpressions stop n).expression hg).length_lt rfl)
  refine takeOf_bind hc (fun c more hrest hcomma => ?_) fun hclear => ?_
  · simp only [hrest, if_pos (List.mem_singleton.mp hcomma)]
    exact (h.arguments (count + 1) more).map _
  · cases rest with
    | nil => exact pure_tracks [arg] []
    | cons c more =>
        simp only [if_neg hclear.head_ne]
        exact pure_tracks [arg] _

theorem suffixed_tracks (ts : List Token) :
    Tracks before (suffixed tokens (n + 1)) ts (PocketScript.suffixed stop (n + 1) ts) := by
  rw [suffixed, PocketScript.suffixed]
  refine (h.primary ts).bind fun e rest _ => ?_
  refine takeOf_bind hc (fun op more hrest hop => ?_) fun hclear => ?_
  · simp only [hrest, if_pos hop]
    cases e with
    | reference name => exact pure_tracks _ more
    | _ => exact refuse_tracks _ _
  · cases rest with
    | nil => exact pure_tracks e []
    | cons op more =>
        simp only [if_neg hclear.head]
        exact pure_tracks e _

theorem primary_tracks (ts : List Token) :
    Tracks before (primary tokens (n + 1)) ts (PocketScript.primary stop (n + 1) ts) := by
  rw [primary]
  refine (peek_tracks hc ts).andThen ?_
  cases ts with
  | nil =>
      -- The token that ends the input starts no expression.
      have hend : (Reading.peek stop []).kind = .endOfInput := eq_of_beq hc.final
      rw [hend]
      exact refuse_tracks _ _
  | cons t rest =>
      have htake := advance_tracks hc t rest
      have hpeek : Reading.peek stop (t :: rest) = t := rfl
      rw [PocketScript.primary, hpeek]
      split
      · exact htake.andThen (pure_tracks _ rest)
      · split
        · exact htake.andThen (pure_tracks _ rest)
        · split
          · refine htake.andThen ?_
            refine (h.expression rest).bind fun inner rest' _ => ?_
            exact (consume_tracks hc _ _ rest').map _
          · exact refuse_tracks _ _

end Expressions

theorem tracksExpressions (hc : Course tokens before stop) (n : Nat) :
    TracksExpressions tokens before stop n := by
  induction n with
  | zero => constructor <;> intros <;> exact starved_tracks _
  | succ n ih =>
      exact
        { expression := expression_tracks hc ih
          chain := fun r ts => by
            rw [chain, PocketScript.chain]
            exact (ih.operand r ts).bind fun left rest _ => ih.links r left rest
          links := links_tracks hc ih
          operand := operand_tracks ih
          signed := signed_tracks hc ih
          stepped := stepped_tracks hc ih
          called := fun ts => by
            rw [called, PocketScript.called]
            exact (ih.suffixed ts).bind fun e rest _ => ih.calls e rest
          calls := calls_tracks hc ih
          arguments := arguments_tracks hc ih
          suffixed := suffixed_tracks hc ih
          primary := primary_tracks hc ih }

section Statements

variable {n : Nat} (hc : Course tokens before stop)
include hc

theorem terminated_tracks (detail : Text) (ts : List Token) :
    Tracks before (terminated tokens n detail) ts (PocketScript.terminated stop n detail ts) := by
  refine ((tracksExpressions hc n).expression ts).bind fun e rest _ => ?_
  exact (consume_tracks hc _ _ rest).map _

theorem giveBack_tracks (keyword : Token) (ts : List Token) :
    Tracks before (giveBack tokens n keyword) ts (PocketScript.giveBack stop n keyword ts) := by
  refine (check_tracks hc ts).andThen ?_
  rw [PocketScript.giveBack]
  split
  · exact (consume_tracks hc _ _ ts).map _
  · exact (terminated_tracks hc _ ts).map _

/-- The array has room for all that is left of the tokens. -/
theorem Course.length_lt_size (hts : ts <:+ before) : ts.length < tokens.size := by
  rcases hc.split with ⟨after, hsplit⟩
  have hsize := congrArg List.length hsplit
  rw [Array.length_toList, List.length_append, List.length_cons] at hsize
  have hlen := hts.length_le
  omega

theorem delete_tracks (keyword : Token) (ts : List Token) :
    Tracks before (delete tokens keyword) ts (PocketScript.delete stop keyword ts) := by
  refine .of_suffix fun hts => ?_
  refine (names_tracks hc _ _ (hc.length_lt_size hts)).bind fun targets rest _ => ?_
  exact (consume_tracks hc _ _ rest).map _

theorem parameters_tracks (ts : List Token) :
    Tracks before (parameters tokens) ts (PocketScript.parameters stop ts) := by
  refine .of_suffix fun hts => ?_
  have hlen := hc.length_lt_size hts
  refine (unlessNext_tracks hc (names_tracks hc _ _ hlen)).bind fun params rest _ => ?_
  exact (consume_tracks hc _ _ rest).map _

end Statements

/-- With this counter, walks for statements track their readers. -/
structure TracksStatements (tokens : Array Token) (before : List Token) (stop : Token) (n : Nat) :
    Prop where
  statement : ∀ ts, Tracks before (statement tokens n) ts (PocketScript.statement stop n ts)
  branch : ∀ t ts, Tracks before (branch tokens n t) ts (PocketScript.branch stop n t ts)
  block : ∀ c ts, Tracks before (block tokens n c) ts (PocketScript.block stop n c ts)
  statements : ∀ ts, Tracks before (statements tokens n) ts (PocketScript.statements stop n ts)

/-- Where no keyword leads, an expression is read. -/
theorem statement_of_clear {n : Nat} (hclear : Clear [.funcWord, .returnWord, .delWord, .whileWord,
      .ifWord, .echoWord, .breakWord, .continueWord] ts) :
    PocketScript.statement stop (n + 1) ts =
      (PocketScript.terminated stop n "Expected ';' after expression" ts).map .expression := by
  cases ts with
  | nil => rfl
  | cons t ts =>
      have hhead := hclear.head
      rw [PocketScript.statement]
      split
      case h_9 => rfl
      all_goals
        rename_i hk
        rw [hk] at hhead
        exact absurd hhead (by decide)

section Blocks

variable {n : Nat} (hc : Course tokens before stop) (h : TracksStatements tokens before stop n)
include hc h

theorem statement_tracks (ts : List Token) :
    Tracks before (statement tokens (n + 1)) ts (PocketScript.statement stop (n + 1) ts) := by
  rw [statement]
  refine takeOf_bind hc (fun t rest hts ht => ?_) fun hfunc => ?_
  · rw [hts, PocketScript.statement, List.mem_singleton.mp ht]
    refine (consume_tracks hc _ _ rest).bind fun name rest _ => ?_
    refine (consume_tracks hc _ _ rest).bind fun _ rest _ => ?_
    refine (parameters_tracks hc rest).bind fun params rest _ => ?_
    exact (h.block _ rest).map _
  refine takeOf_bind hc (fun t rest hts ht => ?_) fun hreturn => ?_
  · rw [hts, PocketScript.statement, List.mem_singleton.mp ht]
    exact giveBack_tracks hc t rest
  refine takeOf_bind hc (fun t rest hts ht => ?_) fun hdel => ?_
  · rw [hts, PocketScript.statement, List.mem_singleton.mp ht]
    exact delete_tracks hc t rest
  refine takeOf_bind hc (fun t rest hts ht => ?_) fun hwhile => ?_
  · rw [hts, PocketScript.statement, List.mem_singleton.mp ht]
    refine ((tracksExpressions hc n).expression rest).bind fun condition rest _ => ?_
    exact (h.block _ rest).map _
  refine takeOf_bind hc (fun t rest hts ht => ?_) fun hif => ?_
  · rw [hts, PocketScript.statement, List.mem_singleton.mp ht]
    exact h.branch t rest
  refine takeOf_bind hc (fun t rest hts ht => ?_) fun hecho => ?_
  · rw [hts, PocketScript.statement, List.mem_singleton.mp ht]
    exact (terminated_tracks hc _ rest).map _
  refine takeOf_bind hc (fun t rest hts ht => ?_) fun hbreak => ?_
  · rw [hts, PocketScript.statement, List.mem_singleton.mp ht]
    exact (consume_tracks hc _ _ rest).map _
  refine takeOf_bind hc (fun t rest hts ht => ?_) fun hcontinue => ?_
  · rw [hts, PocketScript.statement, List.mem_singleton.mp ht]
    exact (consume_tracks hc _ _ rest).map _
  -- None of the keywords is there.
  have hclear := hfunc.insert (hreturn.insert (hdel.insert (hwhile.insert (hif.insert
    (hecho.insert (hbreak.insert hcontinue))))))
  rw [statement_of_clear hclear]
  exact (terminated_tracks hc _ ts).map _

theorem branch_tracks (keyword : Token) (ts : List Token) :
    Tracks before (branch tokens (n + 1) keyword) ts
      (PocketScript.branch stop (n + 1) keyword ts) := by
  rw [branch, PocketScript.branch]
  refine ((tracksExpressions hc n).expression ts).bind fun condition rest _ => ?_
  refine (h.block _ rest).bind fun consequent rest _ => ?_
  refine takeOf_bind hc (fun e more hrest helse => ?_) fun hclear => ?_
  · simp only [hrest, if_pos (List.mem_singleton.mp helse)]
    refine takeOf_bind hc (fun i last hmore hif => ?_) fun hclear => ?_
    · simp only [hmore, if_pos (List.mem_singleton.mp hif)]
      exact (h.branch i last).map _
    · cases more with
      | nil => exact (h.block _ []).map _
      | cons i last =>
          simp only [if_neg hclear.head_ne]
          exact (h.block _ _).map _
  · cases rest with
    | nil => exact pure_tracks _ []
    | cons e more =>
        simp only [if_neg hclear.head_ne]
        exact pure_tracks _ _

theorem block_tracks (context : Text) (ts : List Token) :
    Tracks before (block tokens (n + 1) context) ts
      (PocketScript.block stop (n + 1) context ts) := by
  rw [block, PocketScript.block]
  refine (consume_tracks hc _ _ ts).bind fun _ rest _ => ?_
  refine (h.statements rest).bind fun body rest _ => ?_
  exact (consume_tracks hc _ _ rest).map _

theorem statements_tracks (ts : List Token) :
    Tracks before (statements tokens (n + 1)) ts (PocketScript.statements stop (n + 1) ts) := by
  rw [statements]
  refine (check_tracks hc ts).andThen ?_
  cases ts with
  | nil => exact (isAtEnd_tracks hc []).andThen (pure_tracks [] [])
  | cons t rest =>
      rw [PocketScript.statements]
      by_cases ht : t.kind = .rightBrace
      · rw [if_pos ht, nextIs_head ht]
        exact pure_tracks [] _
      · have hnext : nextIs .rightBrace (t :: rest) = false := beq_eq_false_iff_ne.mpr ht
        rw [if_neg ht, hnext]
        refine (isAtEnd_tracks hc (t :: rest)).andThen ?_
        refine .of_suffix fun hts => (here_tracks (t :: rest)).andThen ?_
        refine (h.statement (t :: rest)).bind fun s rest' hs => ?_
        have hlen := ((soundStatements stop n).statement hs).length_lt rfl
        exact .round ((h.statements rest').map _) hts hlen

end Blocks

theorem tracksStatements (hc : Course tokens before stop) (n : Nat) :
    TracksStatements tokens before stop n := by
  induction n with
  | zero => constructor <;> intros <;> exact starved_tracks _
  | succ n ih =>
      exact
        { statement := statement_tracks hc ih
          branch := branch_tracks hc ih
          block := block_tracks hc ih
          statements := statements_tracks hc ih }

/-- Walking through a program tracks reading it. -/
theorem program_tracks (hc : Course tokens before stop) (n : Nat) : ∀ ts : List Token,
    Tracks before (program tokens n) ts (PocketScript.program stop n ts) := by
  induction n with
  | zero => exact starved_tracks
  | succ n ih =>
      intro ts
      rw [program]
      refine (isAtEnd_tracks hc ts).andThen ?_
      cases ts with
      | nil => exact pure_tracks [] []
      | cons t rest =>
          refine .of_suffix fun hts => (here_tracks (t :: rest)).andThen ?_
          refine ((tracksStatements hc n).statement (t :: rest)).bind fun s rest' hs => ?_
          have hlen := ((soundStatements stop n).statement hs).length_lt rfl
          exact .round ((ih rest').map _) hts hlen

/-- The tokens that are walked through begin with those that were given. -/
theorem completed_toList (ts : List Token) : ∃ more, (completed ts).toList = ts ++ more := by
  rw [completed]
  cases hlast : ts.getLast? with
  | none => exact ⟨[.endAt .start], by rw [List.getLast?_eq_none_iff.mp hlast]; rfl⟩
  | some t =>
      simp only
      split
      · exact ⟨[], by simp⟩
      · exact ⟨[.endAt t.pos], by simp⟩

/-- Where none of the tokens ends the input, one that does is added. -/
theorem completed_of_no_end (hts : ∀ t ∈ ts, t.isEnd = false) :
    (completed ts).toList = ts ++ [endToken ts] := by
  have hfind : ts.find? Token.isEnd = none :=
    List.find?_eq_none.mpr fun t ht => by simp [hts t ht]
  rw [completed, endToken, hfind]
  cases hlast : ts.getLast? with
  | none => rw [List.getLast?_eq_none_iff.mp hlast]; rfl
  | some t => simp [hts t (List.mem_of_getLast? hlast)]

/-- What stands before the first token that ends the input can be told without
    what stands behind any token that does. -/
theorem beforeEnd_append_end (ts rest : List Token) (ht : t.isEnd = true) :
    Token.beforeEnd (ts ++ t :: rest) = Token.beforeEnd ts := by
  induction ts with
  | nil => exact List.takeWhile_cons_of_neg (by rw [ht]; decide)
  | cons u ts ih =>
      rw [Token.beforeEnd] at ih ⊢
      rw [List.cons_append, List.takeWhile_cons, Token.beforeEnd, List.takeWhile_cons, ih]
      rfl

theorem course_completed (ts : List Token) :
    Course (completed ts) (Token.beforeEnd ts) (endToken ts) := by
  cases hfind : ts.find? Token.isEnd with
  | some t =>
      rcases List.find?_eq_some_iff_append.mp hfind with ⟨ht, us, vs, hts, hus⟩
      have hus' : ∀ u ∈ us, u.isEnd = false := by simpa using hus
      rcases completed_toList ts with ⟨more, hmore⟩
      have hbefore : Token.beforeEnd ts = us := by
        rw [hts, beforeEnd_append_end us vs ht, Token.beforeEnd_of_no_end hus']
      rw [hbefore, endToken, hfind]
      refine ⟨⟨vs ++ more, ?_⟩, hus', ht⟩
      rw [hmore, hts, List.append_assoc, List.cons_append]
  | none =>
      have hnone : ∀ t ∈ ts, t.isEnd = false := by simpa using hfind
      rw [Token.beforeEnd_of_no_end hnone]
      exact ⟨⟨[], completed_of_no_end hnone⟩, hnone, isEnd_endToken ts⟩

end Cursor

/-- The rest of the input is not looked at once it has ended. -/
theorem parse_append_end (ts us : List Token) {stop : Token} (hstop : stop.isEnd = true) :
    parse (ts ++ stop :: us) = parse (ts ++ [stop]) := by
  have hend (vs : List Token) :
      endToken (ts ++ stop :: vs) = ((ts.find? Token.isEnd).getD stop) := by
    rw [endToken, List.find?_append, List.find?_cons_of_pos hstop]
    cases ts.find? Token.isEnd <;> rfl
  rw [parse, parse, ← Token.beforeEnd, ← Token.beforeEnd, Cursor.beforeEnd_append_end ts us hstop,
    Cursor.beforeEnd_append_end ts [] hstop, hend us, hend []]

open Cursor in
/-- Parsing with a cursor is safe on every list of tokens, whether and wherever
    there are tokens in it that end the input. With any counter that is large
    enough the walk has no mishap: no look is out of range, no token that ends
    the input is left, no loop goes round without taking a token, and the counter
    is not used up. What it parses is what `parse` does, it never gets past the
    first token that ends the input, and nothing behind that token matters. -/
theorem cursor_parses_safely (ts : List Token) {fuel : Nat}
    (hfuel : descentBound (Token.beforeEnd ts) ≤ fuel) :
    parsed? (walk fuel ts) = some (parse ts) ∧
      (ending (walk fuel ts)).current ≤ (Token.beforeEnd ts).length ∧
      ∀ us stop vs, ts = us ++ stop :: vs → stop.isEnd = true → parse ts = parse (us ++ [stop]) := by
  have hlands := program_tracks (course_completed ts) fuel (Token.beforeEnd ts)
    (List.suffix_refl _) []
  rw [program_of_descentBound_le _ hfuel, Nat.sub_self] at hlands
  have hfed := program_fed (endToken ts) (Token.beforeEnd ts)
  have hrest : ∀ us stop vs, ts = us ++ stop :: vs → stop.isEnd = true →
      parse ts = parse (us ++ [stop]) := fun us stop vs hts hstop => by
    rw [hts]
    exact parse_append_end us vs hstop
  have hwalk : walk fuel ts = Cursor.program (completed ts) fuel ⟨0, []⟩ := rfl
  rw [← hwalk] at hlands
  generalize hparse : PocketScript.program (endToken ts) (descentBound (Token.beforeEnd ts))
    (Token.beforeEnd ts) = r at hlands hfed
  generalize walk fuel ts = x at hlands
  cases hlands with
  | done hsuffix =>
      exact ⟨by rw [parse, ← Token.beforeEnd, hparse]; rfl, Nat.sub_le _ _, hrest⟩
  | failed hi => exact ⟨by rw [parse, ← Token.beforeEnd, hparse]; rfl, hi, hrest⟩
  | starved => exact absurd rfl hfed

open Cursor in
/-- The tokens of `x=a-2*c("s",0)-d;` are walked through up to their end, which is
    not the last of them. -/
theorem ladder_walk_is_safe :
    descentBound (Token.beforeEnd ladderTokens) ≤ 700 ∧
      parsed? (walk 700 ladderTokens) = some ⟨.ok ladderProgram, []⟩ ∧
      (ending (walk 700 ladderTokens)).current ≤ 15 ∧
      parse ladderTokens = parse (ladderTokens.take 16) := by
  have hfuel : descentBound (Token.beforeEnd ladderTokens) ≤ 700 := by decide
  have hsafe := cursor_parses_safely ladderTokens hfuel
  have hparse : parse ladderTokens = ⟨.ok ladderProgram, []⟩ := rfl
  refine ⟨hfuel, hsafe.1.trans (congrArg some hparse), hsafe.2.1, ?_⟩
  exact hsafe.2.2 (ladderTokens.take 15) (.endAt ⟨1, 18⟩) [byteToken .rightBrace 125 18] rfl rfl

end PocketScript
