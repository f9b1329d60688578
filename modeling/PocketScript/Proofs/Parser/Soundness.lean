import PocketScript.Proofs.Grammar
import PocketScript.Proofs.Parser.Reading

/-!
# Soundness of the parser

Whatever the parser reads, the grammar derives.

A reader takes tokens off the front of a list, so what it read is the
difference between the list it was given and the list it left. `Reads` says
that this difference derives the form. The readers call each other with a
smaller counter, and the proof is an induction on the counter with one field
of `SoundExpressions` or `SoundStatements` for each reader: the step lemmas
assume all of them one counter below.

Two readers go on with something that was read before. For them soundness
says what they do to every derivation of that beginning: `links` turns a chain
into a longer chain, `calls` a callee into a call.

A target is looked at after it was read. That the looked-at tree is a bare
name says by `Grammar.Derives.reference` that it was a single identifier,
which is what the productions ask for.

## Main definitions

* `Reads`: The tokens taken derive the form.
* `SoundExpressions`, `SoundStatements`: All readers are sound with a counter.

## Theorems

* `soundExpressions`, `soundStatements`: They are, with every counter.
* `program_sound`: What is read as a program derives it.
-/

namespace PocketScript

open Grammar Reading

/-- The tokens taken off the front of a list derive a form. -/
def Reads (f : Form) (ts : List Token) (tree : f.Tree) (rest : List Token) : Prop :=
  ∃ us, ts = us ++ rest ∧ Derives f us tree

/-- With this counter, what is read as an expression is derived. -/
structure SoundExpressions (stop : Token) (n : Nat) : Prop where
  expression : ∀ {ts e rest}, (expression stop n ts).Gives e rest → Reads .assignment ts e rest
  chain : ∀ {r ts e rest}, (chain stop n r ts).Gives e rest → Reads (.chain r) ts e rest
  links : ∀ {r left ts e rest}, (links stop n r left ts).Gives e rest →
    ∃ us, ts = us ++ rest ∧ ∀ vs, Derives (.chain r) vs left → Derives (.chain r) (vs ++ us) e
  operand : ∀ {r ts e rest}, (operand stop n r ts).Gives e rest → Reads (.operand r) ts e rest
  signed : ∀ {ts e rest}, (signed stop n ts).Gives e rest → Reads .unary ts e rest
  stepped : ∀ {ts e rest}, (stepped stop n ts).Gives e rest → Reads .prefixed ts e rest
  called : ∀ {ts e rest}, (called stop n ts).Gives e rest → Reads .called ts e rest
  calls : ∀ {f ts e rest}, (calls stop n f ts).Gives e rest →
    ∃ us, ts = us ++ rest ∧ ∀ vs, Derives .called vs f → Derives .called (vs ++ us) e
  arguments : ∀ {count ts es rest}, (arguments stop n count ts).Gives es rest →
    Reads .listed ts es rest
  suffixed : ∀ {ts e rest}, (suffixed stop n ts).Gives e rest → Reads .suffixed ts e rest
  primary : ∀ {ts e rest}, (primary stop n ts).Gives e rest → Reads .primary ts e rest

section Expressions

variable {stop : Token} {n : Nat}

theorem expression_sound (h : SoundExpressions stop n) {ts rest : List Token} {e : Expr}
    (hg : (expression stop (n + 1) ts).Gives e rest) : Reads .assignment ts e rest := by
  rw [expression, andThen_gives] at hg
  rcases hg with ⟨left, mid, hl, hg⟩
  rcases h.chain hl with ⟨us, rfl, hus⟩
  cases mid with
  | nil =>
      rcases (done_gives _ _ _ _ _).mp hg with ⟨rfl, rfl⟩
      exact ⟨us, rfl, .value hus⟩
  | cons op mid =>
      simp only at hg
      by_cases ha : op.kind = .assign
      · -- The target was read as any operand is. It passes the check only as a
        -- reference, and then it was a single name and nothing else.
        rw [if_pos ha] at hg
        cases left with
        | reference name =>
            rcases (map_gives _ _ _ _).mp hg with ⟨v, hv, rfl⟩
            rcases h.expression hv with ⟨vs, rfl, hvs⟩
            rcases hus.reference name rfl with ⟨rfl, hn⟩
            exact ⟨name :: op :: vs, rfl, .assign hn ha hvs⟩
        | _ => exact absurd hg (failed_gives _ _ _ _)
      · rw [if_neg ha] at hg
        by_cases hc : op.kind ∈ compounds
        · rw [if_pos hc] at hg
          cases left with
          | reference name =>
              rcases (map_gives _ _ _ _).mp hg with ⟨v, hv, rfl⟩
              rcases h.expression hv with ⟨vs, rfl, hvs⟩
              rcases hus.reference name rfl with ⟨rfl, hn⟩
              exact ⟨name :: op :: vs, rfl, .augmented hn hc hvs⟩
          | _ => exact absurd hg (failed_gives _ _ _ _)
        · rw [if_neg hc] at hg
          rcases (done_gives _ _ _ _ _).mp hg with ⟨rfl, rfl⟩
          exact ⟨us, rfl, .value hus⟩

theorem chain_sound (h : SoundExpressions stop n) {r : Rung} {ts rest : List Token} {e : Expr}
    (hg : (chain stop (n + 1) r ts).Gives e rest) : Reads (.chain r) ts e rest := by
  rw [chain, andThen_gives] at hg
  rcases hg with ⟨left, mid, hl, hg⟩
  rcases h.operand hl with ⟨us, rfl, hus⟩
  rcases h.links hg with ⟨vs, rfl, hvs⟩
  exact ⟨us ++ vs, (List.append_assoc _ _ _).symm, hvs us (.single hus)⟩

theorem links_sound (h : SoundExpressions stop n) {r : Rung} {left : Expr}
    {ts rest : List Token} {e : Expr} (hg : (links stop (n + 1) r left ts).Gives e rest) :
    ∃ us, ts = us ++ rest ∧ ∀ vs, Derives (.chain r) vs left → Derives (.chain r) (vs ++ us) e := by
  cases ts with
  | nil =>
      rcases (done_gives _ _ _ _ _).mp hg with ⟨rfl, rfl⟩
      exact ⟨[], rfl, fun vs hvs => by rwa [List.append_nil]⟩
  | cons op ts =>
      rw [links] at hg
      by_cases hop : op.kind ∈ r.operators
      · rw [if_pos hop, andThen_gives] at hg
        rcases hg with ⟨right, mid, hr, hg⟩
        rcases h.operand hr with ⟨us, rfl, hus⟩
        rcases h.links hg with ⟨ws, rfl, hws⟩
        refine ⟨op :: us ++ ws, by simp only [List.cons_append, List.append_assoc],
          fun vs hvs => ?_⟩
        rw [← List.append_assoc]
        exact hws _ (hvs.link hop hus)
      · rw [if_neg hop] at hg
        rcases (done_gives _ _ _ _ _).mp hg with ⟨rfl, rfl⟩
        exact ⟨[], rfl, fun vs hvs => by rwa [List.append_nil]⟩

theorem operand_sound (h : SoundExpressions stop n) {r : Rung} {ts rest : List Token} {e : Expr}
    (hg : (operand stop (n + 1) r ts).Gives e rest) : Reads (.operand r) ts e rest := by
  rw [operand] at hg
  cases hr : r.above with
  | some next =>
      rw [hr] at hg
      rcases h.chain hg with ⟨us, rfl, hus⟩
      exact ⟨us, rfl, .tighter (tighter_iff.mpr hr) hus⟩
  | none =>
      rw [hr] at hg
      rcases h.signed hg with ⟨us, rfl, hus⟩
      cases r with
      | factor => exact ⟨us, rfl, .tightest hus⟩
      | _ => cases hr

theorem signed_sound (h : SoundExpressions stop n) {ts rest : List Token} {e : Expr}
    (hg : (signed stop (n + 1) ts).Gives e rest) : Reads .unary ts e rest := by
  have hplain : (stepped stop n ts).Gives e rest → Reads .unary ts e rest := by
    intro hp
    rcases h.stepped hp with ⟨us, rfl, hus⟩
    exact ⟨us, rfl, .unsigned hus⟩
  cases ts with
  | nil => exact hplain hg
  | cons op ts =>
      rw [signed] at hg
      by_cases hop : op.kind ∈ signs
      · rw [if_pos hop] at hg
        rcases (map_gives _ _ _ _).mp hg with ⟨v, hv, rfl⟩
        rcases h.signed hv with ⟨us, rfl, hus⟩
        exact ⟨op :: us, rfl, .sign hop hus⟩
      · rw [if_neg hop] at hg
        exact hplain hg

theorem stepped_sound (h : SoundExpressions stop n) {ts rest : List Token} {e : Expr}
    (hg : (stepped stop (n + 1) ts).Gives e rest) : Reads .prefixed ts e rest := by
  have hplain : (called stop n ts).Gives e rest → Reads .prefixed ts e rest := by
    intro hp
    rcases h.called hp with ⟨us, rfl, hus⟩
    exact ⟨us, rfl, .unstepped hus⟩
  cases ts with
  | nil => exact hplain hg
  | cons op ts =>
      rw [stepped] at hg
      by_cases hop : op.kind ∈ steps
      · rw [if_pos hop, andThen_gives] at hg
        rcases hg with ⟨v, mid, hv, hg⟩
        rcases h.called hv with ⟨us, rfl, hus⟩
        cases v with
        | reference name =>
            rcases (done_gives _ _ _ _ _).mp hg with ⟨rfl, rfl⟩
            rcases hus.reference name rfl with ⟨rfl, hn⟩
            exact ⟨[op, name], rfl, .stepBefore hop hn⟩
        | _ => exact absurd hg (failed_gives _ _ _ _)
      · rw [if_neg hop] at hg
        exact hplain hg

theorem called_sound (h : SoundExpressions stop n) {ts rest : List Token} {e : Expr}
    (hg : (called stop (n + 1) ts).Gives e rest) : Reads .called ts e rest := by
  rw [called, andThen_gives] at hg
  rcases hg with ⟨f, mid, hf, hg⟩
  rcases h.suffixed hf with ⟨us, rfl, hus⟩
  rcases h.calls hg with ⟨vs, rfl, hvs⟩
  exact ⟨us ++ vs, (List.append_assoc _ _ _).symm, hvs us (.callee hus)⟩

theorem calls_sound (h : SoundExpressions stop n) {f : Expr} {ts rest : List Token} {e : Expr}
    (hg : (calls stop (n + 1) f ts).Gives e rest) :
    ∃ us, ts = us ++ rest ∧ ∀ vs, Derives .called vs f → Derives .called (vs ++ us) e := by
  cases ts with
  | nil =>
      rcases (done_gives _ _ _ _ _).mp hg with ⟨rfl, rfl⟩
      exact ⟨[], rfl, fun vs hvs => by rwa [List.append_nil]⟩
  | cons left ts =>
      rw [calls] at hg
      by_cases hleft : left.kind = .leftParen
      · rw [if_pos hleft, andThen_gives] at hg
        rcases hg with ⟨args, mid, ha, hg⟩
        have hargs : Reads .arguments ts args mid := by
          by_cases hnext : nextIs .rightParen ts = true
          · rw [if_pos hnext] at ha
            rcases (done_gives _ _ _ _ _).mp ha with ⟨rfl, rfl⟩
            exact ⟨[], rfl, .noArguments⟩
          · rw [if_neg hnext] at ha
            rcases h.arguments ha with ⟨us, rfl, hus⟩
            exact ⟨us, rfl, .someArguments hus⟩
        rcases hargs with ⟨us, rfl, hus⟩
        rcases (andThen_gives _ _ _ _).mp hg with ⟨right, mid', hr, hcalls⟩
        rcases (expect_gives _ _ _ _ _ _).mp hr with ⟨rfl, hright⟩
        rcases h.calls hcalls with ⟨ws, rfl, hws⟩
        -- What was read so far, with this call, is the callee of the calls to come.
        refine ⟨left :: (us ++ [right]) ++ ws, by simp, fun vs hvs => ?_⟩
        rw [← List.append_assoc]
        exact hws _ (.call hvs hleft hus hright)
      · rw [if_neg hleft] at hg
        rcases (done_gives _ _ _ _ _).mp hg with ⟨rfl, rfl⟩
        exact ⟨[], rfl, fun vs hvs => by rwa [List.append_nil]⟩

theorem arguments_sound (h : SoundExpressions stop n) {count : Nat} {ts rest : List Token}
    {es : List Expr} (hg : (arguments stop (n + 1) count ts).Gives es rest) :
    Reads .listed ts es rest := by
  rw [arguments, noting_gives, andThen_gives] at hg
  rcases hg with ⟨e, mid, he, hg⟩
  rcases h.expression he with ⟨us, rfl, hus⟩
  cases mid with
  | nil =>
      rcases (done_gives _ _ _ _ _).mp hg with ⟨rfl, rfl⟩
      exact ⟨us, rfl, .lastExpression hus⟩
  | cons comma mid =>
      simp only at hg
      by_cases hc : comma.kind = .comma
      · rw [if_pos hc] at hg
        rcases (map_gives _ _ _ _).mp hg with ⟨more, hmore, rfl⟩
        rcases h.arguments hmore with ⟨vs, rfl, hvs⟩
        exact ⟨us ++ comma :: vs, by simp, .nextExpression hus hc hvs⟩
      · rw [if_neg hc] at hg
        rcases (done_gives _ _ _ _ _).mp hg with ⟨rfl, rfl⟩
        exact ⟨us, rfl, .lastExpression hus⟩

theorem suffixed_sound (h : SoundExpressions stop n) {ts rest : List Token} {e : Expr}
    (hg : (suffixed stop (n + 1) ts).Gives e rest) : Reads .suffixed ts e rest := by
  rw [suffixed, andThen_gives] at hg
  rcases hg with ⟨v, mid, hv, hg⟩
  rcases h.primary hv with ⟨us, rfl, hus⟩
  cases mid with
  | nil =>
      rcases (done_gives _ _ _ _ _).mp hg with ⟨rfl, rfl⟩
      exact ⟨us, rfl, .bare hus⟩
  | cons op mid =>
      simp only at hg
      by_cases hop : op.kind ∈ steps
      · rw [if_pos hop] at hg
        cases v with
        | reference name =>
            rcases (done_gives _ _ _ _ _).mp hg with ⟨rfl, rfl⟩
            rcases hus.reference name rfl with ⟨rfl, hn⟩
            exact ⟨[name, op], rfl, .stepAfter hop hn⟩
        | _ => exact absurd hg (failed_gives _ _ _ _)
      · rw [if_neg hop] at hg
        rcases (done_gives _ _ _ _ _).mp hg with ⟨rfl, rfl⟩
        exact ⟨us, rfl, .bare hus⟩

theorem primary_sound (h : SoundExpressions stop n) {ts rest : List Token} {e : Expr}
    (hg : (primary stop (n + 1) ts).Gives e rest) : Reads .primary ts e rest := by
  cases ts with
  | nil => exact absurd hg (failed_gives _ _ _ _)
  | cons t ts =>
      rw [primary] at hg
      by_cases hk : t.kind ∈ constants
      · rw [if_pos hk] at hg
        rcases (done_gives _ _ _ _ _).mp hg with ⟨rfl, rfl⟩
        exact ⟨[t], rfl, .constant (denotes_iff.mpr ⟨hk, rfl⟩)⟩
      · rw [if_neg hk] at hg
        by_cases hn : t.kind = .identifier
        · rw [if_pos hn] at hg
          rcases (done_gives _ _ _ _ _).mp hg with ⟨rfl, rfl⟩
          exact ⟨[t], rfl, .name hn⟩
        · rw [if_neg hn] at hg
          by_cases hl : t.kind = .leftParen
          · rw [if_pos hl, andThen_gives] at hg
            rcases hg with ⟨inner, mid, hi, hg⟩
            rcases h.expression hi with ⟨us, rfl, hus⟩
            rcases (map_gives _ _ _ _).mp hg with ⟨right, hr, rfl⟩
            rcases (expect_gives _ _ _ _ _ _).mp hr with ⟨rfl, hright⟩
            exact ⟨t :: (us ++ [right]), by simp, .grouping hl hus hright⟩
          · rw [if_neg hl] at hg
            exact absurd hg (failed_gives _ _ _ _)

end Expressions

/-- Every counter is sound for expressions. With none left nothing is read. -/
theorem soundExpressions (stop : Token) (n : Nat) : SoundExpressions stop n := by
  induction n with
  | zero => constructor <;> intros <;> rename_i hg <;> exact absurd hg (starved_gives _ _)
  | succ n ih =>
      exact
        { expression := expression_sound ih
          chain := chain_sound ih
          links := links_sound ih
          operand := operand_sound ih
          signed := signed_sound ih
          stepped := stepped_sound ih
          called := called_sound ih
          calls := calls_sound ih
          arguments := arguments_sound ih
          suffixed := suffixed_sound ih
          primary := primary_sound ih }

section Parts

variable {stop : Token} {n : Nat}

theorem names_sound {detail : Text} {remarks : Nat → Token → List GrammarFault}
    {ts : List Token} : ∀ {count : Nat} {names rest : List Token},
    (Reading.names stop detail remarks count ts).Gives names rest → Reads .named ts names rest := by
  intro count names rest hg
  fun_induction Reading.names stop detail remarks count ts generalizing names with
  | case1 count => exact absurd hg (failed_gives _ _ _ _)
  | case2 count t ht c ts hc ih =>
      rw [noting_gives, map_gives] at hg
      rcases hg with ⟨more, hmore, rfl⟩
      rcases ih hmore with ⟨us, rfl, hus⟩
      exact ⟨t :: c :: us, rfl, .nextName ht hc hus⟩
  | case3 count t ht c ts hc =>
      rcases (done_gives _ _ _ _ _).mp hg with ⟨rfl, rfl⟩
      exact ⟨[t], rfl, .lastName ht⟩
  | case4 count t ht =>
      rcases (done_gives _ _ _ _ _).mp hg with ⟨rfl, rfl⟩
      exact ⟨[t], rfl, .lastName ht⟩
  | case5 count t ts ht => exact absurd hg (failed_gives _ _ _ _)

theorem parameters_sound {ts params rest : List Token}
    (hg : (parameters stop ts).Gives params rest) :
    ∃ us right, ts = us ++ right :: rest ∧ Derives .parameters us params ∧
      right.kind = .rightParen := by
  rw [parameters, andThen_gives] at hg
  rcases hg with ⟨names, mid, hn, hg⟩
  rcases (map_gives _ _ _ _).mp hg with ⟨right, hr, rfl⟩
  rcases (expect_gives _ _ _ _ _ _).mp hr with ⟨rfl, hright⟩
  by_cases hnext : nextIs .rightParen ts = true
  · rw [if_pos hnext] at hn
    rcases (done_gives _ _ _ _ _).mp hn with ⟨rfl, rfl⟩
    exact ⟨[], right, rfl, .noParameters, hright⟩
  · rw [if_neg hnext] at hn
    rcases names_sound hn with ⟨us, rfl, hus⟩
    exact ⟨us, right, rfl, .someParameters hus, hright⟩

theorem terminated_sound {detail : Text} {ts rest : List Token} {e : Expr}
    (hg : (terminated stop n detail ts).Gives e rest) :
    ∃ us semicolon, ts = us ++ semicolon :: rest ∧ Derives .assignment us e ∧
      semicolon.kind = .semicolon := by
  rw [terminated, andThen_gives] at hg
  rcases hg with ⟨v, mid, hv, hg⟩
  rcases (soundExpressions stop n).expression hv with ⟨us, rfl, hus⟩
  rcases (map_gives _ _ _ _).mp hg with ⟨semicolon, hs, rfl⟩
  rcases (expect_gives _ _ _ _ _ _).mp hs with ⟨rfl, hsemi⟩
  exact ⟨us, semicolon, rfl, hus, hsemi⟩

theorem giveBack_sound {keyword : Token} {ts rest : List Token} {s : Stmt}
    (hk : keyword.kind = .returnWord) (hg : (giveBack stop n keyword ts).Gives s rest) :
    Reads .statement (keyword :: ts) s rest := by
  rw [giveBack] at hg
  by_cases hnext : nextIs .semicolon ts = true
  · rw [if_pos hnext, map_gives] at hg
    rcases hg with ⟨semicolon, hs, rfl⟩
    rcases (expect_gives _ _ _ _ _ _).mp hs with ⟨rfl, hsemi⟩
    exact ⟨[keyword, semicolon], rfl, .giveBackNothing hk hsemi⟩
  · rw [if_neg hnext, map_gives] at hg
    rcases hg with ⟨e, he, rfl⟩
    rcases terminated_sound he with ⟨us, semicolon, rfl, hus, hsemi⟩
    exact ⟨keyword :: (us ++ [semicolon]), by simp, .giveBack hk hus hsemi⟩

theorem delete_sound {keyword : Token} {ts rest : List Token} {s : Stmt}
    (hk : keyword.kind = .delWord) (hg : (delete stop keyword ts).Gives s rest) :
    Reads .statement (keyword :: ts) s rest := by
  rw [delete, andThen_gives] at hg
  rcases hg with ⟨targets, mid, ht, hg⟩
  rcases names_sound ht with ⟨us, rfl, hus⟩
  rcases (map_gives _ _ _ _).mp hg with ⟨semicolon, hs, rfl⟩
  rcases (expect_gives _ _ _ _ _ _).mp hs with ⟨rfl, hsemi⟩
  exact ⟨keyword :: (us ++ [semicolon]), by simp, .delete hk hus hsemi⟩

end Parts

/-- With this counter, what is read as statements is derived. -/
structure SoundStatements (stop : Token) (n : Nat) : Prop where
  statement : ∀ {ts s rest}, (statement stop n ts).Gives s rest → Reads .statement ts s rest
  branch : ∀ {keyword ts s rest}, keyword.kind = .ifWord →
    (branch stop n keyword ts).Gives s rest → Reads .conditional (keyword :: ts) s rest
  block : ∀ {context ts body rest}, (block stop n context ts).Gives body rest →
    Reads .block ts body rest
  statements : ∀ {ts body rest}, (statements stop n ts).Gives body rest →
    Reads .statements ts body rest

section Statements

variable {stop : Token} {n : Nat}

theorem expressionStatement_sound {detail : Text} {ts rest : List Token} {s : Stmt}
    (hg : ((terminated stop n detail ts).map Stmt.expression).Gives s rest) :
    Reads .statement ts s rest := by
  rcases (map_gives _ _ _ _).mp hg with ⟨e, he, rfl⟩
  rcases terminated_sound he with ⟨us, semicolon, rfl, hus, hsemi⟩
  exact ⟨us ++ [semicolon], by simp, .expression hus hsemi⟩

theorem functionStatement_sound (h : SoundStatements stop n) {keyword : Token}
    {ts rest : List Token} {s : Stmt} (hk : keyword.kind = .funcWord)
    (hg : (statement stop (n + 1) (keyword :: ts)).Gives s rest) :
    Reads .statement (keyword :: ts) s rest := by
  simp only [statement, hk, andThen_gives, map_gives, expect_gives] at hg
  rcases hg with ⟨name, _, ⟨rfl, hname⟩, left, _, ⟨rfl, hleft⟩, params, mid, hp, body, hb, rfl⟩
  rcases parameters_sound hp with ⟨us, right, rfl, hus, hright⟩
  rcases h.block hb with ⟨vs, rfl, hvs⟩
  exact ⟨keyword :: name :: left :: (us ++ right :: vs), by simp,
    .function hk hname hleft hus hright hvs⟩

theorem loopStatement_sound (h : SoundStatements stop n) {keyword : Token}
    {ts rest : List Token} {s : Stmt} (hk : keyword.kind = .whileWord)
    (hg : (statement stop (n + 1) (keyword :: ts)).Gives s rest) :
    Reads .statement (keyword :: ts) s rest := by
  simp only [statement, hk, andThen_gives, map_gives] at hg
  rcases hg with ⟨condition, mid, hc, body, hb, rfl⟩
  rcases (soundExpressions stop n).expression hc with ⟨us, rfl, hus⟩
  rcases h.block hb with ⟨vs, rfl, hvs⟩
  exact ⟨keyword :: (us ++ vs), by simp, .loop hk hus hvs⟩

/-- The keyword in front decides the form. Without one of the keywords the
    statement is an expression. -/
theorem statement_sound (h : SoundStatements stop n) {ts rest : List Token} {s : Stmt}
    (hg : (statement stop (n + 1) ts).Gives s rest) : Reads .statement ts s rest := by
  cases ts with
  | nil => exact expressionStatement_sound hg
  | cons t ts =>
      rw [statement] at hg
      split at hg
      case h_1 hk => exact functionStatement_sound h hk (by rw [statement]; simpa only [hk] using hg)
      case h_2 hk => exact giveBack_sound hk hg
      case h_3 hk => exact delete_sound hk hg
      case h_4 hk => exact loopStatement_sound h hk (by rw [statement]; simpa only [hk] using hg)
      case h_5 hk =>
          rcases h.branch hk hg with ⟨us, hus, hd⟩
          exact ⟨us, hus, .conditional hd⟩
      case h_6 hk =>
          rcases (map_gives _ _ _ _).mp hg with ⟨e, he, rfl⟩
          rcases terminated_sound he with ⟨us, semicolon, rfl, hus, hsemi⟩
          exact ⟨t :: (us ++ [semicolon]), by simp, .echo hk hus hsemi⟩
      case h_7 hk =>
          rcases (map_gives _ _ _ _).mp hg with ⟨semicolon, hs, rfl⟩
          rcases (expect_gives _ _ _ _ _ _).mp hs with ⟨rfl, hsemi⟩
          exact ⟨[t, semicolon], rfl, .leave hk hsemi⟩
      case h_8 hk =>
          rcases (map_gives _ _ _ _).mp hg with ⟨semicolon, hs, rfl⟩
          rcases (expect_gives _ _ _ _ _ _).mp hs with ⟨rfl, hsemi⟩
          exact ⟨[t, semicolon], rfl, .next hk hsemi⟩
      case h_9 => exact expressionStatement_sound hg

theorem branch_sound (h : SoundStatements stop n) {keyword : Token} {ts rest : List Token}
    {s : Stmt} (hk : keyword.kind = .ifWord)
    (hg : (branch stop (n + 1) keyword ts).Gives s rest) :
    Reads .conditional (keyword :: ts) s rest := by
  rw [branch, andThen_gives] at hg
  rcases hg with ⟨condition, mid, hc, hg⟩
  rcases (soundExpressions stop n).expression hc with ⟨us, rfl, hus⟩
  rcases (andThen_gives _ _ _ _).mp hg with ⟨body, mid', hb, helse⟩
  rcases h.block hb with ⟨vs, rfl, hvs⟩
  have hnone : Reads .conditional (keyword :: (us ++ (vs ++ mid')))
      (Stmt.branch keyword condition body none) mid' :=
    ⟨keyword :: (us ++ vs), by simp, .branch hk hus hvs⟩
  cases mid' with
  | nil =>
      rcases (done_gives _ _ _ _ _).mp helse with ⟨rfl, rfl⟩
      exact hnone
  | cons otherwise tail =>
      simp only at helse
      by_cases ho : otherwise.kind = .elseWord
      · rw [if_pos ho] at helse
        -- A block follows unless the next token is there and is another if.
        have hblock : ∀ {r}, ((block stop n "else body" tail).map
            fun alternate => Stmt.branch keyword condition body (some alternate)).Gives s r →
            Reads .conditional (keyword :: (us ++ (vs ++ otherwise :: tail))) s r := by
          intro r hr
          rcases (map_gives _ _ _ _).mp hr with ⟨alternate, ha, rfl⟩
          rcases h.block ha with ⟨ws, rfl, hws⟩
          exact ⟨keyword :: (us ++ (vs ++ otherwise :: ws)), by simp,
            .branchElse hk hus hvs ho hws⟩
        cases tail with
        | nil => exact hblock helse
        | cons i tail =>
            simp only at helse
            by_cases hi : i.kind = .ifWord
            · rw [if_pos hi, map_gives] at helse
              rcases helse with ⟨nested, hnested, rfl⟩
              rcases h.branch hi hnested with ⟨ws, hws, hd⟩
              refine ⟨keyword :: (us ++ (vs ++ otherwise :: ws)), ?_,
                .branchElseIf hk hus hvs ho hd⟩
              rw [hws]
              simp
            · rw [if_neg hi] at helse
              exact hblock helse
      · rw [if_neg ho] at helse
        rcases (done_gives _ _ _ _ _).mp helse with ⟨rfl, rfl⟩
        exact hnone

theorem block_sound (h : SoundStatements stop n) {context : Text} {ts rest : List Token}
    {body : List Stmt} (hg : (block stop (n + 1) context ts).Gives body rest) :
    Reads .block ts body rest := by
  rw [block, andThen_gives] at hg
  rcases hg with ⟨left, mid, hl, hg⟩
  rcases (expect_gives _ _ _ _ _ _).mp hl with ⟨rfl, hleft⟩
  rcases (andThen_gives _ _ _ _).mp hg with ⟨inner, mid', hi, hclose⟩
  rcases h.statements hi with ⟨us, rfl, hus⟩
  rcases (map_gives _ _ _ _).mp hclose with ⟨right, hr, rfl⟩
  rcases (expect_gives _ _ _ _ _ _).mp hr with ⟨rfl, hright⟩
  exact ⟨left :: (us ++ [right]), by simp, .block hleft hus hright⟩

theorem statements_sound (h : SoundStatements stop n) {ts rest : List Token}
    {body : List Stmt} (hg : (statements stop (n + 1) ts).Gives body rest) :
    Reads .statements ts body rest := by
  cases ts with
  | nil =>
      rcases (done_gives _ _ _ _ _).mp hg with ⟨rfl, rfl⟩
      exact ⟨[], rfl, .noStatements⟩
  | cons t ts =>
      rw [statements] at hg
      by_cases ht : t.kind = .rightBrace
      · rw [if_pos ht] at hg
        rcases (done_gives _ _ _ _ _).mp hg with ⟨rfl, rfl⟩
        exact ⟨[], rfl, .noStatements⟩
      · rw [if_neg ht, andThen_gives] at hg
        rcases hg with ⟨s, mid, hs, hg⟩
        rcases h.statement hs with ⟨us, hts, hus⟩
        rcases (map_gives _ _ _ _).mp hg with ⟨more, hmore, rfl⟩
        rcases h.statements hmore with ⟨vs, rfl, hvs⟩
        exact ⟨us ++ vs, by rw [hts, List.append_assoc], .nextStatement hus hvs⟩

end Statements

/-- Every counter is sound for statements. -/
theorem soundStatements (stop : Token) (n : Nat) : SoundStatements stop n := by
  induction n with
  | zero => constructor <;> intros <;> rename_i hg <;> exact absurd hg (starved_gives _ _)
  | succ n ih =>
      exact
        { statement := statement_sound ih
          branch := branch_sound ih
          block := block_sound ih
          statements := statements_sound ih }

/-- What is read as a program derives it, and nothing is left. -/
theorem program_sound {stop : Token} {n : Nat} : ∀ {ts rest : List Token} {p : List Stmt},
    (program stop n ts).Gives p rest → rest = [] ∧ Derives .statements ts p := by
  induction n with
  | zero => intro ts rest p hg; exact absurd hg (starved_gives _ _)
  | succ n ih =>
      intro ts rest p hg
      cases ts with
      | nil =>
          rcases (done_gives _ _ _ _ _).mp hg with ⟨rfl, rfl⟩
          exact ⟨rfl, .noStatements⟩
      | cons t ts =>
          rw [program, andThen_gives] at hg
          rcases hg with ⟨s, mid, hs, hg⟩
          rcases (soundStatements stop n).statement hs with ⟨us, hts, hus⟩
          rcases (map_gives _ _ _ _).mp hg with ⟨more, hmore, rfl⟩
          rcases ih hmore with ⟨rfl, hmid⟩
          exact ⟨rfl, by rw [hts]; exact .nextStatement hus hmid⟩

end PocketScript
