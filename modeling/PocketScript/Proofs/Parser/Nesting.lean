import Mathlib
import PocketScript.Proofs.Parser.Exact
import PocketScript.Proofs.Scanning.Gaps
import PocketScript.Session.Evaluate
import PocketScript.Session.Unfinished

/-!
# Brackets nest

A prompt asks for another line while more brackets are open than closed, and
it counts them without parsing anything. So it could keep asking for lines
when the input is a program already. It never does: in every list of tokens
that parses the brackets are closed in turn, each by its own kind, so as many
are closed as are opened.

The parser has no rule about brackets. They are part of the productions, two
at a time, and that is all there is to it: a production puts both brackets of
a pair around something that derives, or it has no brackets of its own. The
argument is therefore about derivations, and the parser comes in only because
it accepts nothing that does not derive.

`Grammar.Nested` is stronger than any count of brackets. `take_balanced` reads
the counts off it.

## Main definitions

* `Grammar.Brackets`: A bracket and the one that closes it.
* `Grammar.Nested`: Brackets are closed in turn.
* `Token.opens`, `Token.closes`: Is a token a bracket?

## Theorems

* `Grammar.Derives.nested`: Derivations nest their brackets.
* `Grammar.Nested.balanced`: As many brackets are closed as are opened.
* `Grammar.Nested.take_balanced`: On the way never more.
* `bracketDepth_eq`: What a prompt counts.
* `unfinished_input_is_refused`: A prompt holds back nothing that would run.
-/

namespace PocketScript

/-- Is this a bracket that opens something? -/
def Token.opens (t : Token) : Bool := t.kind == .leftParen || t.kind == .leftBrace

/-- Is this a bracket that closes something? -/
def Token.closes (t : Token) : Bool := t.kind == .rightParen || t.kind == .rightBrace

namespace Grammar

/-- A bracket and the one that closes it. -/
inductive Brackets : Kind → Kind → Prop where
  | parens : Brackets .leftParen .rightParen
  | braces : Brackets .leftBrace .rightBrace

/-- Every bracket is closed, by its own kind, after all that were opened
    inside it. -/
inductive Nested : List Token → Prop where
  | nil : Nested []
  | plain {t : Token} {ts : List Token} : t.opens = false → t.closes = false → Nested ts →
      Nested (t :: ts)
  | enclosed {left right : Token} {ts us : List Token} : Brackets left.kind right.kind →
      Nested ts → Nested us → Nested (left :: (ts ++ right :: us))

namespace Nested

theorem append {ts us : List Token} (h : Nested ts) (hus : Nested us) : Nested (ts ++ us) := by
  induction h with
  | nil => exact hus
  | plain hopens hcloses _ ih => exact .plain hopens hcloses ih
  | @enclosed left right vs ws hpair hvs _ _ ih =>
      have hassoc : left :: (vs ++ right :: ws) ++ us = left :: (vs ++ right :: (ws ++ us)) := by
        simp only [List.cons_append, List.append_assoc]
      rw [hassoc]
      exact .enclosed hpair hvs ih

/-- A token of a kind that is no bracket goes in front of anything. -/
theorem cons {ks : List Kind} {t : Token} {ts : List Token} (ht : t.kind ∈ ks)
    (hks : ∀ k ∈ ks, k ∉ [Kind.leftParen, .leftBrace, .rightParen, .rightBrace])
    (h : Nested ts) : Nested (t :: ts) := by
  have hplain := hks _ ht
  simp only [List.mem_cons, List.not_mem_nil, or_false, not_or] at hplain
  rcases hplain with ⟨hleftParen, hleftBrace, hrightParen, hrightBrace⟩
  refine .plain ?_ ?_ h
  · simp only [Token.opens, Bool.or_eq_false_iff, beq_eq_false_iff_ne]
    exact ⟨hleftParen, hleftBrace⟩
  · simp only [Token.closes, Bool.or_eq_false_iff, beq_eq_false_iff_ne]
    exact ⟨hrightParen, hrightBrace⟩

theorem cons_kind {k : Kind} {t : Token} {ts : List Token} (ht : t.kind = k)
    (hk : k ∉ [Kind.leftParen, .leftBrace, .rightParen, .rightBrace]) (h : Nested ts) :
    Nested (t :: ts) :=
  cons (List.mem_singleton.mpr ht) (fun l hl => by rw [List.mem_singleton.mp hl]; exact hk) h

theorem parens {left right : Token} {ts us : List Token} (hl : left.kind = .leftParen)
    (hr : right.kind = .rightParen) (hts : Nested ts) (hus : Nested us) :
    Nested (left :: (ts ++ right :: us)) :=
  .enclosed (by rw [hl, hr]; exact .parens) hts hus

end Nested

/-- Whatever derives nests its brackets. There is a case for each production:
    its tokens are plain, or are the two brackets of a pair with a derivation
    between them. -/
theorem Derives.nested {f : Form} {ts : List Token} {tree : f.Tree} (h : Derives f ts tree) :
    Nested ts := by
  induction h with
  | value _ ih => exact ih
  | assign hn hop _ ih => exact .cons_kind hn (by decide) (.cons_kind hop (by decide) ih)
  | augmented hn hop _ ih => exact .cons_kind hn (by decide) (.cons hop (by decide) ih)
  | single _ ih => exact ih
  | @logical rung _ _ _ _ _ _ _ hop _ ihl ihr =>
      exact ihl.append (.cons (joins_iff.mp hop) (by cases rung <;> decide) ihr)
  | @binary rung _ _ _ _ _ _ _ _ hop _ ihl ihr =>
      exact ihl.append (.cons (joins_iff.mp hop) (by cases rung <;> decide) ihr)
  | tighter _ _ ih => exact ih
  | tightest _ ih => exact ih
  | sign hop _ ih => exact .cons hop (by decide) ih
  | unsigned _ ih => exact ih
  | stepBefore hop hn => exact .cons hop (by decide) (.cons_kind hn (by decide) .nil)
  | unstepped _ ih => exact ih
  | callee _ ih => exact ih
  | call _ hl _ hr ihf ihargs => exact ihf.append (.parens hl hr ihargs .nil)
  | noArguments => exact .nil
  | someArguments _ ih => exact ih
  | lastExpression _ ih => exact ih
  | nextExpression _ hc _ ih ihmore => exact ih.append (.cons_kind hc (by decide) ihmore)
  | stepAfter hop hn => exact .cons_kind hn (by decide) (.cons hop (by decide) .nil)
  | bare _ ih => exact ih
  | constant h => exact .cons h.mem_constants (by decide) .nil
  | name hk => exact .cons_kind hk (by decide) .nil
  | grouping hl _ hr ih => exact .parens hl hr ih .nil
  | noParameters => exact .nil
  | someParameters _ ih => exact ih
  | lastName hk => exact .cons_kind hk (by decide) .nil
  | nextName hk hc _ ih => exact .cons_kind hk (by decide) (.cons_kind hc (by decide) ih)
  | function hk hn hl _ hr _ ihparams ihbody =>
      exact .cons_kind hk (by decide)
        (.cons_kind hn (by decide) (.parens hl hr ihparams ihbody))
  | giveBackNothing hk hs => exact .cons_kind hk (by decide) (.cons_kind hs (by decide) .nil)
  | giveBack hk _ hs ih =>
      exact .cons_kind hk (by decide) (ih.append (.cons_kind hs (by decide) .nil))
  | delete hk _ hs ih =>
      exact .cons_kind hk (by decide) (ih.append (.cons_kind hs (by decide) .nil))
  | loop hk _ _ ihe ihb => exact .cons_kind hk (by decide) (ihe.append ihb)
  | conditional _ ih => exact ih
  | branch hk _ _ ihe ihb => exact .cons_kind hk (by decide) (ihe.append ihb)
  | branchElse hk _ _ ho _ ihe ihb ihelse =>
      exact .cons_kind hk (by decide)
        (ihe.append (ihb.append (.cons_kind ho (by decide) ihelse)))
  | branchElseIf hk _ _ ho _ ihe ihb ihelse =>
      exact .cons_kind hk (by decide)
        (ihe.append (ihb.append (.cons_kind ho (by decide) ihelse)))
  | echo hk _ hs ih =>
      exact .cons_kind hk (by decide) (ih.append (.cons_kind hs (by decide) .nil))
  | leave hk hs => exact .cons_kind hk (by decide) (.cons_kind hs (by decide) .nil)
  | next hk hs => exact .cons_kind hk (by decide) (.cons_kind hs (by decide) .nil)
  | expression _ hs ih => exact ih.append (.cons_kind hs (by decide) .nil)
  | block hl _ hr ih => exact .enclosed (by rw [hl, hr]; exact .braces) ih .nil
  | noStatements => exact .nil
  | nextStatement _ _ ih ihmore => exact ih.append ihmore

/-- The first of a pair opens and does not close, the second closes and does
    not open. -/
theorem Brackets.counted {left right : Token} (h : Brackets left.kind right.kind) :
    (left.opens = true ∧ left.closes = false) ∧ right.opens = false ∧ right.closes = true := by
  unfold Token.opens Token.closes
  generalize left.kind = l at h ⊢
  generalize right.kind = r at h ⊢
  cases h <;> decide

namespace Nested

/-- As many brackets are closed as are opened. -/
theorem balanced {ts : List Token} (h : Nested ts) :
    ts.countP Token.opens = ts.countP Token.closes := by
  induction h with
  | nil => rfl
  | plain hopens hcloses _ ih =>
      simp only [List.countP_cons, hopens, hcloses, Bool.false_eq_true, if_false]
      exact ih
  | enclosed hpair _ _ ihts ihus =>
      rcases hpair.counted with ⟨⟨hlo, hlc⟩, hro, hrc⟩
      simp only [List.countP_cons, List.countP_append, hlo, hlc, hro, hrc, if_true,
        Bool.false_eq_true, if_false]
      omega

/-- On the way never more brackets are closed than were opened. -/
theorem take_balanced {ts : List Token} (h : Nested ts) : ∀ n,
    (ts.take n).countP Token.closes ≤ (ts.take n).countP Token.opens := by
  induction h with
  | nil =>
      intro n
      rw [List.take_nil]
      exact Nat.le_refl _
  | plain hopens hcloses _ ih =>
      intro n
      cases n with
      | zero => exact Nat.le_refl _
      | succ n =>
          simp only [List.take_succ_cons, List.countP_cons, hopens, hcloses, Bool.false_eq_true,
            if_false]
          exact ih n
  | @enclosed left right ts us hpair hts _ ihts ihus =>
      rcases hpair.counted with ⟨⟨hlo, hlc⟩, hro, hrc⟩
      intro n
      cases n with
      | zero => exact Nat.le_refl _
      | succ n =>
          rw [List.take_succ_cons, List.take_append]
          -- Either the pair is not closed yet, or all of `ts` is there.
          by_cases hn : n ≤ ts.length
          · have hnone : n - ts.length = 0 := by omega
            have hinner := ihts n
            simp only [hnone, List.take_zero, List.append_nil, List.countP_cons, hlo, hlc, if_true,
              Bool.false_eq_true, if_false]
            omega
          · rcases Nat.exists_eq_succ_of_ne_zero (n := n - ts.length) (by omega) with ⟨m, hm⟩
            have hall : ts.take n = ts := List.take_of_length_le (by omega)
            have hinner := hts.balanced
            have hbehind := ihus m
            rw [hm, hall, List.take_succ_cons]
            simp only [List.countP_cons, List.countP_append, hlo, hlc, hro, hrc, if_true,
              Bool.false_eq_true, if_false]
            omega

end Nested

end Grammar

open Grammar

/-- What a prompt counts: the brackets that are opened, less those that are
    closed. -/
theorem bracketDepth_eq (ts : List Token) :
    bracketDepth ts = ts.countP Token.opens - ts.countP Token.closes := by
  have hfold : ∀ n : Int, ts.foldl (fun n t => n + t.kind.bracket) n =
      n + ts.countP Token.opens - ts.countP Token.closes := by
    induction ts with
    | nil => intro n; simp
    | cons t ts ih =>
        intro n
        have hweight : t.kind.bracket =
            (if t.opens then 1 else 0 : Int) - (if t.closes then 1 else 0 : Int) := by
          unfold Token.opens Token.closes
          cases t.kind <;> rfl
        rw [List.foldl_cons, ih, List.countP_cons, List.countP_cons, hweight]
        by_cases hopens : t.opens = true <;> by_cases hcloses : t.closes = true <;>
          simp only [hopens, hcloses, if_true, if_false, Bool.false_eq_true] <;> omega
  have hzero := hfold 0
  rw [bracketDepth, hzero]
  omega

/-- The token that ends a source does not count. -/
theorem bracketDepth_of_scan {source : Text} {ts : List Token} (h : Token.scan source = .ok ts) :
    bracketDepth ts = bracketDepth (Token.beforeEnd ts) := by
  rcases (scans_of_scanFrom_eq h).split_end with ⟨us, rfl, hus⟩
  rw [Token.beforeEnd_concat hus, bracketDepth, bracketDepth, List.foldl_append]
  exact Int.add_zero _

/-- A source that a prompt holds back does not parse. -/
theorem parse_ne_ok_of_isUnfinished {source : Text} {ts : List Token}
    (hscan : Token.scan source = .ok ts) (h : isUnfinished source = true) (p : List Stmt) :
    (parse ts).outcome ≠ .ok p := by
  intro hparse
  have hbalanced := ((parse_eq_ok_iff ts p).mp hparse).nested.balanced
  have hdepth := bracketDepth_of_scan hscan
  rw [bracketDepth_eq (Token.beforeEnd ts)] at hdepth
  simp only [isUnfinished, hscan, decide_eq_true_eq] at h
  omega

/-- Running a source that does not scan or parse ends with that fault. -/
theorem Session.run_of_refused {source : Text} (h : ∀ p, parseSource source ≠ .ok p) (s : Session) :
    (∃ e t, s.run source = some (some (.lexical e), t)) ∨
      ∃ e t, s.run source = some (some (.grammar e), t) := by
  have hfuel : ampleFuel = 999999999999 + 1 := rfl
  simp only [Session.run, hfuel, runSource]
  cases hscan : Token.scan source with
  | error e => exact Or.inl ⟨e, _, rfl⟩
  | ok ts =>
      cases hparse : (parse ts).outcome with
      | error e =>
          simp only [hparse]
          exact Or.inr ⟨e, _, rfl⟩
      | ok p => exact absurd ((parseSource_eq_ok_iff hscan p).mpr hparse) (h p)

/-- In tokens that parse, brackets nest: up to the end of the input as many are
    closed as are opened, and never more on the way. So an input for which a
    prompt asks for more lines does not scan or does not parse, and running it
    ends with the fault that says so. -/
theorem unfinished_input_is_refused :
    (∀ ts p, (parse ts).outcome = .ok p →
      Nested (Token.beforeEnd ts) ∧
        (Token.beforeEnd ts).countP Token.opens = (Token.beforeEnd ts).countP Token.closes ∧
        ∀ n, ((Token.beforeEnd ts).take n).countP Token.closes ≤
          ((Token.beforeEnd ts).take n).countP Token.opens) ∧
    ∀ source, isUnfinished source = true →
      (∀ p, parseSource source ≠ .ok p) ∧
        ∀ s : Session, (∃ e t, s.run source = some (some (.lexical e), t)) ∨
          ∃ e t, s.run source = some (some (.grammar e), t) := by
  refine ⟨?_, ?_⟩
  · intro ts p hparse
    have hnested := ((parse_eq_ok_iff ts p).mp hparse).nested
    exact ⟨hnested, hnested.balanced, hnested.take_balanced⟩
  · intro source hsource
    have hrefused : ∀ p, parseSource source ≠ .ok p := by
      intro p hp
      cases hscan : Token.scan source with
      | error e =>
          rw [parseSource, hscan] at hp
          cases hp
      | ok ts =>
          have hparse := (parseSource_eq_ok_iff hscan p).mp hp
          exact parse_ne_ok_of_isUnfinished hscan hsource p hparse
    exact ⟨hrefused, Session.run_of_refused hrefused⟩

/-- A call that stops after its first argument, and one that is complete. -/
theorem open_call_is_refused :
    (isUnfinished (utf8 "f(x,") = true ∧ ∀ p, parseSource (utf8 "f(x,") ≠ .ok p) ∧
      (parse ladderTokens).outcome = .ok ladderProgram ∧
        (Token.beforeEnd ladderTokens).countP Token.opens =
          (Token.beforeEnd ladderTokens).countP Token.closes := by
  have hopen : isUnfinished (utf8 "f(x,") = true := by cbv
  have hladder : (parse ladderTokens).outcome = .ok ladderProgram := rfl
  exact ⟨⟨hopen, (unfinished_input_is_refused.2 _ hopen).1⟩, hladder,
    (unfinished_input_is_refused.1 _ _ hladder).2.1⟩

end PocketScript
