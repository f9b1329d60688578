import Mathlib
import PocketScript.Proofs.Evaluation.Passage
import PocketScript.Proofs.Evaluation.Placing
import PocketScript.Proofs.Evaluation.Steady
import PocketScript.Proofs.Parser.Exact
import PocketScript.Proofs.Scanning.Join

/-!
# One source or two

Running two sources one after the other in a session is running them as one,
with a line feed between them.

Each stage has its share in this. The scanner gives the tokens of both, those
of the second source further down (`scan_join`). The grammar is closed under
putting programs in a row, so the parser gives the statements of both
(`parseSource_join`); nothing of the second source can be taken for a part of
the last statement of the first, or there would be two programs for the same
tokens. And statements in a row are carried out in a row (`execAll_append`).

What remains are the differences between the two ways. The second source is
at other positions, which no run can see (`placing`). Between two sources a
session reads the clock, keeps remarks and writes to its log. If the clock
stands still nothing of this can be seen by a program either:
`Session.bare` is what can, and all this leaves it alone.

Programs need not end, so outcomes are those of runs with some counter that
is not used up. There is at most one (`Session.Ends.unique`), and a source
that has none runs forever.

## Main definitions

* `Session.Ends`: What comes of a source in a session.
* `Session.ReturnsAtTop`: A source returns outside every function.
* `SameEnd`: Two outcomes that are the same up to positions.
* `Session.bare`: What a running program can see of a session.

## Theorems

* `parseSource_join`: Joined sources parse to joined programs.
* `runSource_eq_finishRun`: A run is its statements and a closing.
* `sameEnd_of_outcomes`: Runs in lock step have the same end.
* `joined_in_step`: The second source alone and joined, with counters that
  are large enough.
* `run_joined_as_run_in_turn`: The two ways to run two sources agree.
-/

namespace PocketScript

/-- A source that parses scans, and its tokens parse. -/
theorem exists_tokens_of_parseSource {source : Text} {p : List Stmt}
    (h : parseSource source = .ok p) :
    ∃ ts, Token.scan source = .ok ts ∧ (parse ts).outcome = .ok p := by
  cases hscan : Token.scan source with
  | error e =>
      rw [parseSource, hscan] at h
      cases h
  | ok ts => exact ⟨ts, rfl, (parseSource_eq_ok_iff hscan p).mp h⟩

/-- Two sources that parse, with a line feed between them, parse to the
    statements of both. -/
theorem parseSource_join {a b : Text} {p q : List Stmt} (ha : parseSource a = .ok p)
    (hb : parseSource b = .ok q) :
    ∃ f, parseSource (a ++ Text.lineFeed :: b) = .ok (p ++ Stmt.movedAll f q) := by
  rcases exists_tokens_of_parseSource ha with ⟨ts, hts, hp⟩
  rcases exists_tokens_of_parseSource hb with ⟨us, hus, hq⟩
  have hjoined := scan_join hts hus
  -- Both end with the token that ends the input, and the first of the two goes.
  rcases (scans_of_scanFrom_eq hts).split_end with ⟨ts, rfl, hnots⟩
  rcases (scans_of_scanFrom_eq hus).split_end with ⟨us, rfl, hnous⟩
  generalize Position.below _ = f at hjoined
  rw [parse_eq_ok_iff, Token.beforeEnd_concat hnots] at hp
  rw [parse_eq_ok_iff, Token.beforeEnd_concat hnous] at hq
  refine ⟨f, ?_⟩
  rw [parseSource_eq_ok_iff hjoined, parse_eq_ok_iff, List.dropLast_concat, List.map_append,
    ← List.append_assoc]
  have hnoend : ∀ t ∈ ts ++ us.map (Token.moved f), t.isEnd = false := by
    intro t ht
    rcases List.mem_append.mp ht with ht | ht
    · exact hnots t ht
    · rcases List.mem_map.mp ht with ⟨u, hu, rfl⟩
      exact hnous u hu
  have hend : List.map (Token.moved f) [Token.endAt (Position.start.afterAll b.glyphs)] =
      [Token.endAt (f (Position.start.afterAll b.glyphs))] := rfl
  rw [hend, Token.beforeEnd_concat hnoend]
  exact hp.append (hq.moved f)

namespace Session

/-- What a running program can see of a session: all but the remarks on its
    source and the log. -/
def bare (s : Session) : Session := { s with remarks := [], log := #[] }

theorem bare_note (r : LogRecord) (s : Session) : (s.note r).bare = s.bare := by
  rw [note]
  split <;> rfl

theorem bare_keepRemarks (remarks : List GrammarFault) (s : Session) :
    (s.keepRemarks remarks).bare = s.bare := by
  rw [keepRemarks, show s.bare = ({ s with remarks := remarks } : Session).bare from rfl]
  generalize ({ s with remarks := remarks } : Session) = t
  induction remarks generalizing t with
  | nil => rfl
  | cons r remarks ih => rw [List.foldl_cons, ih, bare_note]

/-- A clock that stands still is not moved by a reading. -/
theorem readClock_still {s : Session} (h : s.clock.tick = 0) : s.readClock.2 = s := by
  rw [readClock, h, Int.add_zero]

theorem bare_conclude {s : Session} (h : s.clock.tick = 0) (b : Bool) :
    (s.conclude b).bare = s.bare := by
  rw [conclude]
  split
  · rw [bare_note, readClock_still h]
  · rfl

/-- The session in which the statements of a source are carried out. -/
def opened (ts : List Token) (p : List Stmt) (s : Session) : Session :=
  { (s.begin.keepRemarks (parse ts).remarks).note (.parsed ts.length p.length) with calls := [] }

theorem bare_opened {s : Session} (h : s.clock.tick = 0) (ts : List Token) (p : List Stmt) :
    (s.opened ts p).bare = { s.bare with calls := [] } := by
  have hbegin : s.begin.bare = s.bare := by
    rw [begin, readClock_still h]
    rfl
  have hopened : (s.opened ts p).bare = { ((s.begin.keepRemarks (parse ts).remarks).note
      (.parsed ts.length p.length)).bare with calls := [] } := rfl
  rw [hopened, bare_note, bare_keepRemarks, hbegin]

/-- Sessions that a program cannot tell apart are related in every
    correspondence. -/
theorem sessions_of_bare_eq {C : Correspondence} {s t : Session} (hs : s.store.Discreet)
    (h : s.bare = t.bare) : C.Sessions s t := by
  have hbare : C.Sessions s s.bare := { Likeness.Sessions.refl hs with }
  rw [h] at hbare
  exact { hbare with }

end Session

/-- What comes of a source when its statements have been carried out. -/
def finishRun (source : Text) : Outcome RuntimeFault Signal → Outcome Fault Unit
  | .ok (.leave k) t =>
    .fault (.runtime (((RuntimeFault.strayControl k).attach t.calls).located source))
      (t.conclude false)
  | .ok (.next k) t =>
    .fault (.runtime (((RuntimeFault.strayControl k).attach t.calls).located source))
      (t.conclude false)
  | .ok _ t => .ok () (t.conclude true)
  | .fault e t => .fault (.runtime (e.located source)) (t.conclude false)
  | .starved => .starved

/-- A run of a source is a run of its statements and what comes of it. -/
theorem runSource_eq_finishRun {source : Text} {ts : List Token} {p : List Stmt}
    (hscan : Token.scan source = .ok ts) (hparse : (parse ts).outcome = .ok p) (n : Nat)
    (s : Session) : runSource (n + 2) source s =
      finishRun source (execAll n p Store.globals (s.opened ts p)) := by
  simp only [runSource, hscan, hparse, interpret]
  generalize hall : execAll n p Store.globals _ = o
  change execAll n p Store.globals (s.opened ts p) = o at hall
  rw [hall]
  cases o with
  | starved => rfl
  | fault e t => rfl
  | ok signal t => cases signal <;> rfl

namespace Session

/-- What comes of a source in a session, if it does not run forever. -/
def Ends (s : Session) (source : Text) (o : Outcome Fault Unit) : Prop :=
  o ≠ .starved ∧ ∃ n, runSource n source s = o

/-- The source returns outside every function when it runs in the session. -/
def ReturnsAtTop (s : Session) (source : Text) : Prop :=
  ∃ ts p n v k t, Token.scan source = .ok ts ∧ (parse ts).outcome = .ok p ∧
    execAll n p Store.globals (s.opened ts p) = .ok (.giveBack v k) t

/-- A source ends in one way at most. -/
theorem Ends.unique {s : Session} {source : Text} {o o' : Outcome Fault Unit}
    (h : s.Ends source o) (h' : s.Ends source o') : o = o' := by
  rcases h with ⟨ho, n, rfl⟩
  rcases h' with ⟨ho', m, rfl⟩
  have hn := ((steady (Nat.le_max_left n m)).runSource source s).eq ho
  have hm := ((steady (Nat.le_max_right n m)).runSource source s).eq ho'
  rw [← hn, ← hm]

/-- A source that ends without a fault scans and parses. -/
theorem Ends.exists_tokens {s t : Session} {source : Text} (h : s.Ends source (.ok () t)) :
    ∃ ts p, Token.scan source = .ok ts ∧ (parse ts).outcome = .ok p := by
  rcases h with ⟨_, n, hrun⟩
  cases n with
  | zero => simp only [runSource] at hrun; cases hrun
  | succ n =>
      simp only [runSource] at hrun
      cases hscan : Token.scan source with
      | error e => rw [hscan] at hrun; cases hrun
      | ok ts =>
          cases hparse : (parse ts).outcome with
          | error e => simp only [hscan, hparse] at hrun; cases hrun
          | ok p => exact ⟨ts, p, rfl, hparse⟩

section

variable {s : Session} {source : Text} {ts : List Token} {p : List Stmt}
  (hscan : Token.scan source = .ok ts) (hparse : (parse ts).outcome = .ok p)
include hscan hparse

/-- A source ends when its statements do. -/
theorem ends_iff (o : Outcome Fault Unit) :
    s.Ends source o ↔
      o ≠ .starved ∧ ∃ n, finishRun source (execAll n p Store.globals (s.opened ts p)) = o := by
  constructor
  · rintro ⟨ho, n, hrun⟩
    refine ⟨ho, n, ?_⟩
    -- Two of the counter are spent before the first statement.
    have hkeeps := ((steady (show n ≤ n + 2 by omega)).runSource source s).eq (hrun ▸ ho)
    rw [← runSource_eq_finishRun hscan hparse, hkeeps, hrun]
  · rintro ⟨ho, n, hrun⟩
    exact ⟨ho, n + 2, (runSource_eq_finishRun hscan hparse n s).trans hrun⟩

/-- If a source ends without a fault and without a return, its statements end
    normally. -/
theorem exists_normal_of_ends {s₁ : Session} (hends : s.Ends source (.ok () s₁))
    (hreturns : ¬ s.ReturnsAtTop source) :
    ∃ n t, execAll n p Store.globals (s.opened ts p) = .ok .normal t ∧ s₁ = t.conclude true := by
  rcases (ends_iff hscan hparse _).mp hends with ⟨_, n, hrun⟩
  cases hall : execAll n p Store.globals (s.opened ts p) with
  | starved => rw [hall] at hrun; cases hrun
  | fault e t => rw [hall] at hrun; cases hrun
  | ok signal t =>
      rw [hall] at hrun
      cases signal with
      | normal =>
          simp only [finishRun, Outcome.ok.injEq, true_and] at hrun
          exact ⟨n, t, hall, hrun.symm⟩
      | giveBack v k => exact absurd ⟨ts, p, n, v, k, t, hscan, hparse, hall⟩ hreturns
      | leave k => cases hrun
      | next k => cases hrun

/-- If the statements end normally, the source does not return. -/
theorem not_returnsAtTop_of_normal {n : Nat} {t : Session}
    (h : execAll n p Store.globals (s.opened ts p) = .ok .normal t) : ¬ s.ReturnsAtTop source := by
  rintro ⟨ts', p', m, v, k, t', hscan', hparse', h'⟩
  rw [hscan, Except.ok.injEq] at hscan'
  subst hscan'
  rw [hparse, Except.ok.injEq] at hparse'
  subst hparse'
  have hn := ((steady (Nat.le_max_left n m)).execAll p Store.globals (s.opened ts p)).eq (by simp [h])
  have hm := ((steady (Nat.le_max_right n m)).execAll p Store.globals (s.opened ts p)).eq
    (by simp [h'])
  rw [hn, h, h'] at hm
  cases hm

end

end Session

/-- Two outcomes of running that are the same up to positions: the same
    output, the same outermost bindings, and the same fault if any. -/
inductive SameEnd : Outcome Fault Unit → Outcome Fault Unit → Prop where
  | ended {t t' : Session} : t.output = t'.output → t.unplacedGlobals = t'.unplacedGlobals →
      SameEnd (.ok () t) (.ok () t')
  | faulted {e e' : RuntimeFault} {t t' : Session} : e.unplaced = e'.unplaced →
      t.output = t'.output → t.unplacedGlobals = t'.unplacedGlobals →
      SameEnd (.fault (.runtime e) t) (.fault (.runtime e') t')
  | starved : SameEnd .starved .starved

namespace SameEnd

variable {o o' o'' : Outcome Fault Unit}

theorem trans (h : SameEnd o o') (k : SameEnd o' o'') : SameEnd o o'' := by
  cases h with
  | ended hout hglobals =>
      cases k with
      | ended hout' hglobals' => exact .ended (hout.trans hout') (hglobals.trans hglobals')
  | faulted he hout hglobals =>
      cases k with
      | faulted he' hout' hglobals' =>
          exact .faulted (he.trans he') (hout.trans hout') (hglobals.trans hglobals')
  | starved => exact k

theorem symm (h : SameEnd o o') : SameEnd o' o := by
  cases h with
  | ended hout hglobals => exact .ended hout.symm hglobals.symm
  | faulted he hout hglobals => exact .faulted he.symm hout.symm hglobals.symm
  | starved => exact .starved

theorem ne_starved (h : SameEnd o o') (ho : o ≠ .starved) : o' ≠ .starved := by
  cases h with
  | starved => exact absurd rfl ho
  | _ => simp

end SameEnd

/-- If with large counters a source has the same end as another, whatever
    comes of it comes of the other. -/
theorem Session.Ends.of_sameEnd {s s' : Session} {source source' : Text} {n : Nat} {g g' : Nat → Nat}
    (hg : ∀ k, k ≤ g k)
    (hsame : ∀ k, n ≤ k → SameEnd (runSource (g k) source s) (runSource (g' k) source' s'))
    {o : Outcome Fault Unit} (ho : s.Ends source o) : ∃ o', s'.Ends source' o' ∧ SameEnd o o' := by
  rcases ho with ⟨hne, m, hrun⟩
  have hkeeps := (steady ((Nat.le_max_right n m).trans (hg _))).runSource source s
  have hend := hsame (max n m) (Nat.le_max_left n m)
  rw [hkeeps.eq (hrun ▸ hne), hrun] at hend
  exact ⟨_, ⟨hend.ne_starved hne, _, rfl⟩, hend⟩

theorem RuntimeFault.unplaced_located (source : Text) (e : RuntimeFault) :
    (e.located source).unplaced = e.unplaced := by
  rw [located]
  split <;> rfl

/-- Statements that run in lock step make sources with the same end. -/
theorem sameEnd_of_outcomes (source source' : Text) {o o' : Outcome RuntimeFault Signal}
    (h : placing.Outcomes placing.Faults placing.Signals o o') :
    SameEnd (finishRun source o) (finishRun source' o') := by
  have hended : ∀ {t t' : Session}, placing.Sessions t t' →
      SameEnd (.ok () (t.conclude true)) (.ok () (t'.conclude true)) := by
    intro t t' ht
    exact .ended (ht.conclude true).output_eq (unplacedGlobals_of_sessions (ht.conclude true))
  have hfaulted : ∀ {e e' : RuntimeFault} {t t' : Session}, placing.Faults e e' →
      placing.Sessions t t' → SameEnd (.fault (.runtime (e.located source)) (t.conclude false))
        (.fault (.runtime (e'.located source')) (t'.conclude false)) := by
    intro e e' t t' he ht
    refine .faulted ?_ (ht.conclude false).output_eq (unplacedGlobals_of_sessions (ht.conclude false))
    rw [RuntimeFault.unplaced_located, RuntimeFault.unplaced_located, unplaced_of_faults he]
  cases h with
  | starved => exact .starved
  | fault he ht => exact hfaulted he ht
  | ok hsignal ht =>
      cases hsignal with
      | normal => exact hended ht
      | giveBack _ _ => exact hended ht
      | leave hk => exact hfaulted ((Likeness.Faults.strayControl hk).attach ht.calls) ht
      | next hk => exact hfaulted ((Likeness.Faults.strayControl hk).attach ht.calls) ht

/-- Moving the second of two programs makes no difference up to positions. -/
theorem placing_body_append (f : Position → Position) (p q : List Stmt) :
    placing.body (p ++ Stmt.movedAll f q) (p ++ q) := by
  change Stmt.movedAll unplaced (p ++ Stmt.movedAll f q) = Stmt.movedAll unplaced (p ++ q)
  rw [Stmt.movedAll_append, Stmt.movedAll_append, Stmt.movedAll_movedAll]
  rfl

/-- After statements that end normally no call is under way and the clock has
    kept its pace. -/
theorem settled_of_normal {n : Nat} {p : List Stmt} {s t : Session}
    (h : execAll n p Store.globals s = .ok .normal t) : Settled s t := by
  have hleaves := (settled_passage.holds n).execAll p Store.globals s
  rw [h] at hleaves
  exact hleaves

/-- Statements leave no native functions that look into functions, if there are none to
    begin with. -/
theorem discreet_of_execAll {n : Nat} {p : List Stmt} {s t : Session} {signal : Signal}
    (hs : s.store.Discreet) (h : execAll n p Store.globals s = .ok signal t) :
    t.store.Discreet := by
  have hrun : placing.Outcomes placing.Faults placing.Signals (execAll n p Store.globals s)
      (execAll n p Store.globals s) :=
    (Correspondence.lockStep n).execAll (placing.body_refl p) (.refl hs)
  rw [h] at hrun
  cases hrun with
  | ok _ ht => exact ht.store.discreet

/-- The second of two programs run on its own and the second part of a run of
    both, in sessions that differ in nothing that a program can see. -/
theorem joined_in_step {p : List Stmt} (q : List Stmt) {s s' t u : Session} {n k : Nat}
    (f : Position → Position) (hdiscreet : s.store.Discreet)
    (hp : execAll n p Store.globals s = .ok .normal t) (hk : n ≤ k) (hs : s'.bare = s.bare)
    (hu : t.bare = u.bare) (a b : Text) :
    SameEnd (finishRun b (execAll k q Store.globals u))
      (finishRun a (execAll (p.length + k) (p ++ Stmt.movedAll f q) Store.globals s')) := by
  have hboth : placing.Outcomes placing.Faults placing.Signals
      (execAll (p.length + k) (p ++ Stmt.movedAll f q) Store.globals s')
      (execAll (p.length + k) (p ++ q) Store.globals s) :=
    (Correspondence.lockStep _).execAll (placing_body_append f p q)
      (Session.sessions_of_bare_eq (congrArg Session.store hs ▸ hdiscreet) hs)
  rw [execAll_append hp hk] at hboth
  have hleft : t.store.Discreet := discreet_of_execAll hdiscreet hp
  have hsecond : placing.Outcomes placing.Faults placing.Signals
      (execAll k q Store.globals t) (execAll k q Store.globals u) :=
    (Correspondence.lockStep _).execAll (placing.body_refl q) (Session.sessions_of_bare_eq hleft hu)
  exact ((sameEnd_of_outcomes a b hboth).trans (sameEnd_of_outcomes b b hsecond)).symm

/-- Two sources that parse, run in a session whose clock stands still and whose
    native functions do not look into functions. If the first ends without a fault
    and without a return, then running the second in the session it leaves has the
    same end as running both as one source, with a line feed between them, in the
    session at the start; and either both ways end or neither does. -/
theorem run_joined_as_run_in_turn {a b : Text} {q : List Stmt} {s s₁ : Session}
    (hstill : s.clock.tick = 0) (hs : s.store.Discreet) (hb : parseSource b = .ok q)
    (ha : s.Ends a (.ok () s₁)) (hreturns : ¬ s.ReturnsAtTop a) :
    (∀ o, s₁.Ends b o → ∃ o', s.Ends (a ++ Text.lineFeed :: b) o' ∧ SameEnd o o') ∧
      ∀ o', s.Ends (a ++ Text.lineFeed :: b) o' → ∃ o, s₁.Ends b o ∧ SameEnd o o' := by
  rcases ha.exists_tokens with ⟨ts, p, hts, hp⟩
  rcases exists_tokens_of_parseSource hb with ⟨us, hus, hq⟩
  rcases parseSource_join ((parseSource_eq_ok_iff hts p).mpr hp) hb with ⟨f, hjoin⟩
  rcases exists_tokens_of_parseSource hjoin with ⟨vs, hvs, hboth⟩
  rcases Session.exists_normal_of_ends hts hp ha hreturns with ⟨n, t, hrun, rfl⟩
  -- The sessions at the start of the two runs differ in the log only, and so
  -- do the sessions before the statements of the second source.
  rcases settled_of_normal hrun with ⟨hcalls, htick⟩
  have hopened : (s.opened ts p).clock.tick = 0 :=
    (congrArg (·.clock.tick) (Session.bare_opened hstill ts p)).trans hstill
  have hdiscreet : (s.opened ts p).store.Discreet :=
    congrArg Session.store (Session.bare_opened hstill ts p) ▸ hs
  have hstart : (s.opened vs (p ++ Stmt.movedAll f q)).bare = (s.opened ts p).bare := by
    rw [Session.bare_opened hstill, Session.bare_opened hstill]
  have hbetween : t.bare = ((t.conclude true).opened us q).bare := by
    have hclock : (t.conclude true).clock.tick = 0 := by
      rw [(settled_passage.conclude_related true t).2, htick, hopened]
    have hempty : t.calls = [] := List.suffix_nil.mp hcalls
    rw [Session.bare_opened hclock, Session.bare_conclude (htick.trans hopened)]
    simp only [Session.bare, hempty]
  have hsame : ∀ k, n ≤ k → SameEnd (runSource (k + 2) b (t.conclude true))
      (runSource (p.length + k + 2) (a ++ Text.lineFeed :: b) s) := by
    intro k hk
    rw [runSource_eq_finishRun hus hq, runSource_eq_finishRun hvs hboth]
    exact joined_in_step q f hdiscreet hrun hk hstart hbetween _ b
  constructor
  · intro o ho
    exact ho.of_sameEnd (fun k => by omega) hsame
  · intro o ho
    rcases ho.of_sameEnd (fun k => by omega) (fun k hk => (hsame k hk).symm) with ⟨o', ho', hoo'⟩
    exact ⟨o', ho', hoo'.symm⟩

/-- A source that gives a name to a string of one byte. -/
def namingSource : Text := utf8 "x=\"p\";"

/-- Its tokens. -/
def namingTokens : List Token :=
  [⟨.identifier, "x", none, ⟨1, 1⟩⟩, ⟨.assign, "=", none, ⟨1, 2⟩⟩,
    ⟨.string, "\"p\"", some (.string "p"), ⟨1, 3⟩⟩, ⟨.semicolon, ";", none, ⟨1, 6⟩⟩,
    .endAt ⟨1, 7⟩]

/-- Its one statement. -/
def namingProgram : List Stmt :=
  [.expression (.assign ⟨.identifier, "x", none, ⟨1, 1⟩⟩ (.constant (.string "p") ⟨1, 3⟩))]

/-- A source that writes what has the name. -/
def readingSource : Text := utf8 "echo x;"

/-- Its tokens. -/
def readingTokens : List Token :=
  [⟨.echoWord, "echo", none, ⟨1, 1⟩⟩, ⟨.identifier, "x", none, ⟨1, 6⟩⟩,
    ⟨.semicolon, ";", none, ⟨1, 7⟩⟩, .endAt ⟨1, 8⟩]

/-- Its one statement. -/
def readingProgram : List Stmt :=
  [.echo ⟨.echoWord, "echo", none, ⟨1, 1⟩⟩
    (.reference ⟨.identifier, "x", none, ⟨1, 6⟩⟩)]

/-- The session that the first leaves. -/
def namedSession : Session := Session.initial.bind Store.globals (utf8 "x") (.string "p")

set_option maxRecDepth 2000 in
/-- Naming a string and reading it on the next line writes it. -/
theorem naming_joined_with_reading :
    ∃ t, Session.initial.Ends (namingSource ++ Text.lineFeed :: readingSource) (.ok () t) ∧
      t.output = [112, Text.lineFeed] := by
  have hscan : Token.scan namingSource = .ok namingTokens := by cbv
  have hparse : (parse namingTokens).outcome = .ok namingProgram := rfl
  have hscan' : Token.scan readingSource = .ok readingTokens := by cbv
  have hparse' : (parse readingTokens).outcome = .ok readingProgram := rfl
  -- With a log that is off and a clock that stands still nothing is opened.
  have hopened : Session.initial.opened namingTokens namingProgram = Session.initial := rfl
  have hopened' : namedSession.opened readingTokens readingProgram = namedSession := rfl
  have hnames : execAll 5 namingProgram Store.globals
      (Session.initial.opened namingTokens namingProgram) = .ok .normal namedSession := by
    rw [hopened]
    simp only [namingProgram, execAll, exec, eval, Outcome.andThen, Value.ofLiteral, namedSession]
  have hreads : execAll 5 readingProgram Store.globals
      (namedSession.opened readingTokens readingProgram) =
        .ok .normal (namedSession.echo (utf8 "p")) := by
    have hget : namedSession.store.get Store.globals ⟨.identifier, "x", none, ⟨1, 6⟩⟩ =
        .ok (.string "p") := by cbv
    rw [hopened']
    simp only [readingProgram, execAll, exec, eval, hget, Outcome.andThen, Value.text]
  have hnaming : Session.initial.Ends namingSource (.ok () namedSession) :=
    (Session.ends_iff hscan hparse _).mpr ⟨by simp, 5, by rw [hnames]; rfl⟩
  have hreading : namedSession.Ends readingSource (.ok () (namedSession.echo (utf8 "p"))) :=
    (Session.ends_iff hscan' hparse' _).mpr ⟨by simp, 5, by rw [hreads]; rfl⟩
  have hsource := (parseSource_eq_ok_iff hscan' _).mpr hparse'
  rcases (run_joined_as_run_in_turn rfl Session.discreet_initial hsource hnaming
    (Session.not_returnsAtTop_of_normal hscan hparse hnames)).1 _ hreading with ⟨o, ho, hsame⟩
  cases hsame with
  | ended houtput _ => exact ⟨_, ho, houtput.symm⟩

end PocketScript
