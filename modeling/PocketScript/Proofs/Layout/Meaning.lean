import PocketScript.Proofs.Evaluation.Reachable
import PocketScript.Proofs.Parser.Moved
import PocketScript.Proofs.Scanning.Literals
import PocketScript.Proofs.Session.Joined

/-!
# Layout has no meaning

Two sources whose tokens have the same kinds and lexemes differ in their blanks,
line feeds and comments only, and do the same when they are run.

The way from the one to the other goes through tokens that have lost their
positions. The scanner takes the value of a token from its lexeme, so these are
the same for both sources (`map_unplaced_eq_of_spelling`). The parser makes the
same of them, a tree or a fault and remarks, up to positions (`parse_moved`). And
programs that are the same up to positions run alike (`placing`).

What a session keeps of the parser are the remarks on the last source that was
run. A program cannot run another source unless it is offered a function that
does, so in a fresh session these are the remarks on the program itself.

## Main definitions

* `Session.SameLeft`: What two runs leave is the same up to positions.
* `SameRun`: Two runs of sources are the same up to positions.
* `Keeping.remarking`: Runs that keep the remarks on their source.

## Theorems

* `remarks_of_runSource`: The remarks after a run are those on its source.
* `run_ignores_layout`: Sources with the same kinds and lexemes run alike.
-/

namespace PocketScript

/-- What two runs leave is the same up to positions: the remarks of the parser,
    the output and the outermost bindings. -/
structure Session.SameLeft (t t' : Session) : Prop where
  remarks : t.remarks.map (GrammarFault.moved unplaced) =
    t'.remarks.map (GrammarFault.moved unplaced)
  output : t.output = t'.output
  globals : t.unplacedGlobals = t'.unplacedGlobals

/-- Two runs of sources are the same up to positions: both end, both stop at the
    same fault, of grammar or of the running program, or neither ends. -/
inductive SameRun : Outcome Fault Unit → Outcome Fault Unit → Prop where
  | ended {t t' : Session} : t.SameLeft t' → SameRun (.ok () t) (.ok () t')
  | rejected {e e' : GrammarFault} {t t' : Session} : e.moved unplaced = e'.moved unplaced →
      t.SameLeft t' → SameRun (.fault (.grammar e) t) (.fault (.grammar e') t')
  | faulted {e e' : RuntimeFault} {t t' : Session} : e.unplaced = e'.unplaced →
      t.SameLeft t' → SameRun (.fault (.runtime e) t) (.fault (.runtime e') t')
  | starved : SameRun .starved .starved

/-- Sessions with the same end that have kept the same remarks. -/
theorem SameEnd.sameRun {o o' : Outcome Fault Unit} {r r' : List GrammarFault} (h : SameEnd o o')
    (hr : r.map (GrammarFault.moved unplaced) = r'.map (GrammarFault.moved unplaced))
    (ho : ∀ t, o.session? = some t → t.remarks = r)
    (ho' : ∀ t, o'.session? = some t → t.remarks = r') : SameRun o o' := by
  cases h with
  | @ended t t' houtput hglobals =>
      rw [← ho t rfl, ← ho' t' rfl] at hr
      exact .ended ⟨hr, houtput, hglobals⟩
  | @faulted e e' t t' he houtput hglobals =>
      rw [← ho t rfl, ← ho' t' rfl] at hr
      exact .faulted he ⟨hr, houtput, hglobals⟩
  | starved => exact .starved

/-- Runs that meet inert values only keep the remarks on their source. -/
def Keeping.remarking (r : List GrammarFault) : Keeping :=
  .ofInert (fun _ => True) (fun t => t.remarks = r) True (fun _ _ ht _ => ht) (fun _ ht _ => ht)
    (fun _ ht => ⟨trivial, ht⟩) (fun ht _ hremarks => hremarks.trans ht)

/-- The remarks after a run are those on its source. -/
theorem remarks_of_runSource {source : Text} {ts : List Token} {p : List Stmt}
    (hscan : Token.scan source = .ok ts) (hparse : (parse ts).outcome = .ok p) {s t : Session}
    (hs : s.store.Holds Value.Inert) {n : Nat} (ht : (runSource n source s).session? = some t) :
    t.remarks = (parse ts).remarks := by
  have hkept : (Keeping.remarking (parse ts).remarks).Kept
      { s with remarks := (parse ts).remarks } := ⟨rfl, hs⟩
  exact ((Keeping.runSource hscan hparse trivial trivial trivial hkept n).kept ht).session

namespace Session

/-- Up to its first statement a source does nothing that a program can see but
    read the clock. -/
theorem bare_opened_begin (s : Session) (ts : List Token) (p : List Stmt) :
    (s.opened ts p).bare = { s.begin.bare with calls := [] } := by
  have hopened : (s.opened ts p).bare = { ((s.begin.keepRemarks (parse ts).remarks).note
      (.parsed ts.length p.length)).bare with calls := [] } := rfl
  rw [hopened, bare_note, bare_keepRemarks]

theorem sameLeft_keepRemarks {r r' : List GrammarFault}
    (h : r.map (GrammarFault.moved unplaced) = r'.map (GrammarFault.moved unplaced)) (s : Session) :
    (s.keepRemarks r).SameLeft (s.keepRemarks r') := by
  have hbare : (s.keepRemarks r).bare = (s.keepRemarks r').bare := by
    rw [bare_keepRemarks, bare_keepRemarks]
  have houtput := congrArg Session.output hbare
  have hglobals := congrArg Session.unplacedGlobals hbare
  refine ⟨?_, houtput, hglobals⟩
  rw [(store_keepRemarks r s).2, (store_keepRemarks r' s).2]
  exact h

end Session

/-- What came of parsing is the same up to positions: a program or a fault. -/
theorem Parsed.cases_of_moved_eq {f : Position → Position} {p q : Parsed}
    (h : p.moved f = q.moved f) :
    (∃ b c, p.outcome = .ok b ∧ q.outcome = .ok c ∧ Stmt.movedAll f b = Stmt.movedAll f c) ∨
      ∃ e e', p.outcome = .error e ∧ q.outcome = .error e' ∧ e.moved f = e'.moved f := by
  have houtcome := congrArg Parsed.outcome h
  simp only [Parsed.moved] at houtcome
  cases hp : p.outcome with
  | ok b =>
      cases hq : q.outcome with
      | ok c =>
          rw [hp, hq] at houtcome
          exact Or.inl ⟨b, c, rfl, rfl, Except.ok.inj houtcome⟩
      | error e =>
          rw [hp, hq] at houtcome
          cases houtcome
  | error e =>
      cases hq : q.outcome with
      | ok c =>
          rw [hp, hq] at houtcome
          cases houtcome
      | error e' =>
          rw [hp, hq] at houtcome
          exact Or.inr ⟨e, e', rfl, rfl, Except.error.inj houtcome⟩

/-- Two sources that scan to the same kinds and lexemes. Both parse, to programs
    that are the same up to positions, or neither does, with faults that are; the
    remarks of the parser are the same up to positions. Run in a fresh session,
    they write the same, leave the same outermost bindings, and stop at the same
    fault if they stop at one. -/
theorem run_ignores_layout {a b : Text} {ts us : List Token} (ha : Token.scan a = .ok ts)
    (hb : Token.scan b = .ok us) (hsame : ts.map Token.spelling = us.map Token.spelling)
    (clock : Clock) (muted logging : Bool) :
    (parse ts).moved unplaced = (parse us).moved unplaced ∧
      ∀ n, SameRun (runSource n a (Session.fresh clock muted logging))
        (runSource n b (Session.fresh clock muted logging)) := by
  have hparsed : (parse ts).moved unplaced = (parse us).moved unplaced := by
    rw [← parse_moved unplaced rfl, ← parse_moved unplaced rfl,
      map_unplaced_eq_of_spelling ha hb hsame]
  have hremarks := congrArg Parsed.remarks hparsed
  have hinert := (Session.Reachable.fresh (P := Native.Inert) clock muted logging).holds_inert
  have hdiscreet : (Session.fresh clock muted logging).store.Discreet := Session.discreet_initial
  generalize Session.fresh clock muted logging = s at hinert hdiscreet ⊢
  refine ⟨hparsed, ?_⟩
  intro n
  rcases Parsed.cases_of_moved_eq hparsed with ⟨p, q, hp, hq, hpq⟩ | ⟨e, e', he, he', hee'⟩
  · -- Both parse, and two of the counter are spent before the first statement.
    cases n with
    | zero =>
        simp only [runSource]
        exact .starved
    | succ n =>
        cases n with
        | zero =>
            simp only [runSource, ha, hb, hp, hq, interpret]
            exact .starved
        | succ n =>
            have hopened : (s.opened ts p).bare = (s.opened us q).bare :=
              (s.bare_opened_begin ts p).trans (s.bare_opened_begin us q).symm
            have hstore : (s.opened ts p).bare.store = s.begin.store := by
              rw [s.bare_opened_begin ts p]
              rfl
            have hready : (s.opened ts p).bare.store.Discreet := hstore ▸ hdiscreet
            have hend : SameEnd (runSource (n + 2) a s) (runSource (n + 2) b s) := by
              rw [runSource_eq_finishRun ha hp, runSource_eq_finishRun hb hq]
              exact sameEnd_of_outcomes a b ((Correspondence.lockStep n).execAll hpq
                (Session.sessions_of_bare_eq hready hopened))
            exact hend.sameRun hremarks (fun t => remarks_of_runSource ha hp hinert)
              fun t => remarks_of_runSource hb hq hinert
  · cases n with
    | zero =>
        simp only [runSource]
        exact .starved
    | succ n =>
        simp only [runSource, ha, hb, he, he']
        exact .rejected hee' (Session.sameLeft_keepRemarks hremarks s.begin)

/-- A source that writes a line and then calls what is not bound. -/
def tightSource : Text := utf8 "echo\"p\";q();"

/-- The same with a comment, on three lines. -/
def looseSource : Text :=
  utf8 "echo # q;\n\"p\" ;\nq ( );"

/-- The tokens of the first. -/
def tightTokens : List Token :=
  [⟨.echoWord, "echo", none, ⟨1, 1⟩⟩,
    ⟨.string, "\"p\"", some (.string "p"), ⟨1, 5⟩⟩, ⟨.semicolon, ";", none, ⟨1, 8⟩⟩,
    ⟨.identifier, "q", none, ⟨1, 9⟩⟩, ⟨.leftParen, "(", none, ⟨1, 10⟩⟩,
    ⟨.rightParen, ")", none, ⟨1, 11⟩⟩, ⟨.semicolon, ";", none, ⟨1, 12⟩⟩, .endAt ⟨1, 13⟩]

/-- The tokens of the second. -/
def looseTokens : List Token :=
  [⟨.echoWord, "echo", none, ⟨1, 1⟩⟩,
    ⟨.string, "\"p\"", some (.string "p"), ⟨2, 1⟩⟩, ⟨.semicolon, ";", none, ⟨2, 5⟩⟩,
    ⟨.identifier, "q", none, ⟨3, 1⟩⟩, ⟨.leftParen, "(", none, ⟨3, 3⟩⟩,
    ⟨.rightParen, ")", none, ⟨3, 5⟩⟩, ⟨.semicolon, ";", none, ⟨3, 6⟩⟩, .endAt ⟨3, 7⟩]

/-- The message of the fault that a run ends with, if there is one. -/
def messageOf : Outcome Fault Unit → Option Text
  | .fault (.runtime e) _ => some e.message
  | _ => none

set_option maxRecDepth 4000 in
/-- Both stop at the call, for the same reason. -/
theorem loose_runs_as_tight :
    Token.scan tightSource = .ok tightTokens ∧ Token.scan looseSource = .ok looseTokens ∧
      ∃ e e' t t', runSource 10 tightSource (Session.fresh {} false false) =
          .fault (.runtime e) t ∧
        runSource 10 looseSource (Session.fresh {} false false) = .fault (.runtime e') t' ∧
        e.unplaced = e'.unplaced ∧ t.SameLeft t' := by
  have htight : Token.scan tightSource = .ok tightTokens := by cbv
  have hloose : Token.scan looseSource = .ok looseTokens := by cbv
  have hstops : (messageOf (runSource 10 tightSource (Session.fresh {} false false))).isSome := by
    cbv
  have hsame := (run_ignores_layout htight hloose rfl {} false false).2 10
  refine ⟨htight, hloose, ?_⟩
  generalize runSource 10 tightSource _ = o at hstops hsame ⊢
  generalize runSource 10 looseSource _ = o' at hsame ⊢
  cases hsame with
  | ended _ => cases hstops
  | rejected _ _ => cases hstops
  | starved => cases hstops
  | @faulted e e' t t' he ht => exact ⟨e, e', t, t', rfl, rfl, he, ht⟩

end PocketScript
