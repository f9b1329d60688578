import Mathlib
import PocketScript.Program.Source
import PocketScript.Proofs.Evaluation.Keeping
import PocketScript.Proofs.Lint.Unreachable
import PocketScript.Proofs.Parser.Exact

/-!
# Every stray break is reported

A program that faults because of a break or continue without a loop has been
warned about it, with the position and the function of the fault.

The linter and the evaluator have different notions of a loop around a
statement. The linter carries a flag through the tree, sets it in the body of a
loop and clears it in the body of a function. In a run a break goes up through
lists of statements and branches until a loop receives it, or else the call or
the program that it is in. What joins them is a property of values that every
run keeps: of each function bound anywhere, all findings in its body are among
the findings in the program.

Findings are not looked for after a statement that ends the list it stands in.
No run gets there either (`diverts_of_ends`), so this does no harm.

## Main definitions

* `Lint.Covered`: The findings in the body of a function are among given ones.
* `Lint.covering`: Runs keep every function covered.

## Theorems

* `Lint.stray_control_is_reported`: A fault of control has a finding, so a
  program without such findings has no such fault.
-/

namespace PocketScript

namespace Lint

/-- The findings in the body of a function are among `found`, and the only
    native function is the clock. -/
def Covered (found : List Warning) : Value → Prop
  | .function f => (statements f.name false false f.body).2 ⊆ found
  | .native f => f.action = .clock
  | _ => True

theorem covered_of_data {found : List Warning} {v : Value} (hv : v.isCallable = false) :
    Covered found v := by
  cases v with
  | function f => cases hv
  | native f => cases hv
  | _ => trivial

/-- A fault of control has its finding among `found`. -/
def Reported (found : List Warning) (e : RuntimeFault) : Prop :=
  e.cause = .invalidControl → ∃ frame rest, e.frames = some (frame :: rest) ∧
    ⟨frame.function, e.pos, "break or continue outside of a loop"⟩ ∈ found

/-- A break or continue that ends up in the function it was found stray in. -/
theorem reported_strayControl {found : List Warning} {function : Text} {keyword : Token}
    {calls : List Frame} (hfound : [stray function keyword] ⊆ found)
    (hcalls : innermost calls = function) :
    Reported found ((RuntimeFault.strayControl keyword).attach calls) := by
  intro _
  have hhead := head?_framesAt keyword.pos calls
  cases hframes : RuntimeFault.framesAt keyword.pos calls with
  | nil =>
      rw [hframes] at hhead
      cases hhead
  | cons frame rest =>
      rw [hframes, List.head?_cons, Option.some.injEq, hcalls] at hhead
      refine ⟨frame, rest, congrArg some hframes, ?_⟩
      rw [hhead]
      exact hfound (List.mem_singleton.mpr rfl)

/-- A fault with another cause has nothing to be reported. -/
theorem reported_of_cause_ne {found : List Warning} {e : RuntimeFault} (calls : List Frame)
    (he : e.cause ≠ .invalidControl) : Reported found (e.attach calls) := by
  intro hcause
  have hsame : (e.attach calls).cause = e.cause := by
    rw [RuntimeFault.attach]
    split <;> rfl
  exact absurd (hsame.symm.trans hcause) he

/-- What is found in a list is found in its first statement, and in the rest if
    that is looked at. -/
theorem statements_subset_cons {found : List Warning} {function : Text} {inLoop : Bool} {st : Stmt}
    {rest : List Stmt} (h : (statements function inLoop false (st :: rest)).2 ⊆ found) :
    (statement function inLoop st).2 ⊆ found ∧
      ((statements function inLoop false rest).2 ⊆ found ∨ st.Diverts) := by
  rw [statements_cons, statement_fst] at h
  cases hends : ends st with
  | true =>
      rw [hends, if_pos rfl] at h
      exact ⟨(List.append_subset.mp h).1, Or.inr (diverts_of_ends hends)⟩
  | false =>
      rw [hends, if_neg Bool.false_ne_true] at h
      exact ⟨(List.append_subset.mp h).1, Or.inl (List.append_subset.mp h).2⟩

/-- What is found in a branch is found in either part. -/
theorem statement_subset_branch {found : List Warning} {function : Text} {inLoop : Bool} {k : Token}
    {e : Expr} {b : List Stmt} {c : Option (List Stmt)}
    (h : (statement function inLoop (.branch k e b c)).2 ⊆ found) :
    (statements function inLoop false b).2 ⊆ found ∧
      ∀ b' ∈ c, (statements function inLoop false b').2 ⊆ found := by
  rw [statement] at h
  rcases List.append_subset.mp h with ⟨hthen, helse⟩
  refine ⟨hthen, ?_⟩
  rintro b' rfl
  rw [otherwise] at helse
  exact helse

/-- Runs keep every function covered, and report every fault of control. -/
def covering (found : List Warning) : Keeping where
  level _ := True
  value := Covered found
  fault := Reported found
  stmt function inLoop st := (statement function inLoop st).2 ⊆ found
  body function inLoop b := (statements function inLoop false b).2 ⊆ found
  data hv := covered_of_data hv
  harmless {f} hf := by
    have hclock : f.action = .clock := hf
    rw [hclock]
    exact Native.inert_clock
  native {f vs s} n hf _ _ := by
    have hclock : f.action = .clock := hf
    rw [hclock]
    exact callNative_clock_aside _ covered_of_data n _ vs s
  ordinary := reported_of_cause_ne
  leave hst hcalls := by
    rw [statement] at hst
    exact reported_strayControl hst hcalls
  next hst hcalls := by
    rw [statement] at hst
    exact reported_strayControl hst hcalls
  located {e} source he := by
    rw [RuntimeFault.located]
    split
    · exact he
    · exact he
  loop hst := by
    rw [statement] at hst
    exact hst
  branch := statement_subset_branch
  cons := statements_subset_cons
  function _ hst := by
    rw [statement] at hst
    exact hst
  called hf := hf
  openLevel _ _ := ⟨trivial, trivial⟩

/-- The findings in a program are among its findings in order. -/
theorem statements_subset_check (p : List Stmt) :
    (statements RuntimeFault.scriptName false false p).2 ⊆ check p :=
  (List.mergeSort_perm _ _).symm.subset

/-- A source that parses, run in a fresh session. If it faults because of a
    break or continue without a loop, there is a finding that says so, at the
    position of the fault and in the function of its innermost frame. So a
    program without such findings never faults in this way. -/
theorem stray_control_is_reported {source : Text} {p : List Stmt}
    (hp : parseSource source = .ok p) (clock : Clock) (muted logging : Bool) :
    (∀ n e t, runSource n source (Session.fresh clock muted logging) = .fault (.runtime e) t →
      e.cause = .invalidControl → ∃ frame rest, e.frames = some (frame :: rest) ∧
        ⟨frame.function, e.pos, "break or continue outside of a loop"⟩ ∈ check p) ∧
    ((∀ w ∈ check p, w.message ≠ "break or continue outside of a loop") →
      ∀ n e t, runSource n source (Session.fresh clock muted logging) = .fault (.runtime e) t →
        e.cause ≠ .invalidControl) := by
  have hreported : ∀ n e t,
      runSource n source (Session.fresh clock muted logging) = .fault (.runtime e) t →
        Reported (check p) e := by
    intro n e t hrun
    cases hscan : Token.scan source with
    | error f =>
        rw [parseSource, hscan] at hp
        cases hp
    | ok ts =>
        have hparse := (parseSource_eq_ok_iff hscan p).mp hp
        have hkept : (covering (check p)).Kept
            { Session.fresh clock muted logging with remarks := (parse ts).remarks } :=
          ⟨trivial, Session.holds_fresh clock muted logging rfl⟩
        have hends := Keeping.runSource hscan hparse trivial trivial (statements_subset_check p)
          hkept n
        rw [hrun] at hends
        exact hends.1
  refine ⟨hreported, ?_⟩
  intro hnone n e t hrun hcause
  rcases hreported n e t hrun hcause with ⟨frame, rest, _, hmem⟩
  exact hnone _ hmem rfl

/-- A source with a break in a function that is called in a loop. -/
def straySource : Text :=
  utf8 "func f()\x7bbreak;\x7dwhile true\x7bf();\x7d"

/-- Its statements: the function, and the loop with the call. -/
def strayProgram : List Stmt :=
  [.function ⟨.identifier, "f", none, ⟨1, 6⟩⟩ []
      [.leave ⟨.breakWord, "break", none, ⟨1, 10⟩⟩],
    .loop ⟨.whileWord, "while", none, ⟨1, 17⟩⟩
      (.constant (.bool true) ⟨1, 23⟩)
      [.expression (.call (.reference ⟨.identifier, "f", none, ⟨1, 28⟩⟩)
        ⟨.rightParen, ")", none, ⟨1, 30⟩⟩ [])]]

/-- The cause of the fault that a run ends with, if there is one. -/
def causeOf : Outcome Fault Unit → Option RuntimeFault.Cause
  | .fault (.runtime e) _ => some e.cause
  | _ => none

set_option maxRecDepth 4000 in
/-- The loop around the call does not receive the break, and the break is
    reported. -/
theorem straySource_is_reported :
    parseSource straySource = .ok strayProgram ∧
      ∃ e t, runSource 15 straySource (Session.fresh {} false false) = .fault (.runtime e) t ∧
        e.cause = .invalidControl ∧ ∃ frame rest, e.frames = some (frame :: rest) ∧
          ⟨frame.function, e.pos, "break or continue outside of a loop"⟩ ∈ check strayProgram := by
  have hparse : parseSource straySource = .ok strayProgram := by cbv
  have hcause : causeOf (runSource 15 straySource (Session.fresh {} false false)) =
      some .invalidControl := by cbv
  refine ⟨hparse, ?_⟩
  cases hrun : runSource 15 straySource (Session.fresh {} false false) with
  | starved =>
      rw [hrun] at hcause
      cases hcause
  | ok a t =>
      rw [hrun] at hcause
      cases hcause
  | fault e t =>
      rw [hrun] at hcause
      cases e with
      | runtime e =>
          have hcontrol : e.cause = .invalidControl := Option.some.inj hcause
          exact ⟨e, t, rfl, hcontrol,
            (stray_control_is_reported hparse {} false false).1 15 e t hrun hcontrol⟩
      | _ => cases hcause

end Lint

end PocketScript
