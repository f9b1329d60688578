import Mathlib
import PocketScript.Proofs.Evaluation.Blame
import PocketScript.Proofs.Evaluation.Keeping

/-!
# Whose line a code frame shows

A fault of a running program is shown with a line of source. The fault knows a
line number and no source, and the line is taken from the source whose run has
failed.

That is the line of the failing token if the token is in that source. It need
not be: a function stays bound after the run that declared it, and a later run
can call it. Then the number comes from one source and the line from another.
So two things are shown here of any sequence of runs. The line is always that
of the source whose run failed. And the failing token stands where the fault
says it does, in one of the sources that were run so far, which is the last one
unless a call was under way.

## Main definitions

* `Session.Ran`: A session in which some sources were run.
* `Site.Declared`: A site of a function that a source declares.
* `Site.Reachable`: A site of the source that runs, or of a function of an
  earlier one.
* `Blame.EndsRun`: How a source ends, faults included.

## Theorems

* `Blame.runSource_ends`: A fault gets a line of the source that ran.
* `Session.Ran.holds`: All functions in a session are written by sources that
  were run in it.
* `frame_shows_line_of_running_source`: Which line is shown, and where the
  failing token stands.
* `earlier_function_is_shown_in_later_source`: The two can differ.
-/

namespace PocketScript

open RuntimeFault (framesAt)

namespace Session

/-- Sources were run in a fresh session, one after the other, the last one
    first in the list. Each of them came to an end or to a fault. -/
inductive Ran : List Text → Session → Prop where
  | fresh (clock : Clock) (muted logging : Bool) : Ran [] (fresh clock muted logging)
  | run {earlier : List Text} {source : Text} {s t : Session} {n : Nat} : Ran earlier s →
      (runSource n source s).session? = some t → Ran (source :: earlier) t

end Session

/-- Sites of functions that sources declare. -/
def Site.Declared (sources : List Text) (site : Site) : Prop :=
  site.function.isSome = true ∧ ∃ origin ∈ sources, site.WrittenIn origin

/-- The sites that a run can reach: those of the source itself, and those of
    functions that earlier sources declared. -/
def Site.Reachable (source : Text) (earlier : List Text) (site : Site) : Prop :=
  site.WrittenIn source ∨ site.Declared earlier

namespace Blame

theorem Sited.mono {A B : Site → Prop} {v : Value} (h : Sited A v)
    (hAB : ∀ site : Site, site.function.isSome = true → A site → B site) : Sited B v := by
  cases v with
  | function f =>
      intro site hsite
      exact hAB site (Stmt.function_isSome_all f.body hsite) (h site hsite)
  | native f => exact h
  | _ => trivial

/-- A fault that can be blamed on a token gets a line of the source that ran. -/
theorem Blamed.located {A : Site → Prop} {e : RuntimeFault} (h : e.Blamed A) (source : Text) :
    (e.located source).codeFrame = codeFrame source (e.located source).pos ∧
      ∃ calls culprit, (e.located source).Blames A calls culprit := by
  rcases h with ⟨⟨calls, culprit, hblames⟩, hbare⟩
  have hlocated : e.located source = { e with codeFrame := codeFrame source e.pos } := by
    rw [RuntimeFault.located, hbare]
    rfl
  rw [hlocated]
  exact ⟨rfl, calls, culprit, hblames.site, hblames.raised, hblames.frames⟩

/-- How a source ends: a fault of the running program shows a line of this
    source, and can be blamed on a token whose site has the property. -/
def EndsRun (A : Site → Prop) (source : Text) : Outcome Fault Unit → Prop
  | .ok _ t => t.store.Holds (Sited A)
  | .fault (.runtime e) t => (e.codeFrame = codeFrame source e.pos ∧
      ∃ calls culprit, e.Blames A calls culprit) ∧ t.store.Holds (Sited A)
  | .fault _ t => t.store.Holds (Sited A)
  | .starved => True

/-- Sources end like that if their sites have the property, and those of all
    functions that are bound already. -/
theorem runSource_ends {A : Site → Prop} {source : Text} {s : Session} (n : Nat)
    (hsource : ∀ site : Site, site.WrittenIn source → A site) (hs : s.store.Holds (Sited A)) :
    EndsRun A source (runSource n source s) := by
  cases n with
  | zero =>
      simp only [runSource]
      trivial
  | succ n =>
      simp only [runSource]
      cases hscan : Token.scan source with
      | error e => exact hs
      | ok ts =>
          have hready : (s.begin.keepRemarks (parse ts).remarks).store.Holds (Sited A) := by
            rw [(Session.store_keepRemarks _ _).1]
            exact hs
          simp only
          cases hparse : (parse ts).outcome with
          | error e => exact hready
          | ok p =>
              have hp : parseSource source = .ok p := (parseSource_eq_ok_iff hscan p).mpr hparse
              have hstart := Session.store_note (.parsed ts.length p.length)
                (s.begin.keepRemarks (parse ts).remarks)
              have hends := interpret_ends n (fun site hsite => hsource site ⟨p, hp, hsite⟩)
                (hstart ▸ hready)
              simp only
              generalize interpret n p _ = o at hends ⊢
              cases o with
              | starved => trivial
              | ok a t =>
                  have hkept : (t.conclude true).store.Holds (Sited A) := by
                    rw [(Session.store_conclude true t).1]
                    exact hends.2.values
                  exact hkept
              | fault e t =>
                  have hkept : (t.conclude false).store.Holds (Sited A) := by
                    rw [(Session.store_conclude false t).1]
                    exact hends.2.values
                  exact ⟨Blamed.located hends.1 source, hkept⟩

end Blame

namespace Session

/-- All functions in a session are written by sources that were run in it. -/
theorem Ran.holds {sources : List Text} {s : Session} (h : Ran sources s) :
    s.store.Holds (Blame.Sited (Site.Declared sources)) := by
  induction h with
  | fresh clock muted logging =>
      exact holds_fresh clock muted logging rfl
  | @run earlier source s t n _ ht ih =>
      have hreach : s.store.Holds (Blame.Sited (Site.Reachable source earlier)) :=
        fun id name v hv => (ih id name v hv).mono fun site _ hsite => .inr hsite
      have hends := Blame.runSource_ends n (fun site hsite => .inl hsite) hreach
      -- Whatever came of the run, what it left in the store was declared by it
      -- or by one before.
      have hleft : t.store.Holds (Blame.Sited (Site.Reachable source earlier)) := by
        generalize runSource n source s = o at hends ht
        cases o with
        | starved => cases ht
        | ok a u => exact Option.some.inj ht ▸ hends
        | fault e u =>
            rw [← Option.some.inj ht]
            cases e with
            | runtime e => exact hends.2
            | _ => exact hends
      refine fun id name v hv => (hleft id name v hv).mono fun site hsome hsite => ?_
      rcases hsite with hwritten | ⟨_, origin, hmem, hwritten⟩
      · exact ⟨hsome, source, List.mem_cons_self, hwritten⟩
      · exact ⟨hsome, origin, List.mem_cons_of_mem source hmem, hwritten⟩

end Session

/-- A run that fails shows a line of its own source. The failing token stands
    at the position of the fault in one of the sources that were run, in the
    function that was being carried out, and with no call under way it stands in
    the outermost code of the source whose line is shown. -/
theorem frame_shows_line_of_running_source {earlier : List Text} {s : Session}
    (hran : s.Ran earlier) {n : Nat} {source : Text} {e : RuntimeFault} {t : Session}
    (hrun : runSource n source s = .fault (.runtime e) t) :
    e.codeFrame = codeFrame source e.pos ∧
      ∃ calls culprit, e.frames = some (framesAt e.pos calls) ∧ culprit.pos = e.pos ∧
        ∃ origin ∈ source :: earlier, Site.WrittenIn origin ⟨underway calls, culprit⟩ ∧
          (calls = [] → origin = source) := by
  have hreach : s.store.Holds (Blame.Sited (Site.Reachable source earlier)) :=
    fun id name v hv => (hran.holds id name v hv).mono fun site _ hsite => .inr hsite
  have hends := Blame.runSource_ends n (fun site hsite => .inl hsite) hreach
  rw [hrun] at hends
  rcases hends with ⟨⟨hframe, calls, culprit, hblames⟩, _⟩
  refine ⟨hframe, calls, culprit, hblames.frames, hblames.pos, ?_⟩
  rcases hblames.site with hwritten | ⟨hsome, origin, hmem, hwritten⟩
  · exact ⟨source, List.mem_cons_self, hwritten, fun _ => rfl⟩
  · refine ⟨origin, List.mem_cons_of_mem source hmem, hwritten, fun hnone => ?_⟩
    -- A token of an earlier source is in a function, so there is a call.
    rw [hnone] at hsome
    cases hsome

/-- A source with a function that fails. -/
def declaringSource : Text := utf8 "func f() \x7b return missing; \x7d"

/-- A source that calls it. -/
def callingSource : Text := utf8 "f();"

/-- A source that fails by itself, on its second line. -/
def failingSource : Text := utf8 "x = 1;\nmissing;"

/-- The line that a fault shows, its position and the number of its frames. -/
def shownAt : Outcome Fault Unit → Option (Text × Position × Nat)
  | .fault (.runtime e) _ => some (e.codeFrame, e.pos, (e.frames.getD []).length)
  | _ => none

theorem exists_of_shownAt {o : Outcome Fault Unit} {frame : Text} {p : Position} {n : Nat}
    (h : shownAt o = some (frame, p, n)) :
    ∃ e t, o = .fault (.runtime e) t ∧ e.codeFrame = frame ∧ e.pos = p ∧
      (e.frames.getD []).length = n := by
  cases o with
  | ok a t => cases h
  | starved => cases h
  | fault e t =>
      cases e with
      | runtime e =>
          have hshown : (e.codeFrame, e.pos, (e.frames.getD []).length) = (frame, p, n) :=
            Option.some.inj h
          simp only [Prod.mk.injEq] at hshown
          exact ⟨e, t, rfl, hshown⟩
      | _ => cases h

/-- With the function bound, calling it fails at a position past the end of the call, and
    the other source fails with no call under way. -/
theorem later_runs_fail :
    ∃ s, Session.Ran [declaringSource] s ∧
      (∃ e t, runSource 20 callingSource s = .fault (.runtime e) t ∧
        e.codeFrame = codeFrame callingSource ⟨1, 19⟩ ∧ e.pos = ⟨1, 19⟩) ∧
      ∃ e t, runSource 20 failingSource s = .fault (.runtime e) t ∧
        e.codeFrame = codeFrame failingSource ⟨2, 1⟩ ∧ e.pos = ⟨2, 1⟩ ∧
          (e.frames.getD []).length = 1 := by
  have hruns : (runSource 20 declaringSource (Session.fresh {} false false)).session?.map
      (fun s => (shownAt (runSource 20 callingSource s), shownAt (runSource 20 failingSource s))) =
      some (some (codeFrame callingSource ⟨1, 19⟩, ⟨1, 19⟩, 2),
        some (codeFrame failingSource ⟨2, 1⟩, ⟨2, 1⟩, 1)) := by decide +kernel
  rcases Option.map_eq_some_iff.mp hruns with ⟨s, hs, hshown⟩
  rw [Prod.mk.injEq] at hshown
  rcases exists_of_shownAt hshown.1 with ⟨e, t, hrun, hframe, hpos, _⟩
  exact ⟨s, .run (.fresh {} false false) hs, ⟨e, t, hrun, hframe, hpos⟩,
    exists_of_shownAt hshown.2⟩

/-- What the call shows is a line of the source with the call. The other source shows the
    line that the failing token stands on, in the outermost code. -/
theorem calling_shows_line_of_call :
    ∃ s, Session.Ran [declaringSource] s ∧
      (∃ e t, runSource 20 callingSource s = .fault (.runtime e) t ∧
        e.codeFrame = codeFrame callingSource e.pos ∧
        ∃ calls culprit, e.frames = some (framesAt e.pos calls) ∧ culprit.pos = e.pos ∧
          ∃ origin ∈ [callingSource, declaringSource],
            Site.WrittenIn origin ⟨underway calls, culprit⟩ ∧
            (calls = [] → origin = callingSource)) ∧
      ∃ e t, runSource 20 failingSource s = .fault (.runtime e) t ∧ e.pos = ⟨2, 1⟩ ∧
        e.codeFrame = codeFrame failingSource e.pos ∧
        ∃ culprit, culprit.pos = e.pos ∧ Site.WrittenIn failingSource ⟨none, culprit⟩ := by
  rcases later_runs_fail with
    ⟨s, hran, ⟨e, t, hrun, _, _⟩, e', t', hrun', _, hpos', hlength⟩
  refine ⟨s, hran, ⟨e, t, hrun, frame_shows_line_of_running_source hran hrun⟩,
    e', t', hrun', hpos', ?_⟩
  rcases frame_shows_line_of_running_source hran hrun' with
    ⟨hframe, calls, culprit, hframes, hculprit, origin, _, hwritten, hown⟩
  have hnone : calls = [] := by
    rw [hframes, Option.getD_some, length_framesAt] at hlength
    exact List.length_eq_zero_iff.mp (Nat.succ.inj hlength)
  rw [hown hnone, hnone] at hwritten
  exact ⟨hframe, culprit, hculprit, hwritten⟩

theorem exists_site_in_declaringSource :
    ∃ site : Site, site.WrittenIn declaringSource ∧ site.token.pos = ⟨1, 19⟩ := by
  have hpositions : (parseSource declaringSource).toOption.map
      (fun p => (Stmt.sitesAll none p).map fun site => site.token.pos) =
      some [⟨1, 6⟩, ⟨1, 12⟩, ⟨1, 19⟩] := by cbv
  cases hparse : parseSource declaringSource with
  | error e =>
      rw [hparse] at hpositions
      cases hpositions
  | ok p =>
      rw [hparse] at hpositions
      have hlist : (Stmt.sitesAll none p).map (fun site => site.token.pos) =
          [⟨1, 6⟩, ⟨1, 12⟩, ⟨1, 19⟩] := Option.some.inj hpositions
      have hmem : (⟨1, 19⟩ : Position) ∈ (Stmt.sitesAll none p).map fun site => site.token.pos := by
        rw [hlist]
        decide
      rcases List.mem_map.mp hmem with ⟨site, hsite, hpos⟩
      exact ⟨site, ⟨p, hparse, hsite⟩, hpos⟩

theorem pos_ne_of_scan_callingSource {ts : List Token} (h : Token.scan callingSource = .ok ts)
    {t : Token} (ht : t ∈ ts) : t.pos ≠ ⟨1, 19⟩ := by
  have hpositions : (Token.scan callingSource).toOption.map (List.map Token.pos) =
      some [⟨1, 1⟩, ⟨1, 2⟩, ⟨1, 3⟩, ⟨1, 4⟩, ⟨1, 5⟩] := by cbv
  rw [h] at hpositions
  have hlist : ts.map Token.pos = [⟨1, 1⟩, ⟨1, 2⟩, ⟨1, 3⟩, ⟨1, 4⟩, ⟨1, 5⟩] :=
    Option.some.inj hpositions
  have hmem : t.pos ∈ ts.map Token.pos := List.mem_map_of_mem ht
  intro hpos
  rw [hpos, hlist] at hmem
  exact absurd hmem (by decide)

/-- But the failing token is in the other source. The line with it is not the
    line that is shown, and the source of the line that is shown has no token at
    that position. -/
theorem earlier_function_is_shown_in_later_source :
    ∃ s e t, Session.Ran [declaringSource] s ∧
      runSource 20 callingSource s = .fault (.runtime e) t ∧ e.codeFrame ≠ [] ∧
      (∃ site : Site, site.WrittenIn declaringSource ∧ site.token.pos = e.pos) ∧
      (∀ ts, Token.scan callingSource = .ok ts → ∀ culprit ∈ ts, culprit.pos ≠ e.pos) ∧
      e.codeFrame ≠ codeFrame declaringSource e.pos := by
  rcases later_runs_fail with ⟨s, hran, ⟨e, t, hrun, hframe, hpos⟩, _⟩
  have hshown : (codeFrame callingSource ⟨1, 19⟩).isEmpty = false := by cbv
  have hother : (codeFrame callingSource ⟨1, 19⟩ == codeFrame declaringSource ⟨1, 19⟩) = false := by
    cbv
  refine ⟨s, e, t, hran, hrun, ?_, ?_, ?_, ?_⟩
  · rw [hframe]
    intro hnil
    rw [hnil] at hshown
    cases hshown
  · rw [hpos]
    exact exists_site_in_declaringSource
  · rw [hpos]
    exact fun ts hscan culprit hmem => pos_ne_of_scan_callingSource hscan hmem
  · rw [hframe, hpos]
    exact beq_eq_false_iff_ne.mp hother

end PocketScript
