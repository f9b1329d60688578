import Mathlib
import PocketScript.Program.Source
import PocketScript.Proofs.Evaluation.Course

/-!
# Calls under way and the traces of faults

A session keeps a list of the calls under way, and a fault copies it. Whether the
list is right is not a question about the session alone. It is a question about
where the run is: a call is under way as long as its body is being worked on, so
the calls under way are the calls among the tasks that the current task lies in.

`Task.Under` keeps these tasks. A program forgets calls that were under way
before it, each call adds itself for its body, and no other task touches the
list, which `Upkeep` says for the start of every part and for the end of every
task, whatever it comes to. So the list is right at every moment.

A fault is handed on as it is by every task but one. There it starts to travel,
with the calls that are under way inside the task. That a call is under way
inside itself and not at its own start is what shifts positions against functions
in a trace: the innermost frame has the position of the fault, and every other
frame has the position of a call that the function of that frame has made.

## Main definitions

* `Task.Under`: A task, and the tasks that it lies in.
* `Task.activeCalls`: The calls of functions among tasks.
* `Task.Raises`: A fault starts to travel in a task.
* `RuntimeFault.Traces`: The frames of a fault are those of some calls.
* `Value.Timed`, `Keeping.timed`: The clock is the only native function.

## Theorems

* `RuntimeFault.traces_attach`: A fault that starts to travel gets its frames.
* `Task.Under.calls_eq`: The calls under way are those that a task lies in.
* `Task.Under.exists_raises`: A fault starts to travel somewhere.
* `Task.not_foreign_of_timed`: The clock hands no frames on.
* `calls_and_traces_are_exact`: At every moment of every run the calls under way
  are right, and so is the trace of every fault.
-/

namespace PocketScript

theorem Outcome.exists_of_fault? {ε α : Type} {o : Outcome ε α} {e : ε} (h : o.fault? = some e) :
    ∃ t, o = .fault e t := by
  cases o with
  | fault e' t => exact ⟨t, by rw [Option.some.inj h]⟩
  | ok a t => cases h
  | starved => cases h

namespace Value

/-- Anything but a native function other than the clock. -/
def Timed (v : Value) : Prop := ∀ f, v = native f → f.action = Native.clock

theorem timed_of_data {v : Value} (hv : v.isCallable = false) : v.Timed := by
  rintro f rfl
  cases hv

theorem timed_clock : (native ⟨"clock", 0, .clock, 0⟩).Timed := by
  rintro f ⟨⟩
  rfl

theorem timed_function (f : Closure) : (function f).Timed := nofun

namespace Timed

variable {f : Builtin} (h : (native f).Timed)
include h

theorem inert : f.action.Inert := by
  rw [h f rfl]
  exact Native.inert_clock

theorem aside (n : Nat) (vs : List Value) (s : Session) :
    (callNative n (f.action (vs.map Value.shown)) vs s).Aside Timed (fun _ => True) s := by
  rw [h f rfl]
  exact callNative_clock_aside _ timed_of_data n _ vs s

end Timed

end Value

/-- Runs that meet no native function but the clock. -/
def Keeping.timed : Keeping :=
  { Keeping.inert with
    value := Value.Timed
    data := Value.timed_of_data
    harmless := Value.Timed.inert
    native := fun n hf _ _ => hf.aside n _ _
    function := fun _ _ => Value.timed_function _
    called := fun _ => trivial }

namespace RuntimeFault

/-- The frames of the fault are those of calls, innermost first: the first is the
    innermost function with the position of the fault, each further one is a
    function with the position of the call that it has made, and the last is the
    outermost code. -/
def Traces (calls : List Frame) (e : RuntimeFault) : Prop :=
  ∃ frames, e.frames = some frames ∧ frames.length = calls.length + 1 ∧
    frames.head? = some ⟨innermost calls, e.pos⟩ ∧
    (∀ i call, calls[i]? = some call →
      frames[i + 1]? = some ⟨innermost (calls.drop (i + 1)), call.pos⟩) ∧
    frames.getLast?.map Frame.function = some scriptName

theorem framesAt_cons (pos : Position) (call : Frame) (calls : List Frame) :
    framesAt pos (call :: calls) = ⟨call.function, pos⟩ :: framesAt call.pos calls := rfl

/-- A frame behind the first is the position of a call in the function that made
    it. -/
theorem getElem?_framesAt (pos : Position) {calls : List Frame} {i : Nat} {call : Frame}
    (h : calls[i]? = some call) :
    (framesAt pos calls)[i + 1]? = some ⟨innermost (calls.drop (i + 1)), call.pos⟩ := by
  induction calls generalizing i pos with
  | nil => simp at h
  | cons first rest ih =>
      rw [framesAt_cons, List.getElem?_cons_succ, List.drop_succ_cons]
      cases i with
      | zero =>
          rw [List.getElem?_cons_zero, Option.some.injEq] at h
          rw [← List.head?_eq_getElem?, head?_framesAt, List.drop_zero, h]
      | succ i =>
          rw [List.getElem?_cons_succ] at h
          exact ih first.pos h

theorem getLast?_framesAt (pos : Position) (calls : List Frame) :
    (framesAt pos calls).getLast?.map Frame.function = some scriptName := by
  induction calls generalizing pos with
  | nil => rfl
  | cons call calls ih =>
      have hne : framesAt call.pos calls ≠ [] := by
        intro hnil
        have hlength := length_framesAt call.pos calls
        rw [hnil] at hlength
        cases hlength
      rw [framesAt_cons, List.getLast?_cons_of_ne_nil hne]
      exact ih call.pos

/-- A fault without frames gets those of the calls that it records. -/
theorem traces_attach {e : RuntimeFault} (h : e.frames = none) (calls : List Frame) :
    (e.attach calls).Traces calls := by
  have hattach : e.attach calls = { e with frames := some (framesAt e.pos calls) } := by
    rw [attach, h]
  rw [hattach]
  exact ⟨framesAt e.pos calls, rfl, length_framesAt _ _, head?_framesAt _ _,
    fun i call hcall => getElem?_framesAt e.pos hcall, getLast?_framesAt _ _⟩

end RuntimeFault

namespace Task

/-- The task lies in the tasks `above`, innermost first, and comes up while
    `root` is worked on. -/
inductive Under (root : Task) : List Task → Task → Prop where
  | root : Under root [] root
  | part {above : List Task} {task part : Task} : Under root above task → part ∈ task.parts →
      Under root (task :: above) part

theorem Under.reaches {root : Task} {above : List Task} {task : Task}
    (h : root.Under above task) : root.Reaches task := by
  induction h with
  | root => exact .refl
  | part _ hpart ih => exact ih.tail hpart

/-- The call that a task is, with the position of the parenthesis that closes
    its arguments. -/
def call? : Task → Option Frame
  | callFunction _ f _ paren _ => some ⟨f.name, paren.pos⟩
  | _ => none

/-- The calls of functions among tasks. -/
def activeCalls (tasks : List Task) : List Frame := tasks.filterMap call?

/-- The fault starts to travel in this task: it comes to the fault, and none of
    its parts does. -/
def Raises (task : Task) (e : RuntimeFault) : Prop :=
  task.fault? = some e ∧ ∀ part ∈ task.parts, part.fault? = none

theorem activeCalls_cons (task : Task) (tasks : List Task) :
    activeCalls (task :: tasks) = task.call?.toList ++ activeCalls tasks := by
  rw [activeCalls, List.filterMap_cons]
  cases task.call? <;> rfl

section

variable {n : Nat} {p : List Stmt} {s : Session} {above : List Task} {task : Task}

/-- Inside a task the calls are under way that were under way at its start, and
    the task itself if it is a call. -/
theorem calls_inside (h : Upkeep.Fits False task) :
    task.inside.calls = task.call?.toList ++ task.session.calls := by
  cases task with
  | interpret n p s => exact h.1.elim
  | _ => rfl

variable (hs : Upkeep.Sound False s.store)
include hs

/-- The calls under way at the start of a part are those inside its task. -/
theorem Under.calls_part (h : (interpret n p s).Under above task) {part : Task}
    (hpart : part ∈ task.parts) (hfits : above ≠ [] → Upkeep.Fits False task) :
    Upkeep.Fits False part ∧ part.session.calls = task.inside.calls := by
  cases h with
  | root =>
      rcases Upkeep.interpret_hands hs hpart with ⟨hpart, hafter⟩
      exact ⟨hpart, hafter.calls.resolve_left id⟩
  | part _ _ =>
      rcases (hfits (List.cons_ne_nil _ _)).part hpart with ⟨hpart, hafter⟩
      exact ⟨hpart, hafter.calls.resolve_left id⟩

/-- The calls under way inside a task are those among the tasks it lies in, the
    task included, and a task that lies in others starts in order. -/
theorem Under.calls_inside (h : (interpret n p s).Under above task) :
    task.inside.calls = activeCalls (task :: above) ∧ (above ≠ [] → Upkeep.Fits False task ∧
      task.session.calls = activeCalls above) := by
  induction h with
  | root => exact ⟨rfl, fun hnil => absurd rfl hnil⟩
  | @part above task part h hpart ih =>
      rcases h.calls_part hs hpart fun hne => (ih.2 hne).1 with ⟨hfits, hcalls⟩
      rw [ih.1] at hcalls
      refine ⟨?_, fun _ => ⟨hfits, hcalls⟩⟩
      rw [Task.calls_inside hfits, hcalls, activeCalls_cons part]

/-- Every task leaves the calls under way as it found them. -/
theorem Under.calls_left (h : (interpret n p s).Under above task) (habove : above ≠ [])
    {t : Session} (ht : task.left? = some t) : t.calls = activeCalls above := by
  rcases (h.calls_inside hs).2 habove with ⟨hfits, hcalls⟩
  rw [← hcalls]
  exact (hfits.course.left t ht).calls.resolve_left id

/-- A fault comes from a part, or it starts to travel here. -/
theorem Under.origin (h : (interpret n p s).Under above task) {e : RuntimeFault}
    (he : task.fault? = some e) : (∃ part ∈ task.parts, part.fault? = some e) ∨
      ((∀ part ∈ task.parts, part.fault? = none) ∧
        Upkeep.Starts False task.inside task.Foreign e) := by
  cases above with
  | cons outer above =>
      rcases (h.calls_inside hs).2 (List.cons_ne_nil _ _) with ⟨hfits, _⟩
      exact hfits.course.origin id e he
  | nil =>
      cases h
      cases n with
      | zero => simp [fault?, PocketScript.interpret, Outcome.fault?] at he
      | succ n => exact (Upkeep.interpret_goes (Upkeep.holds n) hs).origin id e he

/-- A fault that starts to travel has the frames of the calls under way. -/
theorem Under.traces (h : (interpret n p s).Under above task) {e : RuntimeFault}
    (he : task.Raises e) (hforeign : ¬ task.Foreign) : e.Traces (activeCalls (task :: above)) := by
  rcases h.origin hs he.1 with ⟨part, hpart, hsame⟩ | ⟨_, e₀, t, ht, rfl, hframes⟩
  · rw [he.2 part hpart] at hsame
    cases hsame
  · rw [← (h.calls_inside hs).1, ← ht.calls.resolve_left id]
    exact RuntimeFault.traces_attach (hframes.resolve_right hforeign) t.calls

/-- A fault that a task comes to starts to travel in it. -/
theorem Under.exists_raises (h : (interpret n p s).Under above task) {e : RuntimeFault}
    (he : task.fault? = some e) :
    ∃ above' task', (interpret n p s).Under above' task' ∧ task'.Raises e := by
  -- Parts have a smaller counter, so a fault cannot come from parts for ever.
  generalize hcounter : task.counter = k
  induction k using Nat.strongRecOn generalizing above task with
  | _ k ih =>
    rcases h.origin hs he with ⟨part, hpart, hsame⟩ | ⟨hnone, _⟩
    · have hunder := Under.part h hpart
      have hsmaller : part.counter < task.counter := counter_lt_of_mem_parts hpart
      exact ih part.counter (hcounter ▸ hsmaller) hunder hsame rfl
    · exact ⟨above, task, h, he, hnone⟩

end

end Task

/-- In every run with native functions that have nothing carried out, the calls under
    way are right at every moment: at the start of a task and at its end, whatever
    it comes to, they are the calls of functions that the task lies in, and the
    program leaves none. Every fault that the evaluator raises has a frame for the
    place where it started to travel and one for each call under way there, and
    every fault that a program comes to started to travel somewhere in its run. -/
theorem calls_and_traces_are_exact {s : Session} (hs : s.Reachable Native.Leaf) (n : Nat)
    (p : List Stmt) :
    (∀ above task, (Task.interpret n p s).Under above task → above ≠ [] →
      task.session.calls = Task.activeCalls above ∧
        ∀ t, task.left? = some t → t.calls = Task.activeCalls above) ∧
    (∀ t, (interpret n p s).session? = some t → t.calls = []) ∧
    (∀ above task e, (Task.interpret n p s).Under above task → task.Raises e → ¬ task.Foreign →
      e.Traces (Task.activeCalls (task :: above))) ∧
    ∀ e t, interpret n p s = .fault e t →
      ∃ above task, (Task.interpret n p s).Under above task ∧ task.Raises e := by
  have hsound : Upkeep.Sound False s.store := hs.sound fun _ hleaf => Or.inr hleaf
  refine ⟨fun above task h habove => ⟨?_, fun t ht => ?_⟩, fun t ht => ?_,
    fun above task e h he hforeign => h.traces hsound he hforeign, fun e t hfault => ?_⟩
  · exact ((h.calls_inside hsound).2 habove).2
  · exact h.calls_left hsound habove ht
  · exact (((Upkeep.holds n).interpret hsound).left ht).calls.resolve_left id
  · have he : (Task.interpret n p s).fault? = some e := by
      rw [Task.fault?, hfault]
      rfl
    exact Task.Under.root.exists_raises hsound he

/-- In a session with nothing but the clock no fault comes from a native function
    with frames. -/
theorem Task.not_foreign_of_timed {n : Nat} {p : List Stmt} {s : Session} {task : Task}
    (hs : s.store.Holds Value.Timed) (h : (Task.interpret n p s).Reaches task) :
    ¬ task.Foreign := by
  have hroot : Keeping.timed.Fits (.interpret n p s) := ⟨trivial, trivial, trivial, hs⟩
  have hfits : Keeping.timed.Fits task := hroot.reaches trivial h
  intro hforeign
  unfold Task.Foreign at hforeign
  split at hforeign
  case h_1 n f args _ s =>
    rcases hforeign with ⟨_, e, t, hfault, _⟩
    have hclock : f.action = Native.clock := hfits.1 f rfl
    have haside := callNative_clock_aside (fun _ => False) Value.timed_of_data n
      (args.map Value.shown) args s
    rw [hclock] at hfault
    rw [hfault] at haside
    exact haside.1 e rfl []
  case h_2 => exact hforeign

/-- `func f() { y; } func g() { f(); } g();` -/
def nestedSource : Text :=
  utf8 "func f() \x7b y; \x7d func g() \x7b f(); \x7d g();"

set_option maxRecDepth 4000 in
/-- A fault two calls deep has three frames. It starts to travel below both calls,
    in a task of the running program, and its frames are those of the calls that
    this task lies in. -/
theorem nestedSource_trace_is_exact :
    ∃ p e t, (Session.fresh {} false false).Reachable Native.Leaf ∧
      parseSource nestedSource = .ok p ∧
      interpret 20 p (Session.fresh {} false false) = .fault e t ∧ t.calls = [] ∧
      e.frames = some [⟨"f", ⟨1, 12⟩⟩, ⟨"g", ⟨1, 30⟩⟩, ⟨RuntimeFault.scriptName, ⟨1, 37⟩⟩] ∧
      ∃ above task, (Task.interpret 20 p (Session.fresh {} false false)).Under above task ∧
        task.Raises e ∧ ¬ task.Foreign ∧ e.Traces (Task.activeCalls (task :: above)) := by
  have hfresh : (Session.fresh {} false false).Reachable Native.Leaf := .fresh {} false false
  have hruns : ((parseSource nestedSource).toOption.bind fun p =>
      (interpret 20 p (Session.fresh {} false false)).fault?.bind RuntimeFault.frames) =
      some [⟨"f", ⟨1, 12⟩⟩, ⟨"g", ⟨1, 30⟩⟩, ⟨RuntimeFault.scriptName, ⟨1, 37⟩⟩] := by cbv
  rcases Option.bind_eq_some_iff.mp hruns with ⟨p, hp, hfault⟩
  have hparse : parseSource nestedSource = .ok p := by
    cases hresult : parseSource nestedSource with
    | error e => simp [hresult, Except.toOption] at hp
    | ok p' =>
        rw [hresult] at hp
        rw [Option.some.inj hp]
  rcases Option.bind_eq_some_iff.mp hfault with ⟨e, he, hframes⟩
  rcases Outcome.exists_of_fault? he with ⟨t, ht⟩
  rcases calls_and_traces_are_exact hfresh 20 p with ⟨_, hleft, htraces, horigin⟩
  rcases horigin e t ht with ⟨above, task, hunder, hraises⟩
  have hhome : ¬ task.Foreign :=
    Task.not_foreign_of_timed (Session.holds_fresh {} false false Value.timed_clock)
      hunder.reaches
  refine ⟨p, e, t, hfresh, hparse, ht, hleft t ?_, hframes, above, task,
    hunder, hraises, hhome, htraces above task e hunder hraises hhome⟩
  rw [ht]
  rfl

end PocketScript
