import Mathlib
import PocketScript.Proofs.Evaluation.Reachable

/-!
# What a call does to the levels that were there before

Every way to bind a name binds it in the level where the code is carried out,
and the code of a function is carried out in a level that the call has opened.
So whatever a call does, directly or through the functions that it calls, no
level that was there before gets a binding or another value for one. The one
way out is a delete statement, which goes outwards until it finds the name, and
so a call can take bindings away from the levels around its function.

Both halves are one property that runs keep, for a relation between what a
level was and what it is. Without delete statements the relation is equality,
and otherwise it is one that removing a name respects.

## Main definitions

* `Level.Within`: A level with no more bindings than another.
* `Store.Retains`: A store that has every level of another.
* `Keeping.confining`: The levels of a store are retained.

## Theorems

* `Store.Retains.update`, `Store.Retains.remove`, `Store.Retains.openLevel`:
  Changes that retain.
* `retains_of_callFunction`: Calls retain what was there.
* `callFunction_takes_away_only`: Calls take bindings away and do nothing else.
-/

namespace PocketScript

/-- The level lies where the other does, and what it binds the other binds to
    the same value. -/
structure Level.Within (l' l : Level) : Prop where
  outer : l'.outer = l.outer
  bindings : ∀ name v, Text.Dict.find? name l'.bindings = some v →
    Text.Dict.find? name l.bindings = some v

theorem Level.Within.refl (l : Level) : l.Within l := ⟨rfl, fun _ _ h => h⟩

theorem Level.Within.erase {l' l : Level} (h : l'.Within l) (name : Text) :
    Level.Within { l' with bindings := Text.Dict.erase name l'.bindings } l := by
  refine ⟨h.outer, ?_⟩
  intro name' v hv
  rw [Text.Dict.find?_erase] at hv
  split at hv
  · cases hv
  · exact h.bindings name' v hv

namespace Store

/-- The second store has every level of the first, changed as `R` allows. -/
structure Retains (R : Level → Level → Prop) (s t : Store) : Prop where
  size : s.levels.size ≤ t.levels.size
  level : ∀ id l, s.level? id = some l → ∃ l', t.level? id = some l' ∧ R l' l

variable {R : Level → Level → Prop} {s t : Store}

/-- Changing the bindings of a level is allowed by `R`, or the level is new. -/
theorem Retains.update (h : s.Retains R t) {id : LevelId} {f : Bindings → Bindings}
    (hf : s.levels.size ≤ id ∨ ∀ l' l, R l' l → R { l' with bindings := f l'.bindings } l) :
    s.Retains R (t.update id f) := by
  refine ⟨by rw [size_update]; exact h.size, ?_⟩
  intro id' l hl
  rcases h.level id' l hl with ⟨l', hl', hR⟩
  rw [level?_update]
  by_cases hid : id = id'
  · have hlt := lt_size_of_level? hl
    rcases hf with hnew | hallowed
    · exact absurd (hid ▸ hlt) (Nat.not_lt.mpr hnew)
    · rw [if_pos hid, hl']
      exact ⟨_, rfl, hallowed l' l hR⟩
  · rw [if_neg hid]
    exact ⟨l', hl', hR⟩

theorem Retains.remove (h : s.Retains R t)
    (herase : ∀ name l' l, R l' l → R { l' with bindings := Text.Dict.erase name l'.bindings } l)
    {id : LevelId} {name : Text} {u : Store} (hu : t.remove id name = some u) :
    s.Retains R u := by
  rcases exists_of_remove hu with ⟨home, rfl⟩
  exact h.update (Or.inr (herase name))

theorem Retains.openLevel (h : s.Retains R t) (outer : Option LevelId) :
    s.Retains R (t.openLevel outer).2 := by
  refine ⟨by rw [size_openLevel]; exact Nat.le_succ_of_le h.size, ?_⟩
  intro id l hl
  rcases h.level id l hl with ⟨l', hl', hR⟩
  rw [level?_openLevel, if_neg (Nat.ne_of_lt (lt_size_of_level? hl'))]
  exact ⟨l', hl', hR⟩

/-- From a new level inside another, names of the other are found there. -/
theorem remove_openLevel {id : LevelId} {name : Text} {v : Value}
    (h : Text.Dict.find? name (s.bindings id) = some v) :
    (s.openLevel (some id)).2.remove s.levels.size name =
      some ((s.openLevel (some id)).2.update id (Text.Dict.erase name)) := by
  have hlt := lt_size_of_find? h
  have hempty : s.bindings s.levels.size = [] := by
    rw [bindings, level?, Array.getElem?_eq_none (Nat.le_refl _)]
    rfl
  -- The chain of the new level is the new level and the chain of the other,
  -- which starts with the other.
  have hchain : (s.openLevel (some id)).2.chain s.levels.size =
      s.levels.size :: (s.openLevel (some id)).2.chain id := by
    rw [chain, level?_openLevel, if_pos rfl]
    exact if_pos hlt
  have hhead : ((s.openLevel (some id)).2.chain id).head? = some id := by
    rw [chain, level?_openLevel, if_neg (Nat.ne_of_lt hlt), level?, Array.getElem?_eq_getElem hlt]
    split
    · rename_i hnone
      cases hnone
    · split
      · rfl
      · split <;> rfl
  rcases List.head?_eq_some_iff.mp hhead with ⟨rest, hrest⟩
  have hnear : (Text.Dict.find? name ((s.openLevel (some id)).2.bindings s.levels.size)).isSome =
      false := by
    rw [bindings_openLevel, hempty]
    rfl
  have hfound : (Text.Dict.find? name ((s.openLevel (some id)).2.bindings id)).isSome = true := by
    rw [bindings_openLevel, h]
    rfl
  rw [remove, home?, hchain, hrest]
  simp only [List.find?_cons, hnear, hfound, Option.map_some]

end Store

/-- Runs that are carried out in levels that are not in a given store, and
    retain its levels. -/
def Keeping.confining (s : Store) (R : Level → Level → Prop) (deletes : Prop)
    (herase : deletes → ∀ name l' l, R l' l →
      R { l' with bindings := Text.Dict.erase name l'.bindings } l) : Keeping :=
  -- A level that code is carried out in was opened after the store was as given.
  .ofInert (fun id => s.levels.size ≤ id) (fun t => s.Retains R t.store) deletes
    (fun _ _ ht hl => ht.update (Or.inl hl))
    (fun hdeletes ht hremove => ht.remove (herase hdeletes) hremove)
    (fun home ht => ⟨ht.size, ht.openLevel (some home)⟩)
    (fun ht hstore _ => hstore ▸ ht)

/-- Calls retain the levels that were there before. -/
theorem retains_of_callFunction {R : Level → Level → Prop} {deletes : Prop}
    (hrefl : ∀ l, R l l) (herase : deletes → ∀ name l' l, R l' l →
      R { l' with bindings := Text.Dict.erase name l'.bindings } l)
    {n : Nat} {f : Closure} {args : List Value} {paren : Token} {s t : Session}
    (hs : s.store.Holds Value.Inert) (hargs : ∀ v ∈ args, v.Inert)
    (hquiet : deletes ∨ (Task.callFunction n f args paren s).WithoutDelete)
    (ht : (callFunction n f args paren s).session? = some t) :
    s.store.Retains R t.store := by
  have hkept : (Keeping.confining s.store R deletes herase).Kept s :=
    ⟨⟨Nat.le_refl _, fun id l hl => ⟨l, hl, hrefl l⟩⟩, hs⟩
  exact ((Keeping.callFunction hquiet (Value.inert_function f) hargs hkept).kept ht).session

/-- The function with no parameters that removes one name. -/
def Closure.deleting (home : LevelId) (name : Token) : Closure :=
  ⟨name.lexeme, [], [.delete name [name]], home, 0⟩

/-- Calling it removes the name from the level it was declared in. -/
theorem callFunction_deleting {s : Session} {id : LevelId} {name : Token} {v : Value}
    (h : Text.Dict.find? name.lexeme (s.store.bindings id) = some v) (paren : Token) :
    ∃ t, callFunction 4 (.deleting id name) [] paren s = .ok .null t ∧
      Text.Dict.find? name.lexeme (t.store.bindings id) = none := by
  have hremove := Store.remove_openLevel h
  generalize hopened : (s.store.openLevel (some id)).2 = opened at hremove
  have hdelete : opened.delete s.store.levels.size name =
      .ok (opened.update id (Text.Dict.erase name.lexeme)) := by
    rw [Store.delete, hremove]
  have hreceived : s.received (.deleting id name) [] paren =
      { s with store := opened, calls := ⟨name.lexeme, paren.pos⟩ :: s.calls } := by
    rw [← hopened]
    rfl
  refine ⟨{ s with store := opened.update id (Text.Dict.erase name.lexeme) }, ?_, ?_⟩
  · rw [callFunction_eq_finishCall, hreceived]
    simp only [Closure.deleting, execAll, exec, deleteAll, hdelete, Outcome.andThen, finishCall]
    rfl
  · have hlt : id < opened.levels.size := by
      rw [← hopened, Store.size_openLevel]
      exact Nat.lt_succ_of_lt (Store.lt_size_of_find? h)
    rw [Store.bindings_update, if_pos ⟨rfl, hlt⟩, Text.Dict.find?_erase, if_pos rfl]

/-- A call in any state of a session that is offered inert native functions. If
    it ends, whether with a value or with a fault, every level that was there
    before is still there and binds the same values to the same names, less
    what was removed, and if no delete statement was carried out nothing was.
    Removing is possible: each binding of each level can be removed by a call. -/
theorem callFunction_takes_away_only {s : Session} (hs : s.Reachable Native.Inert) :
    (∀ n f args paren t, (∀ v ∈ args, v.Inert) →
      (callFunction n f args paren s).session? = some t →
        (∀ id l, s.store.level? id = some l →
          ∃ l', t.store.level? id = some l' ∧ l'.Within l) ∧
        ((Task.callFunction n f args paren s).WithoutDelete →
          ∀ id l, s.store.level? id = some l → t.store.level? id = some l)) ∧
    (∀ id (name : Token) v, Text.Dict.find? name.lexeme (s.store.bindings id) = some v →
      ∃ n f paren t, f.params = [] ∧ (callFunction n f [] paren s).session? = some t ∧
        Text.Dict.find? name.lexeme (t.store.bindings id) = none) := by
  have hholds := hs.holds_inert
  constructor
  · intro n f args paren t hargs ht
    constructor
    · exact (retains_of_callFunction (R := Level.Within) Level.Within.refl
        (fun _ name l' l h => h.erase name) hholds hargs (Or.inl trivial) ht).level
    · -- Without delete statements nothing that `R` has to allow comes up.
      intro hwithout id l hl
      have hretains := retains_of_callFunction (R := Eq) (fun _ => rfl) False.elim hholds hargs
        (Or.inr hwithout) ht
      rcases hretains.level id l hl with ⟨l', hl', rfl⟩
      exact hl'
  · intro id name v hv
    rcases callFunction_deleting hv name with ⟨t, ht, hgone⟩
    exact ⟨4, .deleting id name, name, t, rfl, by rw [ht]; rfl, hgone⟩

/-- A native function that gives the value of a name at the outermost level. -/
def finding : Native
  | [.string name] => .ask (.lookup Store.globals name) fun _ => .give (.held 1)
  | _ => .give (.data .null)

theorem inert_finding : finding.Inert := by
  intro faces
  unfold finding
  split
  · exact ⟨id, fun _ => trivial⟩
  · trivial

/-- A session that offers it. -/
def offering : Session := (Session.fresh {} false false).register "find" 1 finding

/-- A function that binds a name that is bound around it, to what calling its
    parameter gives. -/
def shadowing : Closure :=
  ⟨"f", [⟨.identifier, "p", none, ⟨1, 8⟩⟩],
    [.expression (.assign ⟨.identifier, "clock", none, ⟨1, 12⟩⟩
      (.call (.reference ⟨.identifier, "p", none, ⟨1, 20⟩⟩) ⟨.rightParen, ")", none, ⟨1, 28⟩⟩
        [.constant (.string "find") ⟨1, 22⟩]))],
    Store.globals, 7⟩

/-- Passed the function that finds names, it leaves the outermost level as it was,
    while the function that removes the clock takes the clock away. -/
theorem shadowing_leaves_clock :
    offering.Reachable Native.Inert ∧
      ∃ t, (callFunction 9 shadowing [.native ⟨"find", 1, finding, 1⟩]
          ⟨.rightParen, ")", none, ⟨2, 8⟩⟩ offering).session? = some t ∧
        t.store.level? Store.globals = offering.store.level? Store.globals ∧
        ∃ n f paren u, f.params = [] ∧ (callFunction n f [] paren offering).session? = some u ∧
          Text.Dict.find? "clock" (u.store.bindings Store.globals) = none := by
  have hreachable : offering.Reachable Native.Inert :=
    .registered "find" 1 (.fresh {} false false) inert_finding
  rcases callFunction_takes_away_only hreachable with ⟨hcalls, hremoves⟩
  have hargs : ∀ v ∈ [Value.native ⟨"find", 1, finding, 1⟩], v.Inert :=
    List.forall_mem_singleton.mpr (Value.inert_native inert_finding)
  have hends : (callFunction 9 shadowing [.native ⟨"find", 1, finding, 1⟩]
      ⟨.rightParen, ")", none, ⟨2, 8⟩⟩ offering).session?.isSome := by cbv
  have hquiet : (Task.callFunction 9 shadowing [.native ⟨"find", 1, finding, 1⟩]
      ⟨.rightParen, ")", none, ⟨2, 8⟩⟩ offering).quiet 10 = true := by cbv
  rcases Option.isSome_iff_exists.mp hends with ⟨t, ht⟩
  refine ⟨hreachable, t, ht, ?_, ?_⟩
  · exact (hcalls 9 shadowing _ _ t hargs ht).2 (Task.withoutDelete_of_quiet hquiet) _ _ rfl
  · exact hremoves Store.globals ⟨.identifier, "clock", none, ⟨1, 1⟩⟩ _ rfl

end PocketScript
