import Mathlib
import PocketScript.Proofs.Evaluation.Likeness
import PocketScript.Proofs.Value.Rooted

/-!
# What a delete statement leaves

A delete statement takes its targets one after the other and removes each from the
nearest level that binds it. It stops at the first target that no level binds, and
what it removed before stays removed. So a delete statement that fails need not have
been without effect, and how much it did depends on the order of the targets, on how
often a name is repeated and on how many levels bind it.

All of that can be read off the levels before the statement. A name that was removed
`k` times is gone from the nearest `k` levels that bound it and from no others
(`Store.without`), and a target has no level left if it is behind as many targets of
its name as there were levels that bound it.

## Main definitions

* `Store.homes`: The levels on the way outwards that bind a name.
* `Store.without`: A store less what removing some names takes away.

## Theorems

* `Store.homes_update`: A removal takes away the nearest home of one name.
* `Store.update_without`: Removing one name and then others is removing them all.
* `deleteAll_fault`: How far removing gets, and what it leaves.
* `Store.bindings_without_eq_iff`: Removing anything shows.
* `failed_delete_keeps_removals`: A delete statement that fails leaves the store less
  the targets in front of the one that failed.
* `failed_delete_changes_bindings`: Which can be less than there was before.
-/

namespace PocketScript

namespace Store

variable (s : Store)

/-- The levels on the way outwards that bind a name, nearest first. -/
def homes (id : LevelId) (name : Text) : List LevelId :=
  (s.chain id).filter fun l => (Text.Dict.find? name (s.bindings l)).isSome

/-- The store less what removing names takes away, each once for every time it is
    listed. -/
def without (id : LevelId) (names : List Text) : Store :=
  ⟨s.levels.mapIdx fun l level => { level with
    bindings := level.bindings.filter fun entry =>
      l ∉ (s.homes id entry.1).take (names.count entry.1) }⟩

theorem home?_eq_head? (id : LevelId) (name : Text) : s.home? id name = (s.homes id name).head? :=
  List.head?_filter.symm

variable {s} {id l : LevelId} {name : Text}

theorem mem_homes : l ∈ s.homes id name ↔
    l ∈ s.chain id ∧ (Text.Dict.find? name (s.bindings l)).isSome := List.mem_filter

/-- A name is gone from the nearest of its homes, and every other name has the
    homes that it had. -/
theorem homes_update {rest : List LevelId} (h : s.homes id name = l :: rest) (name' : Text) :
    (s.update l (Text.Dict.erase name)).homes id name' =
      if name' = name then rest else s.homes id name' := by
  have hl : l ∈ s.chain id ∧ (Text.Dict.find? name (s.bindings l)).isSome :=
    mem_homes.mp (h ▸ List.mem_cons_self)
  rcases Option.isSome_iff_exists.mp hl.2 with ⟨v, hv⟩
  have hfind : ∀ l', Text.Dict.find? name' ((s.update l (Text.Dict.erase name)).bindings l') =
      if l = l' ∧ name' = name then none else Text.Dict.find? name' (s.bindings l') := by
    intro l'
    rw [bindings_update]
    by_cases hl' : l = l'
    · subst hl'
      rw [if_pos ⟨rfl, lt_size_of_find? hv⟩, Text.Dict.find?_erase]
      simp only [true_and]
    · rw [if_neg fun hboth => hl' hboth.1, if_neg fun hboth => hl' hboth.1]
  rw [homes, chain_update]
  by_cases hname : name' = name
  · -- The nearest home is passed once on the way outwards, so none of the rest is it.
    have hnodup : (l :: rest).Nodup := h ▸ (s.nodup_chain id).filter _
    have hboth : ((s.chain id).filter fun l' =>
        (Text.Dict.find? name' ((s.update l (Text.Dict.erase name)).bindings l')).isSome) =
          (s.homes id name).filter (· ≠ l) := by
      rw [homes, List.filter_filter]
      refine List.filter_congr fun l' _ => ?_
      rw [hfind, hname]
      by_cases hl' : l = l'
      · simp [hl']
      · have hl'' : l' ≠ l := Ne.symm hl'
        simp [hl', hl'']
    rw [hboth, h, if_pos hname, List.filter_cons_of_neg (by simp)]
    refine List.filter_eq_self.mpr fun l' hl' => ?_
    have hne : l' ≠ l := fun heq => (List.nodup_cons.mp hnodup).1 (heq ▸ hl')
    simpa using hne
  · rw [if_neg hname, homes]
    refine List.filter_congr fun l' _ => ?_
    rw [hfind, if_neg fun hboth => hname hboth.2]

theorem level?_without (names : List Text) (l : LevelId) :
    (s.without id names).level? l = (s.level? l).map fun level => { level with
      bindings := level.bindings.filter fun entry =>
        l ∉ (s.homes id entry.1).take (names.count entry.1) } := by
  rw [level?, without, Array.getElem?_mapIdx, level?]

theorem bindings_without (names : List Text) (l : LevelId) :
    (s.without id names).bindings l = (s.bindings l).filter fun entry =>
      l ∉ (s.homes id entry.1).take (names.count entry.1) := by
  rw [bindings, level?_without, bindings]
  cases s.level? l with
  | none => rfl
  | some level => rfl

/-- Two stores are the same if they have the same levels. -/
theorem ext_level? {s t : Store} (h : ∀ l, s.level? l = t.level? l) : s = t := by
  rcases s with ⟨levels⟩
  rcases t with ⟨levels'⟩
  exact congrArg Store.mk (Array.ext_getElem? h)

/-- Removing no names is doing nothing. -/
theorem without_nil (s : Store) (id : LevelId) : s.without id [] = s := by
  refine ext_level? fun l => ?_
  rw [level?_without]
  simp

/-- Removing a name from its nearest home and then others is removing them all. -/
theorem update_without {rest : List LevelId} (h : s.homes id name = l :: rest)
    (names : List Text) :
    (s.update l (Text.Dict.erase name)).without id names = s.without id (name :: names) := by
  refine ext_level? fun l' => ?_
  rw [level?_without, level?_without, level?_update]
  cases s.level? l' with
  | none => simp only [Option.map_none, ite_self]
  | some level =>
      by_cases hl : l = l'
      · rw [if_pos hl, Option.map_some, Option.map_some, Option.map_some]
        dsimp only
        rw [Text.Dict.erase, List.filter_filter]
        congr 2
        refine List.filter_congr fun entry _ => ?_
        rw [homes_update h, List.count_cons]
        by_cases hname : entry.1 = name
        · simp [hname, hl, h]
        · simp [hname, Ne.symm hname]
      · rw [if_neg hl, Option.map_some, Option.map_some]
        congr 2
        refine List.filter_congr fun entry _ => ?_
        rw [homes_update h, List.count_cons]
        by_cases hname : entry.1 = name
        · simp [hname, h, Ne.symm hl]
        · simp [hname, Ne.symm hname]

/-- Removing anything that is bound somewhere shows. -/
theorem bindings_without_eq_iff {names : List Text}
    (hbound : ∀ name ∈ names, s.homes id name ≠ []) :
    (∀ l, (s.without id names).bindings l = s.bindings l) ↔ names = [] := by
  constructor
  · intro h
    cases names with
    | nil => rfl
    | cons name names =>
        exfalso
        rcases List.exists_cons_of_ne_nil (hbound name List.mem_cons_self) with ⟨l, rest, hhomes⟩
        have hl : (Text.Dict.find? name (s.bindings l)).isSome :=
          (mem_homes.mp (hhomes ▸ List.mem_cons_self)).2
        rcases Option.isSome_iff_exists.mp hl with ⟨v, hv⟩
        rcases List.lookup_eq_some_iff.mp hv with ⟨before, after, hsplit, _⟩
        have hmem : (name, v) ∈ s.bindings l := hsplit ▸ List.mem_append_right _ List.mem_cons_self
        rw [← h l, bindings_without, List.mem_filter, hhomes, List.count_cons_self] at hmem
        simp at hmem
  · rintro rfl l
    rw [without_nil]

end Store

/-- The first of several names goes from its nearest home, if it has one. -/
theorem deleteAll_cons (here : LevelId) (target : Token) (targets : List Token) (s : Session) :
    deleteAll here (target :: targets) s =
      match s.store.homes here target.lexeme with
      | [] => s.raise (.undefined target)
      | l :: _ => deleteAll here targets
          { s with store := s.store.update l (Text.Dict.erase target.lexeme) } := by
  rw [deleteAll, Store.delete, Store.remove, Store.home?_eq_head?]
  cases s.store.homes here target.lexeme with
  | nil => rfl
  | cons l rest => rfl

/-- Removing names fails at the first that has as many of its kind in front of it as
    there are levels that bind it, and leaves the store less those in front. -/
theorem deleteAll_fault {here : LevelId} {targets : List Token} {s t : Session} {e : RuntimeFault}
    (h : deleteAll here targets s = .fault e t) :
    ∃ before culprit after, targets = before ++ culprit :: after ∧
      (∀ name, (before.map Token.lexeme).count name ≤ (s.store.homes here name).length) ∧
      (before.map Token.lexeme).count culprit.lexeme =
        (s.store.homes here culprit.lexeme).length ∧
      e = (RuntimeFault.undefined culprit).attach s.calls ∧
      t = { s with store := s.store.without here (before.map Token.lexeme) } := by
  induction targets generalizing s with
  | nil => cases h
  | cons target targets ih =>
      rw [deleteAll_cons] at h
      cases hhomes : s.store.homes here target.lexeme with
      | nil =>
          rw [hhomes] at h
          cases h
          refine ⟨[], target, targets, rfl, fun _ => Nat.zero_le _, ?_, rfl, ?_⟩
          · rw [hhomes]
            rfl
          · rw [List.map_nil, Store.without_nil]
      | cons l rest =>
          rw [hhomes] at h
          rcases ih h with ⟨before, culprit, after, rfl, henough, hnone, he, ht⟩
          -- One more removal of the target, and one home less that is left for it.
          have hhome : ∀ name, (s.store.homes here name).length =
              ((s.store.update l (Text.Dict.erase target.lexeme)).homes here name).length +
                if target.lexeme == name then 1 else 0 := by
            intro name
            rw [Store.homes_update hhomes]
            by_cases hname : name = target.lexeme
            · rw [if_pos hname, hname, hhomes, if_pos (beq_self_eq_true _), List.length_cons]
            · rw [if_neg hname, if_neg (by simpa using Ne.symm hname), Nat.add_zero]
          refine ⟨target :: before, culprit, after, rfl, fun name => ?_, ?_, he, ?_⟩
          · rw [List.map_cons, List.count_cons, hhome]
            exact Nat.add_le_add_right (henough name) _
          · rw [List.map_cons, List.count_cons, hhome, hnone]
          · rw [ht, Store.update_without hhomes]
            rfl

/-- A delete statement fails at a target that is in no level any more, as many of its
    name stand in front of it as there were levels that bound it. Of the session only
    the store has changed: every target in front is gone, each from the nearest level
    that still bound it, and so all levels bind what they did before if and only if the
    statement failed at its first target. -/
theorem failed_delete_keeps_removals {n : Nat} {keyword : Token} {targets : List Token}
    {here : LevelId} {s t : Session} {e : RuntimeFault}
    (h : exec n (.delete keyword targets) here s = .fault e t) :
    ∃ before culprit after, targets = before ++ culprit :: after ∧
      e = (RuntimeFault.undefined culprit).attach s.calls ∧
      (∀ name, (before.map Token.lexeme).count name ≤ (s.store.homes here name).length) ∧
      (before.map Token.lexeme).count culprit.lexeme =
        (s.store.homes here culprit.lexeme).length ∧
      t = { s with store := t.store } ∧
      (∀ l, t.store.outer? l = s.store.outer? l ∧
        t.store.bindings l = (s.store.bindings l).filter fun entry =>
          l ∉ (s.store.homes here entry.1).take ((before.map Token.lexeme).count entry.1)) ∧
      ((∀ l, t.store.bindings l = s.store.bindings l) ↔ before = []) := by
  cases n with
  | zero =>
      rw [exec] at h
      cases h
  | succ n =>
      rw [exec] at h
      rcases deleteAll_fault h with ⟨before, culprit, after, htargets, henough, hnone, he, rfl⟩
      have hbound : ∀ name ∈ before.map Token.lexeme, s.store.homes here name ≠ [] := by
        intro name hname hempty
        have hcount := henough name
        rw [hempty, List.length_nil] at hcount
        have hpos : 0 < (before.map Token.lexeme).count name := List.count_pos_iff.mpr hname
        omega
      refine ⟨before, culprit, after, htargets, he, henough, hnone, rfl, fun l => ⟨?_, ?_⟩, ?_⟩
      · rw [Store.outer?, Store.outer?, Store.level?_without]
        cases s.store.level? l with
        | none => rfl
        | some level => rfl
      · exact Store.bindings_without _ l
      · rw [← List.map_eq_nil_iff (f := Token.lexeme)]
        exact Store.bindings_without_eq_iff hbound

/-- The targets of `del a, a, b, a;`, of which `b` is bound nowhere. -/
def repeatedTargets : List Token :=
  [⟨.identifier, "a", none, ⟨1, 5⟩⟩, ⟨.identifier, "a", none, ⟨1, 8⟩⟩,
    ⟨.identifier, "b", none, ⟨1, 11⟩⟩, ⟨.identifier, "a", none, ⟨1, 14⟩⟩]

/-- A session in the middle of a call, with `a` bound at the outermost level and in
    that of the call. -/
def hidingSession : Session :=
  let s := Session.initial.bind Store.globals (utf8 "a") .null
  { s with store := (s.store.openLevel (some Store.globals)).2 }.bind 1 (utf8 "a") (.bool true)

set_option maxRecDepth 4000 in
/-- Both removals in front of `b` took place, each at another level. -/
theorem repeated_target_is_gone_from_both_levels :
    ∃ e t, exec 1 (.delete ⟨.delWord, "del", none, ⟨1, 1⟩⟩ repeatedTargets) 1 hidingSession =
        .fault e t ∧
      (t.store.names 1, t.store.names Store.globals) = ([], [("clock" : Text)]) ∧
      ∃ before culprit after, repeatedTargets = before ++ culprit :: after ∧
        e = (RuntimeFault.undefined culprit).attach [] ∧ before ≠ [] := by
  have hfails : (exec 1 (.delete ⟨.delWord, "del", none, ⟨1, 1⟩⟩ repeatedTargets) 1
      hidingSession).failed?.map (fun t => (t.store.names 1, t.store.names Store.globals)) =
      some ([], [("clock" : Text)]) := by cbv
  rcases Option.map_eq_some_iff.mp hfails with ⟨t, hfailed, hnames⟩
  rcases Outcome.exists_of_failed? hfailed with ⟨e, hfault⟩
  rcases failed_delete_keeps_removals hfault with
    ⟨before, culprit, after, htargets, he, _, _, _, _, hsame⟩
  refine ⟨e, t, hfault, hnames, before, culprit, after, htargets, he, fun hempty => ?_⟩
  have hnone : t.store.names 1 = [] := congrArg Prod.fst hnames
  rw [Store.names, hsame.mpr hempty] at hnone
  cases hnone

set_option maxRecDepth 4000 in
/-- After `a = null;` the statement `del a, b;` fails, and then `a` is bound no more. -/
theorem failed_delete_changes_bindings :
    ∃ s e t, runSource 9 (utf8 "a = null;") Session.initial = .ok () s ∧
      exec 1 (.delete ⟨.delWord, "del", none, ⟨1, 1⟩⟩
        [⟨.identifier, "a", none, ⟨1, 5⟩⟩, ⟨.identifier, "b", none, ⟨1, 8⟩⟩])
        Store.globals s = .fault e t ∧
      ¬ ∀ l, t.store.bindings l = s.store.bindings l := by
  have hfails : (runSource 9 (utf8 "a = null;") Session.initial).ended?.bind (fun s =>
      (exec 1 (.delete ⟨.delWord, "del", none, ⟨1, 1⟩⟩
        [⟨.identifier, "a", none, ⟨1, 5⟩⟩, ⟨.identifier, "b", none, ⟨1, 8⟩⟩])
        Store.globals s).failed?.map fun t =>
          (s.store.names Store.globals, t.store.names Store.globals)) =
      some ([utf8 "a", ("clock" : Text)], [("clock" : Text)]) := by cbv
  rcases Option.bind_eq_some_iff.mp hfails with ⟨s, hended, hnames⟩
  rcases Option.map_eq_some_iff.mp hnames with ⟨t, hfailed, hboth⟩
  rcases Outcome.exists_of_ended? hended with ⟨_, hrun⟩
  rcases Outcome.exists_of_failed? hfailed with ⟨e, hfault⟩
  refine ⟨s, e, t, hrun, hfault, fun hsame => ?_⟩
  rw [Store.names, Store.names, hsame, Prod.mk.injEq] at hboth
  cases hboth.1.symm.trans hboth.2

end PocketScript
