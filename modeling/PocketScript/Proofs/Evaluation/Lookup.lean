import PocketScript.Proofs.Text.Order
import PocketScript.Proofs.Value.Rooted
import PocketScript.Session.Evaluate

/-!
# What is seen after an update

Levels form a tree, and what is seen from a level is decided along its way outwards.
Binding or removing a name touches a single level, and the question is from where that
shows. It shows from the levels whose way outwards passes the one that was touched
before it comes to another that binds the name, and from nowhere else. To all others
the level that was touched does not lie on the way, or something nearer hides it.

The proofs compare the two searches along the same way. They agree on every level but
one, and either they both end before they get there or they meet it with nothing found
so far. What comes behind it on the way is again the way outwards, from the level that
it lies in.

## Main definitions

* `Store.Built`: The stores that opening levels, binding and removing can make.
* `Store.Unhidden`, `Store.Nearest`: Where a name is looked for, and where it is found.

## Theorems

* `Store.lookup_update_of_unhidden`, `Store.lookup_update_of_hidden`: From where a change
  to one name of a level shows.
* `Store.Built.ordered`: Names stay in order.
* `update_shows_where_unhidden`: What binding and removing names do to every lookup.
-/

namespace PocketScript

/-- Two searches find the same if they agree on all but one place, and end before that. -/
theorem findSome?_congr_of_hidden {α β : Type} {f g : α → Option β} {xs : List α} {x : α}
    (hagree : ∀ y ∈ xs, y ≠ x → f y = g y)
    (hhidden : ∀ nearer further, xs = nearer ++ x :: further → ∃ y ∈ nearer, g y ≠ none) :
    xs.findSome? f = xs.findSome? g := by
  induction xs with
  | nil => rfl
  | cons y ys ih =>
      rw [List.forall_mem_cons] at hagree
      have hy : y ≠ x := by
        rintro rfl
        rcases hhidden [] ys rfl with ⟨_, hmem, _⟩
        cases hmem
      rw [List.findSome?_cons, List.findSome?_cons, hagree.1 hy]
      cases hfound : g y with
      | some b => rfl
      | none =>
          refine ih hagree.2 fun nearer further hsplit => ?_
          rcases hhidden (y :: nearer) further (congrArg (y :: ·) hsplit) with ⟨z, hz, hne⟩
          rcases List.mem_cons.mp hz with rfl | hmem
          · exact absurd hfound hne
          · exact ⟨z, hmem, hne⟩

namespace Store

/-- The stores that come of opening levels inside others, binding names and removing
    them, in any order. -/
inductive Built : Store → Prop where
  | initial : Built initial
  | openLevel {s : Store} {outer : LevelId} :
      Built s → outer < s.levels.size → Built (s.openLevel (some outer)).2
  | set {s : Store} (id : LevelId) (name : Text) (v : Value) : Built s → Built (s.set id name v)
  | remove {s t : Store} {id : LevelId} {name : Text} :
      Built s → s.remove id name = some t → Built t

/-- A level is on the way outwards from another, and no nearer level binds a name. -/
def Unhidden (s : Store) (name : Text) (id l : LevelId) : Prop :=
  ∃ nearer further, s.Walk id (nearer ++ l :: further) ∧
    ∀ l' ∈ nearer, Text.Dict.find? name (s.bindings l') = none

/-- A level is the nearest one on the way outwards from another that binds a name. -/
def Nearest (s : Store) (name : Text) (id l : LevelId) : Prop :=
  s.Unhidden name id l ∧ (Text.Dict.find? name (s.bindings l)).isSome

variable {s t : Store} {id l : LevelId} {name : Text}

theorem Built.rooted (h : s.Built) : s.Rooted := by
  induction h with
  | initial => exact rooted_initial
  | openLevel _ houter ih => exact ih.openLevel houter
  | set id name v _ ih => exact ih.set id name v
  | remove _ ht ih => exact ih.remove ht

/-- Names stay in order on every level. -/
theorem Built.ordered (h : s.Built) (id : LevelId) : (s.names id).Pairwise (· < ·) := by
  induction h with
  | initial =>
      rw [names, bindings_initial]
      exact List.Pairwise.nil
  | openLevel _ _ ih =>
      rw [names, bindings_openLevel]
      exact ih
  | set id' name v _ ih =>
      rw [names, Store.set, bindings_update]
      split
      · exact Text.Dict.pairwise_insert ih name v
      · exact ih
  | remove _ ht ih =>
      rcases exists_of_remove ht with ⟨l, rfl⟩
      rw [names, bindings_update]
      split
      · exact Text.Dict.pairwise_erase ih _
      · exact ih

/-- In a rooted store the way outwards is the chain. -/
theorem Rooted.walk_iff (h : s.Rooted) {path : List LevelId} :
    s.Walk id path ↔ path = s.chain id ∧ id < s.levels.size := by
  constructor
  · intro hwalk
    induction hwalk with
    | last hl hnone =>
        rw [chain, hl]
        simp only [hnone, true_and]
        exact lt_size_of_level? hl
    | @outward id o level path hl houter _ ih =>
        have hid := lt_size_of_level? hl
        have hinner : id ≠ Store.globals := by
          rintro rfl
          rcases h.globals with ⟨level', hl', hnone⟩
          rw [hl, Option.some.injEq] at hl'
          rw [← hl', houter] at hnone
          cases hnone
        rcases h.chain_cons hid hinner with ⟨o', _, houter', hchain⟩
        rw [outer?, hl, Option.bind_some, houter, Option.some.injEq] at houter'
        rw [hchain, ← houter', ih.1]
        exact ⟨rfl, hid⟩
  · rintro ⟨rfl, hid⟩
    exact h.walk_chain hid

theorem Rooted.walk_of_chain (h : s.Rooted) {nearer further : List LevelId}
    (hchain : s.chain id = nearer ++ l :: further) : s.Walk id (nearer ++ l :: further) := by
  refine h.walk_iff.mpr ⟨hchain.symm, ?_⟩
  rw [chain] at hchain
  split at hchain
  · exact absurd hchain.symm (List.append_ne_nil_of_right_ne_nil _ (List.cons_ne_nil _ _))
  · rename_i level hlevel
    exact lt_size_of_level? hlevel

/-- What a walk still has ahead of it is a walk. -/
theorem Walk.ahead {nearer further : List LevelId} (h : s.Walk id (nearer ++ l :: further)) :
    s.Walk l (l :: further) := by
  generalize hpath : nearer ++ l :: further = path at h
  induction h generalizing nearer with
  | last hl hnone =>
      rcases List.append_eq_singleton_iff.mp hpath with ⟨_, hcons⟩ | ⟨_, hnil⟩
      · cases hcons
        exact .last hl hnone
      · cases hnil
  | outward hl houter hwalk ih =>
      rcases List.append_eq_cons_iff.mp hpath with ⟨_, hcons⟩ | ⟨nearer', _, hrest⟩
      · cases hcons
        exact .outward hl houter hwalk
      · exact ih hrest.symm

/-- A search that goes on behind a level is one from the level that it lies in. -/
theorem Rooted.lookup_outer (h : s.Rooted) {further : List LevelId}
    (hwalk : s.Walk l (l :: further)) :
    (s.outer? l).bind (fun o => s.lookup o name) =
      further.findSome? fun l' => Text.Dict.find? name (s.bindings l') := by
  cases hwalk with
  | last hl hnone =>
      rw [outer?, hl, Option.bind_some, hnone]
      rfl
  | outward hl houter hrest =>
      rw [outer?, hl, Option.bind_some, houter, Option.bind_some, lookup, (h.walk_iff.mp hrest).1]

/-- What a name stands for on a level changes on the level that is updated only. -/
theorem find?_update_of_ne (f : Bindings → Bindings) {l' : LevelId} (hl : l' ≠ l) :
    Text.Dict.find? name ((s.update l f).bindings l') =
      Text.Dict.find? name (s.bindings l') := by
  rw [bindings_update, if_neg fun hboth => hl hboth.1.symm]

/-- A change to a level shows where it is on the way and nothing nearer binds the name. -/
theorem lookup_update_of_unhidden (h : s.Rooted) (f : Bindings → Bindings)
    (hunhidden : s.Unhidden name id l) :
    (s.update l f).lookup id name = (Text.Dict.find? name (f (s.bindings l))).or
      ((s.outer? l).bind fun o => s.lookup o name) := by
  rcases hunhidden with ⟨nearer, further, hwalk, hnone⟩
  rcases h.walk_iff.mp hwalk with ⟨hchain, -⟩
  -- The level is passed once, so the others on the way are what they were.
  have hnodup : (nearer ++ l :: further).Nodup := hchain ▸ s.nodup_chain id
  rw [List.nodup_append, List.nodup_cons] at hnodup
  rcases hnodup with ⟨-, ⟨hbehind, -⟩, hbefore⟩
  have hnearer : (nearer.findSome? fun l' =>
      Text.Dict.find? name ((s.update l f).bindings l')) = none := by
    refine List.findSome?_eq_none_iff.mpr fun l' hl' => ?_
    rw [find?_update_of_ne f (hbefore l' hl' l List.mem_cons_self)]
    exact hnone l' hl'
  have hfurther : (further.findSome? fun l' =>
      Text.Dict.find? name ((s.update l f).bindings l')) =
        further.findSome? fun l' => Text.Dict.find? name (s.bindings l') :=
    findSome?_congr_of_hidden (fun l' _ hl' => find?_update_of_ne f hl') fun _ _ hsplit =>
      absurd (hsplit ▸ List.mem_append_right _ List.mem_cons_self) hbehind
  have hl : l < s.levels.size := (h.walk_iff.mp hwalk.ahead).2
  rw [h.lookup_outer hwalk.ahead, lookup, chain_update, ← hchain, List.findSome?_append, hnearer,
    List.findSome?_cons, hfurther, bindings_update, if_pos ⟨rfl, hl⟩]
  cases Text.Dict.find? name (f (s.bindings l)) <;> rfl

/-- It does not show where the level is not on the way, or something nearer binds the
    name. -/
theorem lookup_update_of_hidden (h : s.Rooted) (f : Bindings → Bindings)
    (hhidden : ¬s.Unhidden name id l) :
    (s.update l f).lookup id name = s.lookup id name := by
  rw [lookup, lookup, chain_update]
  refine findSome?_congr_of_hidden (fun l' _ hl' => find?_update_of_ne f hl') ?_
  intro nearer further hchain
  by_contra hnone
  push Not at hnone
  exact hhidden ⟨nearer, further, h.walk_of_chain hchain, hnone⟩

/-- It does not show in other names. -/
theorem lookup_update_of_same {f : Bindings → Bindings}
    (hsame : Text.Dict.find? name (f (s.bindings l)) = Text.Dict.find? name (s.bindings l)) :
    (s.update l f).lookup id name = s.lookup id name := by
  have hfind : ∀ l', Text.Dict.find? name ((s.update l f).bindings l') =
      Text.Dict.find? name (s.bindings l') := by
    intro l'
    rw [bindings_update]
    split
    · rename_i hl
      rw [← hl.1, hsame]
    · rfl
  simp only [lookup, chain_update, hfind]

/-- A name is removed from the nearest level that binds it. -/
theorem Rooted.nearest_of_home? (h : s.Rooted) (hhome : s.home? id name = some l) :
    s.Nearest name id l := by
  rcases List.find?_eq_some_iff_append.mp hhome with ⟨hbound, nearer, further, hchain, hnone⟩
  refine ⟨⟨nearer, further, h.walk_of_chain hchain, fun l' hl' => ?_⟩, hbound⟩
  simpa using hnone l' hl'

theorem home?_eq_none_iff : s.home? id name = none ↔ s.lookup id name = none := by
  rw [home?, lookup, List.find?_eq_none, List.findSome?_eq_none_iff]
  simp only [Option.not_isSome_iff_eq_none]

end Store

/-- What binding a name on a level and removing a name from where it is found do to what
    is seen, for any two levels and any two names.

    A name that is bound on a level is seen from the levels whose way outwards comes to
    that level before any other that binds the name. A name that is bound nowhere on the
    way cannot be removed, and nothing changes. A name that can be removed is removed
    from the nearest level, and the levels that saw it there see what that level would
    see if it looked further out. Nothing else that any level sees changes.

    The names of a level are those that it binds, in strict order. -/
theorem update_shows_where_unhidden {s : Store} (h : s.Built) :
    (∀ e e' n n' v,
      (n' = n ∧ s.Unhidden n e' e → (s.set e n v).lookup e' n' = some v) ∧
      (¬(n' = n ∧ s.Unhidden n e' e) → (s.set e n v).lookup e' n' = s.lookup e' n')) ∧
    (∀ e (name : Token),
      (s.lookup e name.lexeme = none → s.delete e name = .error (.undefined name) ∧
        ∀ x : Session, x.store = s → deleteAll e [name] x = x.raise (.undefined name)) ∧
      (s.lookup e name.lexeme ≠ none → ∃ t d, s.delete e name = .ok t ∧
        s.Nearest name.lexeme e d ∧ ∀ e' n',
          (n' = name.lexeme ∧ s.Nearest n' e' d →
            t.lookup e' n' = (s.outer? d).bind fun o => s.lookup o n') ∧
          (¬(n' = name.lexeme ∧ s.Nearest n' e' d) → t.lookup e' n' = s.lookup e' n'))) ∧
    ∀ e, (s.names e).Pairwise (· < ·) ∧
      ∀ n, n ∈ s.names e ↔ (Text.Dict.find? n (s.bindings e)).isSome := by
  have hrooted := h.rooted
  refine ⟨fun e e' n n' v => ⟨?_, fun hnot => ?_⟩, fun e name => ⟨fun hnone => ?_, fun hsome => ?_⟩,
    fun e => ⟨h.ordered e, fun n => Text.Dict.mem_names_iff⟩⟩
  · rintro ⟨rfl, hunhidden⟩
    rw [Store.set, Store.lookup_update_of_unhidden hrooted _ hunhidden, Text.Dict.find?_insert,
      if_pos rfl]
    rfl
  · by_cases hn : n' = n
    · exact Store.lookup_update_of_hidden hrooted _ fun hunhidden => hnot ⟨hn, hn ▸ hunhidden⟩
    · exact Store.lookup_update_of_same (by rw [Text.Dict.find?_insert, if_neg hn])
  · have hdelete : s.delete e name = .error (.undefined name) := by
      rw [Store.delete, Store.remove, Store.home?_eq_none_iff.mpr hnone]
      rfl
    refine ⟨hdelete, ?_⟩
    rintro x rfl
    rw [deleteAll, hdelete]
  · cases hhome : s.home? e name.lexeme with
    | none => exact absurd (Store.home?_eq_none_iff.mp hhome) hsome
    | some d =>
        have hnearest := hrooted.nearest_of_home? hhome
        refine ⟨s.update d (Text.Dict.erase name.lexeme), d, ?_, hnearest, fun e' n' =>
          ⟨?_, fun hnot => ?_⟩⟩
        · rw [Store.delete, Store.remove, hhome]
          rfl
        · rintro ⟨rfl, hunhidden, -⟩
          rw [Store.lookup_update_of_unhidden hrooted _ hunhidden, Text.Dict.find?_erase,
            if_pos rfl]
          rfl
        · by_cases hn : n' = name.lexeme
          · refine Store.lookup_update_of_hidden hrooted _ fun hunhidden => hnot ⟨hn, hunhidden, ?_⟩
            rw [hn]
            exact hnearest.2
          · exact Store.lookup_update_of_same (by rw [Text.Dict.find?_erase, if_neg hn])

/-- Two levels beside one another inside the outermost one, which binds `a`. The first
    of them hides it. -/
def branchedStore : Store :=
  let s := Store.initial.set Store.globals [97] .null
  let s := (s.openLevel (some Store.globals)).2
  let s := (s.openLevel (some Store.globals)).2
  s.set 1 [97] (.bool true)

/-- What the outermost level binds `a` to instead is seen from the second of them and
    not from the first. When the first one's `a` is removed, it sees the outermost one's
    and the second sees what it saw. -/
theorem branchedStore_is_updated :
    branchedStore.Built ∧
    (branchedStore.set Store.globals [97] (.bool false)).lookup 2 [97] = some (.bool false) ∧
    (branchedStore.set Store.globals [97] (.bool false)).lookup 1 [97] =
      branchedStore.lookup 1 [97] ∧
    ∃ t, branchedStore.delete 1 ⟨.identifier, [97], none, ⟨1, 5⟩⟩ = .ok t ∧
      t.lookup 1 [97] = branchedStore.lookup Store.globals [97] ∧
      t.lookup 2 [97] = branchedStore.lookup 2 [97] := by
  have hbuilt : branchedStore.Built :=
    .set _ _ _ (.openLevel (.openLevel (.set _ _ _ .initial) (by decide)) (by decide))
  have hfirst : branchedStore.Walk 1 [1, Store.globals] := .outward rfl rfl (.last rfl rfl)
  have hsecond : branchedStore.Walk 2 [2, Store.globals] := .outward rfl rfl (.last rfl rfl)
  have hpath : ∀ {id path path'}, branchedStore.Walk id path → branchedStore.Walk id path' →
      path = path' := fun hwalk hwalk' =>
    (hbuilt.rooted.walk_iff.mp hwalk).1.trans (hbuilt.rooted.walk_iff.mp hwalk').1.symm
  -- From the first level, the first level hides what is further out.
  have hhere : ∀ d, branchedStore.Unhidden [97] 1 d → d = 1 := by
    rintro d ⟨nearer, further, hwalk, hnone⟩
    have hsplit := hpath hwalk hfirst
    cases nearer with
    | nil => exact (List.cons.inj hsplit).1
    | cons l nearer =>
        rw [(List.cons.inj hsplit).1, List.forall_mem_cons] at hnone
        cases hnone.1
  have hseen : branchedStore.lookup 1 [97] ≠ none := by
    rw [Store.lookup, ← (hbuilt.rooted.walk_iff.mp hfirst).1]
    decide
  rcases update_shows_where_unhidden hbuilt with ⟨hset, hremove, -⟩
  rcases (hremove 1 ⟨.identifier, [97], none, ⟨1, 5⟩⟩).2 hseen with ⟨t, d, ht, hnearest, hframe⟩
  obtain rfl : d = 1 := hhere d hnearest.1
  refine ⟨hbuilt, (hset _ _ _ _ _).1 ⟨rfl, [2], [], hsecond, ?_⟩, (hset _ _ _ _ _).2 ?_, t, ht,
    (hframe 1 _).1 ⟨rfl, hnearest⟩, (hframe 2 _).2 ?_⟩
  · exact List.forall_mem_singleton.mpr rfl
  · rintro ⟨-, hunhidden⟩
    cases hhere _ hunhidden
  · rintro ⟨-, ⟨nearer, further, hwalk, -⟩, -⟩
    have hmem : 1 ∈ [2, Store.globals] :=
      hpath hwalk hsecond ▸ List.mem_append_right nearer List.mem_cons_self
    exact absurd hmem (by decide)

end PocketScript
