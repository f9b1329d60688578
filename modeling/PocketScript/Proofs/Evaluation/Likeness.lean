import Mathlib.Data.List.Forall2
import PocketScript.Proofs.Value.Host
import PocketScript.Proofs.Value.Store
import PocketScript.Session.Evaluate

/-!
# Alike up to the bodies of functions

Two runs of programs that mean the same leave sessions that are not equal but
alike. What differs are the trees of programs, and they are kept in one place
only: in the bodies of the functions that a store binds. So a relation between
tokens and one between lists of statements settle what is alike in everything
that programs produce.

Values are related if they are equal or are functions with related bodies, and
sessions if their bindings are related level by level and the rest of what a
program can see is equal. The log and the remarks on sources are not compared.
A likeness is `exact` if related tokens are at the same position; a fault is
then the same fault on both sides, and otherwise it is the same up to
positions.

## Main definitions

* `Likeness`: When tokens and bodies of functions count as alike.
* `Likeness.Values`, `Stores`, `Sessions`, `Faults`: What is related to what.
* `Likeness.Outcomes`: Related outcomes.

## Theorems

* `Values.binary?_eq`, `Values.unary?_eq`, `Values.step?_eq`: Operators do not
  tell related values apart.
* `Stores.lookup`, `Stores.set`, `Stores.remove`: Related stores stay related.
* `get_cases`: A name has related values, or none.
* `Faults.attach`: So do faults that start to travel.
* `Sessions.output_eq`, `Sessions.map_globals_eq`: What shows of related
  sessions from outside.
* `Outcomes.andThen`: Related outcomes go on in step.
-/

namespace PocketScript

namespace Value

/-- Operators give data. -/
theorem isCallable_of_binary? {op : Kind} {v w r : Value} (h : binary? op v w = some r) :
    r.isCallable = false := by
  cases v <;> cases w <;> simp only [binary?, reduceCtorEq] at h
  case number.number a b =>
    cases op <;> simp only [arithmetic?, reduceCtorEq, Option.some.injEq] at h <;> rw [← h] <;> rfl
  case string.string a b =>
    split at h
    · rw [Option.some.injEq] at h
      rw [← h]
      rfl
    · cases h

theorem isCallable_of_augmented {k : Kind} {v w r : Value}
    (h : (k.underlying?.bind fun op => binary? op v w) = some r) : r.isCallable = false := by
  rcases Option.bind_eq_some_iff.mp h with ⟨op, _, hr⟩
  exact isCallable_of_binary? hr

theorem isCallable_of_unary? {op : Kind} {v r : Value} (h : v.unary? op = some r) :
    r.isCallable = false := by
  unfold unary? at h
  split at h <;> simp only [reduceCtorEq, Option.some.injEq] at h <;> rw [← h] <;> rfl

theorem isCallable_of_step? {op : Kind} {v r : Value} (h : v.step? op = some r) :
    r.isCallable = false := by
  cases v <;> simp only [step?, reduceCtorEq, Option.some.injEq] at h
  rw [← h]
  rfl

theorem isCallable_ofLiteral (l : Literal) : (ofLiteral l).isCallable = false := by cases l <;> rfl

/-- What holds of all data, and of what a host holds, holds of what it gives. -/
theorem among_of {P : Value → Prop} (hdata : ∀ {v : Value}, v.isCallable = false → P v)
    {held : List Value} (h : ∀ v ∈ held, P v) (g : Given) : P (g.among held) := by
  cases g with
  | data l => exact hdata (isCallable_ofLiteral l)
  | held i =>
      rw [Given.among, List.getD_eq_getElem?_getD]
      cases hi : held[i]? with
      | none => exact hdata rfl
      | some v => exact h v (List.mem_of_getElem? hi)

/-- Not a native function that looks into functions. -/
def Discreet (v : Value) : Prop := ∀ f, v = native f → f.action.Discreet

end Value

/-- No native function that is bound in the store looks into functions. -/
def Store.Discreet (s : Store) : Prop :=
  ∀ l ∈ s.levels.toList, ∀ entry ∈ l.bindings, entry.2.Discreet

theorem Session.discreet_initial : Session.initial.store.Discreet := by
  have hlevels : Session.initial.store.levels.toList =
      [⟨none, [(utf8 "clock", .native ⟨"clock", 0, .clock, 0⟩)]⟩] := rfl
  intro l hl entry hentry
  rw [hlevels, List.mem_singleton] at hl
  subst hl
  rw [List.mem_singleton] at hentry
  subst hentry
  rintro f ⟨⟩
  exact Native.discreet_clock

namespace Outcome

variable {ε α : Type}

/-- The session at an end without a fault. -/
def ended? : Outcome ε α → Option Session
  | ok _ t => some t
  | _ => none

/-- The session that a fault leaves. -/
def failed? : Outcome ε α → Option Session
  | fault _ t => some t
  | _ => none

theorem exists_of_ended? {o : Outcome ε α} {t : Session} (h : o.ended? = some t) :
    ∃ a, o = .ok a t := by
  cases o with
  | ok a u => exact ⟨a, by rw [Option.some.inj h]⟩
  | _ => cases h

theorem exists_of_failed? {o : Outcome ε α} {t : Session} (h : o.failed? = some t) :
    ∃ e, o = .fault e t := by
  cases o with
  | fault e u => exact ⟨e, by rw [Option.some.inj h]⟩
  | _ => cases h

end Outcome

/-- When tokens and bodies of functions count as alike. -/
structure Likeness where
  /-- Are related tokens at the same position? -/
  exact : Prop
  token : Token → Token → Prop
  body : List Stmt → List Stmt → Prop
  token_refl : ∀ t, token t t
  body_refl : ∀ b, body b b
  token_like : ∀ {t t' : Token}, token t t' →
    t.kind = t'.kind ∧ t.lexeme = t'.lexeme ∧ (exact → t.pos = t'.pos)

/-- Where only a token is related to itself, related tokens are alike. -/
theorem Token.like_of_eq {t t' : Token} (h : t = t') :
    t.kind = t'.kind ∧ t.lexeme = t'.lexeme ∧ (True → t.pos = t'.pos) := by
  rw [h]
  exact ⟨rfl, rfl, fun _ => rfl⟩

namespace Likeness

variable (C : Likeness)

/-- Related values: equal, or functions with related bodies. Native functions do
    not go by the bodies of functions. -/
inductive Values : Value → Value → Prop where
  | null : Values .null .null
  | bool (b : Bool) : Values (.bool b) (.bool b)
  | number (x : Float) : Values (.number x) (.number x)
  | string (t : Text) : Values (.string t) (.string t)
  | native {f : Builtin} : f.action.Discreet → Values (.native f) (.native f)
  | function {name : Text} {params params' : List Token} {b b' : List Stmt} {home : LevelId}
      {stamp : Nat} : List.Forall₂ C.token params params' → C.body b b' →
      Values (.function ⟨name, params, b, home, stamp⟩) (.function ⟨name, params', b', home, stamp⟩)

/-- Related bindings: the same names in the same order, with related values. -/
def Entries (d d' : Bindings) : Prop :=
  List.Forall₂ (fun entry entry' => entry.1 = entry'.1 ∧ C.Values entry.2 entry'.2) d d'

/-- Related levels. -/
def Levels (l l' : Level) : Prop :=
  l.outer = l'.outer ∧ C.Entries l.bindings l'.bindings

/-- Related stores: as many levels, related one by one. -/
def Stores (s s' : Store) : Prop :=
  List.Forall₂ C.Levels s.levels.toList s'.levels.toList

/-- Related calls under way. -/
def Frames (f f' : Frame) : Prop :=
  f.function = f'.function ∧ (C.exact → f.pos = f'.pos)

/-- Related sessions. -/
structure Sessions (s s' : Session) : Prop where
  store : C.Stores s.store s'.store
  calls : List.Forall₂ C.Frames s.calls s'.calls
  echoed : s.echoed = s'.echoed
  muted : s.muted = s'.muted
  clock : s.clock = s'.clock
  logging : s.logging = s'.logging
  stamps : s.stamps = s'.stamps
  memory : s.memory = s'.memory

/-- Related faults of running programs. -/
structure Faults (e e' : RuntimeFault) : Prop where
  cause : e.cause = e'.cause
  message : e.message = e'.message
  name : e.name = e'.name
  operator : e.operator = e'.operator
  expected : e.expected = e'.expected
  actual : e.actual = e'.actual
  pos : C.exact → e.pos = e'.pos
  codeFrame : C.exact → e.codeFrame = e'.codeFrame
  frames : Option.Rel (List.Forall₂ C.Frames) e.frames e'.frames

/-- Related faults of any stage. -/
inductive AnyFaults : Fault → Fault → Prop where
  | lexical (e : LexicalFault) : AnyFaults (.lexical e) (.lexical e)
  | grammar (e : GrammarFault) : AnyFaults (.grammar e) (.grammar e)
  | runtime {e e' : RuntimeFault} : C.Faults e e' → AnyFaults (.runtime e) (.runtime e')
  | plain (message : Text) : AnyFaults (.plain message) (.plain message)

/-- Related ways for a statement to end. -/
inductive Signals : Signal → Signal → Prop where
  | normal : Signals .normal .normal
  | giveBack {v v' : Value} {k k' : Token} : C.Values v v' → C.token k k' →
      Signals (.giveBack v k) (.giveBack v' k')
  | leave {k k' : Token} : C.token k k' → Signals (.leave k) (.leave k')
  | next {k k' : Token} : C.token k k' → Signals (.next k) (.next k')

/-- Related outcomes: both of a kind, with related results and sessions. -/
inductive Outcomes {ε α : Type} (E : ε → ε → Prop) (R : α → α → Prop) :
    Outcome ε α → Outcome ε α → Prop where
  | ok {a a' : α} {s s' : Session} : R a a' → C.Sessions s s' →
      Outcomes E R (.ok a s) (.ok a' s')
  | fault {e e' : ε} {s s' : Session} : E e e' → C.Sessions s s' →
      Outcomes E R (.fault e s) (.fault e' s')
  | starved : Outcomes E R .starved .starved

variable {C}

theorem Values.refl {v : Value} (h : v.Discreet) : C.Values v v := by
  cases v with
  | null => exact .null
  | bool b => exact .bool b
  | number x => exact .number x
  | string t => exact .string t
  | function f => exact .function (List.forall₂_same.mpr fun t _ => C.token_refl t) (C.body_refl _)
  | native f => exact .native (h f rfl)

theorem Values.data {v : Value} (h : v.isCallable = false) : C.Values v v := by
  refine .refl ?_
  rintro f rfl
  cases h

namespace Values

variable {v v' w w' : Value}

theorem discreet (h : C.Values v v') : v.Discreet := by
  cases h with
  | native hf =>
      rintro g ⟨⟩
      exact hf
  | _ => exact nofun

theorem kindName_eq (h : C.Values v v') : v.kindName = v'.kindName := by cases h <;> rfl

theorem text_eq (h : C.Values v v') : v.text = v'.text := by cases h <;> rfl

theorem truthy_eq (h : C.Values v v') : v.truthy = v'.truthy := by cases h <;> rfl

/-- A host sees the same of related values from outside. -/
theorem outside_eq (h : C.Values v v') : v.shown.outside = v'.shown.outside := by
  cases h with
  | function hparams _ =>
      simp only [Value.shown, Face.outside, List.map_const', hparams.length_eq]
  | _ => rfl

theorem binary?_eq (op : Kind) (h : C.Values v v') (k : C.Values w w') :
    Value.binary? op v w = Value.binary? op v' w' := by
  cases h <;> cases k <;> rfl

theorem step?_eq (op : Kind) (h : C.Values v v') : v.step? op = v'.step? op := by cases h <;> rfl

theorem unary?_eq (op : Kind) (h : C.Values v v') : v.unary? op = v'.unary? op := by
  cases h with
  | function _ _ => cases op <;> rfl
  | _ => rfl

theorem outside_all_eq {vs vs' : List Value} (h : List.Forall₂ C.Values vs vs') :
    (vs.map Value.shown).map Face.outside = (vs'.map Value.shown).map Face.outside := by
  induction h with
  | nil => rfl
  | cons hv _ ih => simp only [List.map_cons, hv.outside_eq, ih]

/-- What a host gives is related if what it holds is. -/
theorem among {vs vs' : List Value} (h : List.Forall₂ C.Values vs vs') (g : Given) :
    C.Values (g.among vs) (g.among vs') := by
  cases g with
  | data l => exact .data (Value.isCallable_ofLiteral l)
  | held i =>
      simp only [Given.among]
      induction h generalizing i with
      | nil => exact .null
      | cons hv _ ih =>
          cases i with
          | zero => exact hv
          | succ i => exact ih i

end Values

namespace Entries

variable {d d' : Bindings}

theorem find? (h : C.Entries d d') (name : Text) :
    Option.Rel C.Values (Text.Dict.find? name d) (Text.Dict.find? name d') := by
  induction h with
  | nil => exact .none
  | @cons entry entry' rest rest' hentry _ ih =>
      rcases entry with ⟨n, v⟩
      rcases entry' with ⟨n', v'⟩
      rcases hentry with ⟨hn, hv⟩
      simp only at hn hv
      subst hn
      simp only [Text.Dict.find?, List.lookup_cons] at ih ⊢
      split
      · exact .some hv
      · exact ih

theorem insert (h : C.Entries d d') (name : Text) {v v' : Value} (hv : C.Values v v') :
    C.Entries (Text.Dict.insert name v d) (Text.Dict.insert name v' d') := by
  induction h with
  | nil => exact .cons ⟨rfl, hv⟩ .nil
  | @cons entry entry' rest rest' hentry hrest ih =>
      rcases entry with ⟨n, w⟩
      rcases entry' with ⟨n', w'⟩
      rcases hentry with ⟨hn, hw⟩
      simp only at hn hw
      subst hn
      rw [Text.Dict.insert, Text.Dict.insert]
      split
      · exact .cons ⟨rfl, hv⟩ hrest
      · split
        · exact .cons ⟨rfl, hv⟩ (.cons ⟨rfl, hw⟩ hrest)
        · exact .cons ⟨rfl, hw⟩ ih

theorem erase (h : C.Entries d d') (name : Text) :
    C.Entries (Text.Dict.erase name d) (Text.Dict.erase name d') := by
  induction h with
  | nil => exact .nil
  | @cons entry entry' rest rest' hentry _ ih =>
      simp only [Text.Dict.erase, List.filter_cons, hentry.1] at ih ⊢
      split
      · exact .cons hentry ih
      · exact ih

theorem refl {d : Bindings} (h : ∀ entry ∈ d, entry.2.Discreet) : C.Entries d d :=
  List.forall₂_same.mpr fun entry hentry => ⟨rfl, .refl (h entry hentry)⟩

end Entries

namespace Stores

variable {s s' : Store}

theorem refl (h : s.Discreet) : C.Stores s s :=
  List.forall₂_same.mpr fun l hl => ⟨rfl, .refl (h l hl)⟩

/-- Related stores bind no native functions that look into functions. -/
theorem discreet (h : C.Stores s s') : s.Discreet := by
  refine ((List.forall₂_and_left _ _).mp (h.imp fun l l' hl => ⟨?_, hl⟩)).1
  exact ((List.forall₂_and_left _ _).mp (hl.2.imp fun entry entry' he => ⟨he.2.discreet, he⟩)).1

theorem size_eq (h : C.Stores s s') : s.levels.size = s'.levels.size := by
  have hlength := h.length_eq
  rwa [Array.length_toList, Array.length_toList] at hlength

theorem level? (h : C.Stores s s') (id : LevelId) :
    Option.Rel C.Levels (s.level? id) (s'.level? id) := by
  rw [Store.level?, Store.level?, ← Array.getElem?_toList, ← Array.getElem?_toList]
  by_cases hid : id < s.levels.toList.length
  · have hid' : id < s'.levels.toList.length := by rw [← h.length_eq]; exact hid
    rw [List.getElem?_eq_getElem hid, List.getElem?_eq_getElem hid']
    exact .some (h.get hid hid')
  · rw [List.getElem?_eq_none (Nat.le_of_not_lt hid),
      List.getElem?_eq_none (by rw [← h.length_eq]; exact Nat.le_of_not_lt hid)]
    exact .none

theorem bindings (h : C.Stores s s') (id : LevelId) :
    C.Entries (s.bindings id) (s'.bindings id) := by
  have hlevel := h.level? id
  rw [Store.bindings, Store.bindings]
  generalize s.level? id = l at hlevel ⊢
  generalize s'.level? id = l' at hlevel ⊢
  cases hlevel with
  | none => exact .nil
  | some hl => exact hl.2

/-- Levels lie inside one another alike. -/
theorem chain_eq (h : C.Stores s s') (id : LevelId) : s.chain id = s'.chain id := by
  induction id using Nat.strongRecOn with
  | _ id ih =>
    have hlevel := h.level? id
    rw [Store.chain, Store.chain]
    generalize s.level? id = l at hlevel ⊢
    generalize s'.level? id = l' at hlevel ⊢
    cases hlevel with
    | none => rfl
    | @some l l' hl =>
        dsimp only
        rw [← hl.1]
        cases l.outer with
        | none => rfl
        | some o =>
            by_cases ho : o < id
            · simp only [if_pos ho, ih o ho]
            · simp only [if_neg ho]

theorem outer?_eq (h : C.Stores s s') (id : LevelId) : s.outer? id = s'.outer? id := by
  have hlevel := h.level? id
  rw [Store.outer?, Store.outer?]
  generalize s.level? id = l at hlevel ⊢
  generalize s'.level? id = l' at hlevel ⊢
  cases hlevel with
  | none => rfl
  | some hl => exact hl.1

theorem names_eq (h : C.Stores s s') (id : LevelId) : s.names id = s'.names id := by
  have hentries := h.bindings id
  rw [Store.names, Store.names]
  generalize s.bindings id = d at hentries ⊢
  generalize s'.bindings id = d' at hentries ⊢
  induction hentries with
  | nil => rfl
  | cons hentry _ ih =>
      rw [Text.Dict.names, List.map_cons, hentry.1]
      exact congrArg (_ :: ·) ih

theorem home?_eq (h : C.Stores s s') (id : LevelId) (name : Text) :
    s.home? id name = s'.home? id name := by
  rw [Store.home?, Store.home?, h.chain_eq]
  congr 1
  funext l
  have hfind := (h.bindings l).find? name
  generalize Text.Dict.find? name (s.bindings l) = v at hfind ⊢
  generalize Text.Dict.find? name (s'.bindings l) = v' at hfind ⊢
  cases hfind <;> rfl

theorem lookup (h : C.Stores s s') (id : LevelId) (name : Text) :
    Option.Rel C.Values (s.lookup id name) (s'.lookup id name) := by
  rw [Store.lookup, Store.lookup, h.chain_eq]
  induction s'.chain id with
  | nil => exact .none
  | cons l chain ih =>
      have hfind := (h.bindings l).find? name
      rw [List.findSome?_cons, List.findSome?_cons]
      generalize Text.Dict.find? name (s.bindings l) = v at hfind ⊢
      generalize Text.Dict.find? name (s'.bindings l) = v' at hfind ⊢
      cases hfind with
      | none => exact ih
      | some hv => exact .some hv

theorem update (h : C.Stores s s') (id : LevelId) {f f' : Bindings → Bindings}
    (hf : ∀ {d d'}, C.Entries d d' → C.Entries (f d) (f' d')) :
    C.Stores (s.update id f) (s'.update id f') := by
  rw [Stores] at h ⊢
  simp only [Store.update, Array.toList_modify]
  generalize s.levels.toList = ls at h
  generalize s'.levels.toList = ls' at h
  induction h generalizing id with
  | nil => cases id <;> exact .nil
  | cons hl hrest ih =>
      cases id with
      | zero => exact .cons ⟨hl.1, hf hl.2⟩ hrest
      | succ id => exact .cons hl (ih id)

theorem set (h : C.Stores s s') (id : LevelId) (name : Text) {v v' : Value}
    (hv : C.Values v v') : C.Stores (s.set id name v) (s'.set id name v') :=
  h.update id fun hd => hd.insert name hv

theorem remove (h : C.Stores s s') (id : LevelId) (name : Text) :
    Option.Rel C.Stores (s.remove id name) (s'.remove id name) := by
  rw [Store.remove, Store.remove, h.home?_eq]
  cases s'.home? id name with
  | none => exact .none
  | some l => exact .some (h.update l fun hd => hd.erase name)

theorem openLevel (h : C.Stores s s') (outer : Option LevelId) :
    (s.openLevel outer).1 = (s'.openLevel outer).1 ∧
      C.Stores (s.openLevel outer).2 (s'.openLevel outer).2 := by
  refine ⟨h.size_eq, ?_⟩
  rw [Stores] at h ⊢
  simp only [Store.openLevel, Array.toList_push]
  exact List.rel_append h (.cons ⟨rfl, .nil⟩ .nil)

end Stores

/-- A name has related values on both sides, or none on either. -/
theorem get_cases {s s' : Store} (h : C.Stores s s') (here : LevelId) {t t' : Token}
    (ht : C.token t t') :
    (∃ v v', s.get here t = .ok v ∧ s'.get here t' = .ok v' ∧ C.Values v v') ∨
      (s.get here t = .error (.undefined t) ∧ s'.get here t' = .error (.undefined t')) := by
  have hlookup := h.lookup here t.lexeme
  rw [Store.get, Store.get, ← (C.token_like ht).2.1]
  generalize s.lookup here t.lexeme = v at hlookup ⊢
  generalize s'.lookup here t.lexeme = v' at hlookup ⊢
  cases hlookup with
  | none => exact Or.inr ⟨rfl, rfl⟩
  | some hv => exact Or.inl ⟨_, _, rfl, rfl, hv⟩

namespace Faults

/-- A fault that is built from a token takes nothing from it but its lexeme
    and its position. -/
theorem ofToken {F : Token → RuntimeFault} {t t' : Token} (h : C.token t t')
    (hmoved : ∀ t t', t.lexeme = t'.lexeme → F t' = { F t with pos := t'.pos })
    (hpos : ∀ t, (F t).pos = t.pos) (hframes : ∀ t, (F t).frames = none) :
    C.Faults (F t) (F t') := by
  rcases C.token_like h with ⟨_, hlexeme, hplace⟩
  rw [hmoved t t' hlexeme]
  constructor <;> try first | rfl | exact fun _ => rfl
  · intro hexact
    rw [hpos t]
    exact hplace hexact
  · rw [hframes t]
    exact .none

section

variable {t t' : Token} (h : C.token t t')
include h

theorem undefined : C.Faults (.undefined t) (.undefined t') :=
  ofToken h (fun t t' hl => by simp only [RuntimeFault.undefined, hl]) (fun _ => rfl) fun _ => rfl

theorem badOperand (kind : Text) : C.Faults (.badOperand t kind) (.badOperand t' kind) :=
  ofToken (F := fun t => .badOperand t kind) h
    (fun t t' hl => by simp only [RuntimeFault.badOperand, hl]) (fun _ => rfl) fun _ => rfl

theorem badOperands (left right : Text) :
    C.Faults (.badOperands t left right) (.badOperands t' left right) :=
  ofToken (F := fun t => .badOperands t left right) h
    (fun t t' hl => by simp only [RuntimeFault.badOperands, hl]) (fun _ => rfl) fun _ => rfl

theorem strayControl : C.Faults (.strayControl t) (.strayControl t') :=
  ofToken h (fun t t' hl => by simp only [RuntimeFault.strayControl, hl]) (fun _ => rfl)
    fun _ => rfl

theorem wrongArity (expected actual : Int) :
    C.Faults (.wrongArity t expected actual) (.wrongArity t' expected actual) :=
  ofToken (F := fun t => .wrongArity t expected actual) h (fun _ _ _ => rfl) (fun _ => rfl)
    fun _ => rfl

theorem uncallable (kind : Text) : C.Faults (.uncallable t kind) (.uncallable t' kind) :=
  ofToken (F := fun t => .uncallable t kind) h (fun _ _ _ => rfl) (fun _ => rfl) fun _ => rfl

theorem nativeFailed (name reason : Text) :
    C.Faults (.nativeFailed t name reason) (.nativeFailed t' name reason) :=
  ofToken (F := fun t => .nativeFailed t name reason) h (fun _ _ _ => rfl) (fun _ => rfl)
    fun _ => rfl

end

theorem refl (e : RuntimeFault) : C.Faults e e := by
  constructor <;> first | rfl | exact fun _ => rfl | skip
  cases e.frames with
  | none => exact .none
  | some frames => exact .some (List.forall₂_same.mpr fun f _ => ⟨rfl, fun _ => rfl⟩)

variable {e e' : RuntimeFault}

/-- In an exact likeness related faults are the same fault. -/
theorem any (e : Fault) : C.AnyFaults e e := by
  cases e with
  | lexical e => exact .lexical e
  | grammar e => exact .grammar e
  | runtime e => exact .runtime (.refl e)
  | plain message => exact .plain message

theorem eq_of_exact (hexact : C.exact) (h : C.Faults e e') : e = e' := by
  have hframes : e.frames = e'.frames := by
    have hrel := h.frames
    generalize e.frames = fs at hrel ⊢
    generalize e'.frames = fs' at hrel ⊢
    cases hrel with
    | none => rfl
    | some hfs =>
        refine congrArg some (List.forall₂_eq_eq_eq ▸ hfs.imp ?_)
        intro f f' hf
        cases f
        cases f'
        simp only [Frames] at hf
        rw [hf.1, hf.2 hexact]
  cases e
  cases e'
  simp only at hframes
  simp only [RuntimeFault.mk.injEq]
  exact ⟨h.cause, h.message, h.pos hexact, h.name, h.operator, h.expected, h.actual,
    h.codeFrame hexact, hframes⟩

/-- Related positions and calls make related frames. -/
theorem framesAt {p p' : Position} (hp : C.exact → p = p') {calls calls' : List Frame}
    (hcalls : List.Forall₂ C.Frames calls calls') :
    List.Forall₂ C.Frames (RuntimeFault.framesAt p calls) (RuntimeFault.framesAt p' calls') := by
  simp only [RuntimeFault.framesAt]
  induction hcalls generalizing p p' with
  | nil => exact .cons ⟨rfl, hp⟩ .nil
  | cons hf _ ih => exact .cons ⟨hf.1, hp⟩ (ih hf.2)

/-- Related faults record related calls. -/
theorem attach {calls calls' : List Frame} (h : C.Faults e e')
    (hcalls : List.Forall₂ C.Frames calls calls') :
    C.Faults (e.attach calls) (e'.attach calls') := by
  have hrel := h.frames
  simp only [RuntimeFault.attach]
  cases hf : e.frames with
  | some fs =>
      cases hf' : e'.frames with
      | some fs' => exact h
      | none => rw [hf, hf'] at hrel; cases hrel
  | none =>
      cases hf' : e'.frames with
      | some fs' => rw [hf, hf'] at hrel; cases hrel
      | none => exact { h with frames := .some (framesAt h.pos hcalls) }

/-- The failing line is the same if positions are. -/
theorem located (source : Text) (h : C.Faults e e') :
    C.Faults (e.located source) (e'.located source) := by
  have hlocated : ∀ f : RuntimeFault, f.located source =
      { f with codeFrame := (f.located source).codeFrame } := by
    intro f
    simp only [RuntimeFault.located]
    split <;> rfl
  rw [hlocated e, hlocated e']
  refine { h with codeFrame := fun hexact => ?_ }
  rw [h.eq_of_exact hexact]

end Faults

namespace Sessions

variable {s s' : Session}

theorem refl (h : s.store.Discreet) : C.Sessions s s where
  store := .refl h
  calls := List.forall₂_same.mpr fun _ _ => ⟨rfl, fun _ => rfl⟩
  echoed := rfl
  muted := rfl
  clock := rfl
  logging := rfl
  stamps := rfl
  memory := rfl

theorem bind (h : C.Sessions s s') (level : LevelId) (name : Text) {v v' : Value}
    (hv : C.Values v v') : C.Sessions (s.bind level name v) (s'.bind level name v') :=
  { h with store := h.store.set level name hv }

theorem echo (h : C.Sessions s s') (line : Text) : C.Sessions (s.echo line) (s'.echo line) := by
  rw [Session.echo, Session.echo]
  by_cases hmuted : s.muted = true
  · rw [if_pos hmuted, if_pos (h.muted ▸ hmuted)]
    exact h
  · rw [if_neg hmuted, if_neg (h.muted ▸ hmuted)]
    exact { h with echoed := congrArg (·.push line) h.echoed }

theorem enter (h : C.Sessions s s') (function : Text) {p p' : Position}
    (hp : C.exact → p = p') : C.Sessions (s.enter function p) (s'.enter function p') :=
  { h with calls := .cons ⟨rfl, hp⟩ h.calls }

theorem leave (h : C.Sessions s s') : C.Sessions s.leave s'.leave := by
  refine { h with calls := ?_ }
  have hcalls := h.calls
  simp only [Session.leave]
  generalize s.calls = cs at hcalls ⊢
  generalize s'.calls = cs' at hcalls ⊢
  cases hcalls with
  | nil => exact .nil
  | cons _ hrest => exact hrest

theorem note (h : C.Sessions s s') (r r' : LogRecord) : C.Sessions (s.note r) (s'.note r') := by
  rw [Session.note, Session.note]
  by_cases hlogging : s.logging = true
  · rw [if_pos hlogging, if_pos (h.logging ▸ hlogging)]
    exact { h with }
  · rw [if_neg hlogging, if_neg (h.logging ▸ hlogging)]
    exact h

theorem readClock (h : C.Sessions s s') :
    s.readClock.1 = s'.readClock.1 ∧ C.Sessions s.readClock.2 s'.readClock.2 := by
  rw [Session.readClock, Session.readClock, h.clock]
  exact ⟨rfl, { h with clock := rfl }⟩

theorem begin (h : C.Sessions s s') : C.Sessions s.begin s'.begin := { h.readClock.2 with }

theorem keepRemarks (h : C.Sessions s s') (remarks : List GrammarFault) :
    C.Sessions (s.keepRemarks remarks) (s'.keepRemarks remarks) := by
  have hstart : C.Sessions { s with remarks := remarks } { s' with remarks := remarks } :=
    { h with }
  simp only [Session.keepRemarks]
  generalize ({ s with remarks := remarks } : Session) = t at hstart ⊢
  generalize ({ s' with remarks := remarks } : Session) = t' at hstart ⊢
  clear h
  induction remarks generalizing t t' with
  | nil => exact hstart
  | cons r remarks ih => exact ih _ _ (hstart.note _ _)

theorem conclude (h : C.Sessions s s') (b : Bool) : C.Sessions (s.conclude b) (s'.conclude b) := by
  simp only [Session.conclude, h.logging]
  split
  · exact h.readClock.2.note _ _
  · exact h

theorem output_eq (h : C.Sessions s s') : s.output = s'.output := by
  rw [Session.output, Session.output, h.echoed]

/-- What does not tell related values apart does not tell related outermost
    bindings apart. -/
theorem map_globals_eq {f : Value → Value} (hf : ∀ {v v'}, C.Values v v' → f v = f v')
    (h : C.Sessions s s') :
    s.globals.map (fun entry => (entry.1, f entry.2)) =
      s'.globals.map fun entry => (entry.1, f entry.2) := by
  have hentries := h.store.bindings Store.globals
  rw [Session.globals, Session.globals]
  generalize s.store.bindings Store.globals = d at hentries ⊢
  generalize s'.store.bindings Store.globals = d' at hentries ⊢
  induction hentries with
  | nil => rfl
  | cons hentry _ ih => rw [List.map_cons, List.map_cons, ih, hf hentry.2, hentry.1]

theorem stamp (h : C.Sessions s s') :
    s.stamp.1 = s'.stamp.1 ∧ C.Sessions s.stamp.2 s'.stamp.2 :=
  ⟨h.stamps, { h with stamps := congrArg (· + 1) h.stamps }⟩

theorem standing (h : C.Sessions s s') (level : LevelId) :
    s.standing level = s'.standing level := by
  rw [Session.standing, Session.standing, h.store.size_eq]

/-- Asked for the same thing, related sessions answer the same up to what is
    inside functions and up to remarks, and show related values. -/
theorem reply (h : C.Sessions s s') (q : Query) {held held' : List Value}
    (hheld : List.Forall₂ C.Values held held') :
    q.outside (s.reply q held).answer = q.outside (s'.reply q held').answer ∧
      List.Forall₂ C.Values (s.reply q held).shown (s'.reply q held').shown ∧
      C.Sessions (s.reply q held).session (s'.reply q held').session := by
  cases q with
  | time => exact ⟨h.readClock.1, .nil, h.readClock.2⟩
  | kept => exact ⟨h.memory, .nil, h⟩
  | remember t => exact ⟨rfl, .nil, { h with memory := rfl }⟩
  | remarks => exact ⟨rfl, .nil, h⟩
  | mute muted => exact ⟨rfl, .nil, { h with muted := rfl }⟩
  | names level => exact ⟨h.store.names_eq level, .nil, h⟩
  | outer level => exact ⟨h.store.outer?_eq level, .nil, h⟩
  | nest level =>
      simp only [Session.reply, h.standing]
      rcases h.store.openLevel (some (s'.standing level)) with ⟨hlevel, hstore⟩
      exact ⟨hlevel, .nil, { h with store := hstore }⟩
  | bind level name v => exact ⟨rfl, .nil, h.bind level name (Values.among hheld v)⟩
  | lookup level name =>
      have hlookup := h.store.lookup level name
      simp only [Session.reply, Query.outside]
      generalize s.store.lookup level name = v at hlookup ⊢
      generalize s'.store.lookup level name = v' at hlookup ⊢
      cases hlookup with
      | none => exact ⟨rfl, .nil, h⟩
      | some hv => exact ⟨congrArg some hv.outside_eq, .cons hv .nil, h⟩
  | remove level name =>
      have hremove := h.store.remove level name
      simp only [Session.reply]
      generalize s.store.remove level name = r at hremove ⊢
      generalize s'.store.remove level name = r' at hremove ⊢
      cases hremove with
      | none => exact ⟨rfl, .nil, h⟩
      | some hstore => exact ⟨rfl, .nil, { h with store := hstore }⟩
  | make name params body home =>
      simp only [Session.reply, h.standing, h.stamps]
      exact ⟨trivial, .cons (.refl nofun) .nil, h.stamp.2⟩

theorem declare (h : C.Sessions s s') (here : LevelId) {name name' : Token}
    {params params' : List Token} {b b' : List Stmt} (hname : C.token name name')
    (hparams : List.Forall₂ C.token params params') (hb : C.body b b') :
    C.Sessions (declare here name params b s) (PocketScript.declare here name' params' b' s') := by
  change C.Sessions
    (s.stamp.2.bind here name.lexeme (.function ⟨name.lexeme, params, b, here, s.stamp.1⟩))
    (s'.stamp.2.bind here name'.lexeme (.function ⟨name'.lexeme, params', b', here, s'.stamp.1⟩))
  rw [h.stamp.1, (C.token_like hname).2.1]
  exact h.stamp.2.bind here _ (.function hparams hb)

theorem bindAll (h : C.Sessions s s') (here : LevelId) {params params' : List Token}
    {vs vs' : List Value} (hparams : List.Forall₂ C.token params params')
    (hvs : List.Forall₂ C.Values vs vs') :
    C.Sessions (bindAll here params vs s) (PocketScript.bindAll here params' vs' s') := by
  simp only [PocketScript.bindAll]
  induction hparams generalizing vs vs' s s' with
  | nil => exact h
  | cons hp _ ih =>
      cases hvs with
      | nil => exact h
      | cons hv hvs =>
          simp only [List.zip_cons_cons, List.foldl_cons, (C.token_like hp).2.1]
          exact ih (h.bind here _ hv) hvs

end Sessions

namespace Outcomes

variable {ε α β : Type} {E : ε → ε → Prop} {R : α → α → Prop} {Q : β → β → Prop}

/-- Related outcomes go on in step. -/
theorem andThen {o o' : Outcome ε α} {f f' : α → Session → Outcome ε β}
    (h : C.Outcomes E R o o')
    (hf : ∀ {a a' s s'}, R a a' → C.Sessions s s' → C.Outcomes E Q (f a s) (f' a' s')) :
    C.Outcomes E Q (o.andThen f) (o'.andThen f') := by
  cases h with
  | ok ha hs => exact hf ha hs
  | fault he hs => exact .fault he hs
  | starved => exact .starved

/-- After a fault too. -/
theorem either {ε' : Type} {E' : ε' → ε' → Prop} {o o' : Outcome ε Unit}
    {f f' : Option ε → Session → Outcome ε' β} (h : C.Outcomes E (fun _ _ => True) o o')
    (hok : ∀ {s s'}, C.Sessions s s' → C.Outcomes E' Q (f none s) (f' none s'))
    (hfault : ∀ {e e' s s'}, E e e' → C.Sessions s s' →
      C.Outcomes E' Q (f (some e) s) (f' (some e') s')) :
    C.Outcomes E' Q (o.either f) (o'.either f') := by
  cases h with
  | ok _ hs => exact hok hs
  | fault he hs => exact hfault he hs
  | starved => exact .starved

theorem raise {e e' : RuntimeFault} {s s' : Session} (he : C.Faults e e')
    (hs : C.Sessions s s') : C.Outcomes C.Faults R (s.raise e) (s'.raise e') :=
  .fault (he.attach hs.calls) hs

end Outcomes

end Likeness

end PocketScript
