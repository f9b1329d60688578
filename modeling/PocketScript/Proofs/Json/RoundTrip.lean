import PocketScript.Proofs.Json.Guarded
import PocketScript.Proofs.Json.Numerals

/-!
# Documents that are written and read

A value that is written on one line is read back. Not the same value: strings come
back as they were written out, which is another spelling of the same texts
(`Json.meaning_spelled`).

Not every value can be written. Strings and numbers are kept as they were written, so
a value may hold a string that no quotes can enclose and a number that is none, and a
document may nest only so deep. `Json.Fits` collects what a value needs. Every value
that comes out of the reader has it, for as many levels as the reader had left, so a
part of a document that was read can be put into a document that is written.

Reading is by fuel, and both directions follow it. In the direction from a document to
its value the induction is on the fuel, for values, items and members at once. In the
other one it is on the value, and the fuel has to exceed the length of what is written:
every step of the descent writes at least one byte.

## Main definitions

* `Json.Fits`: A value that a document can write.
* `Json.mapStrings`: A value with all its strings changed.
* `Json.spelled`: A value as it is read back.
* `Json.meaning`: What all spellings of a value have in common.
* `Json.ReadsBack`: What is written for a value is read as its spelling.

## Theorems

* `Json.meaning_spelled`: A value reads back with the same meaning.
* `Json.fits_of_read`: What is read fits into the levels that were left.
* `Json.Fits.readsBack`: A value that fits is read back, whatever follows it.
* `Json.read_compact`: A document that is written is read back.
-/

namespace PocketScript.Json

open Text

/-- A value that a document can write with at most `levels` arrays and objects inside
    each other. -/
inductive Fits : Nat → Json → Prop where
  | null {levels : Nat} : Fits levels .null
  | bool {levels : Nat} {b : Bool} : Fits levels (.bool b)
  | number {levels : Nat} {n : Text} (h : IsNumeral n) : Fits levels (.number n)
  | string {levels : Nat} {s : Text} (h : Inside s) : Fits levels (.string s)
  | array {levels : Nat} {vs : List Json} (h : ∀ v ∈ vs, Fits levels v) :
      Fits (levels + 1) (.array vs)
  | object {levels : Nat} {ms : List (Text × Json)} (hnames : ∀ m ∈ ms, Inside m.1)
      (h : ∀ m ∈ ms, Fits levels m.2) : Fits (levels + 1) (.object ms)

mutual

/-- A value with all its strings changed, the names of its members included. -/
def mapStrings (f : Text → Text) : Json → Json
  | .null => .null
  | .bool b => .bool b
  | .number n => .number n
  | .string s => .string (f s)
  | .array vs => .array (mapItems f vs)
  | .object ms => .object (mapMembers f ms)

/-- The items of an array with all their strings changed. -/
def mapItems (f : Text → Text) : List Json → List Json
  | [] => []
  | v :: vs => mapStrings f v :: mapItems f vs

/-- The members of an object with all their strings changed. -/
def mapMembers (f : Text → Text) : List (Text × Json) → List (Text × Json)
  | [] => []
  | (k, v) :: ms => (f k, mapStrings f v) :: mapMembers f ms

end

theorem mapItems_eq_map (f : Text → Text) (vs : List Json) :
    mapItems f vs = vs.map (mapStrings f) := by
  induction vs with
  | nil => rfl
  | cons v vs ih => rw [mapItems, ih, List.map_cons]

theorem mapMembers_eq_map (f : Text → Text) (ms : List (Text × Json)) :
    mapMembers f ms = ms.map fun m => (f m.1, mapStrings f m.2) := by
  induction ms with
  | nil => rfl
  | cons m ms ih => rw [mapMembers, ih, List.map_cons]

/-- A value as it is read back once it was written: some characters inside its strings
    are escaped. -/
def spelled (j : Json) : Json := mapStrings guarded j

/-- A value with the texts that its strings stand for in place of their insides: what
    all spellings of the value have in common. -/
def meaning (j : Json) : Json := mapStrings unescape j

/-- A value reads back with the same meaning. -/
theorem meaning_spelled {levels : Nat} {j : Json} (h : Fits levels j) :
    j.spelled.meaning = j.meaning := by
  simp only [meaning, spelled]
  induction h with
  | null => rfl
  | bool => rfl
  | number _ => rfl
  | string h => simp only [mapStrings, unescape_guarded h]
  | array _ ih =>
      simp only [mapStrings, mapItems_eq_map, List.map_map]
      exact congrArg Json.array (List.map_congr_left ih)
  | object hnames _ ih =>
      simp only [mapStrings, mapMembers_eq_map, List.map_map]
      refine congrArg Json.object (List.map_congr_left fun m hm => ?_)
      exact Prod.ext (unescape_guarded (hnames m hm)) (ih m hm)

/-- How a value was read: one case for each kind, with what was read inside. -/
inductive ReadAs (fuel : Nat) : (levels : Nat) → Json → Prop where
  | null {levels : Nat} : ReadAs fuel levels .null
  | bool {levels : Nat} {b : Bool} : ReadAs fuel levels (.bool b)
  | number {levels : Nat} {t n rest : Text} (h : numeral t = some (n, rest)) :
      ReadAs fuel levels (.number n)
  | string {levels : Nat} {t s rest : Text} (h : stringInside 0 t = some (s, rest)) :
      ReadAs fuel levels (.string s)
  | emptyArray {levels : Nat} : ReadAs fuel (levels + 1) (.array [])
  | array {levels : Nat} {t rest : Text} {vs : List Json}
      (h : items fuel levels t = some (vs, rest)) : ReadAs fuel (levels + 1) (.array vs)
  | emptyObject {levels : Nat} : ReadAs fuel (levels + 1) (.object [])
  | object {levels : Nat} {t rest : Text} {ms : List (Text × Json)}
      (h : members fuel levels t = some (ms, rest)) : ReadAs fuel (levels + 1) (.object ms)

theorem readAs_of_value {fuel levels : Nat} {t rest : Text} {j : Json}
    (h : value (fuel + 1) levels t = some (j, rest)) : ReadAs fuel levels j := by
  rw [value] at h
  cases hskip : skip t with
  | nil =>
      rw [hskip] at h
      cases h
  | cons b r =>
      simp only [hskip] at h
      by_cases hbrace : b = 123
      · rw [if_pos hbrace] at h
        cases levels with
        | zero => cases h
        | succ inside =>
            simp only at h
            split at h
            · cases h
              exact .emptyObject
            · rcases Option.map_eq_some_iff.mp h with ⟨⟨ms, rest'⟩, hmembers, heq⟩
              cases heq
              exact .object hmembers
      rw [if_neg hbrace] at h
      by_cases hbracket : b = 91
      · rw [if_pos hbracket] at h
        cases levels with
        | zero => cases h
        | succ inside =>
            simp only at h
            split at h
            · cases h
              exact .emptyArray
            · rcases Option.map_eq_some_iff.mp h with ⟨⟨vs, rest'⟩, hitems, heq⟩
              cases heq
              exact .array hitems
      rw [if_neg hbracket] at h
      by_cases hquote : b = 34
      · rw [if_pos hquote] at h
        rcases Option.map_eq_some_iff.mp h with ⟨⟨s, rest'⟩, hstring, heq⟩
        cases heq
        exact .string hstring
      rw [if_neg hquote] at h
      by_cases hnumber : b = 45 ∨ isDigit b = true
      · rw [if_pos hnumber] at h
        rcases Option.map_eq_some_iff.mp h with ⟨⟨n, rest'⟩, hnumeral, heq⟩
        cases heq
        exact .number hnumeral
      rw [if_neg hnumber] at h
      split at h
      · cases h
        exact .bool
      · cases h
        exact .bool
      · cases h
        exact .null
      · cases h

/-- What is read has at least one item, read as a value, and then more items or
    none. -/
theorem items_cases {fuel levels : Nat} {t rest : Text} {vs : List Json}
    (h : items (fuel + 1) levels t = some (vs, rest)) :
    ∃ v vs' t rest', value fuel levels t = some (v, rest') ∧ vs = v :: vs' ∧
      (vs' = [] ∨ ∃ t, items fuel levels t = some (vs', rest)) := by
  rw [items] at h
  split at h
  · cases h
  · rename_i v rest' hvalue
    split at h
    · rcases Option.map_eq_some_iff.mp h with ⟨⟨vs', rest''⟩, hitems, heq⟩
      cases heq
      exact ⟨v, vs', t, rest', hvalue, rfl, Or.inr ⟨_, hitems⟩⟩
    · cases h
      exact ⟨v, [], t, rest', hvalue, rfl, Or.inl rfl⟩
    · cases h

theorem members_cases {fuel levels : Nat} {t rest : Text} {ms : List (Text × Json)}
    (h : members (fuel + 1) levels t = some (ms, rest)) :
    ∃ k v ms' t t' r r', stringInside 0 t = some (k, r) ∧ value fuel levels t' = some (v, r') ∧
      ms = (k, v) :: ms' ∧ (ms' = [] ∨ ∃ t, members fuel levels t = some (ms', rest)) := by
  rw [members] at h
  split at h
  · split at h
    · cases h
    · rename_i name r hname
      split at h
      · split at h
        · cases h
        · rename_i v r' hvalue
          split at h
          · rcases Option.map_eq_some_iff.mp h with ⟨⟨ms', rest''⟩, hmembers, heq⟩
            cases heq
            exact ⟨name, v, ms', _, _, r, r', hname, hvalue, rfl, Or.inr ⟨_, hmembers⟩⟩
          · cases h
            exact ⟨name, v, [], _, _, r, r', hname, hvalue, rfl, Or.inl rfl⟩
          · cases h
      · cases h
  · cases h

/-- What is read fits into the levels that were left. The induction is on the fuel, for
    values, items and members at once. -/
theorem fits_of_read (fuel : Nat) :
    (∀ {levels t j rest}, value fuel levels t = some (j, rest) → Fits levels j) ∧
    (∀ {levels t vs rest}, items fuel levels t = some (vs, rest) → ∀ v ∈ vs, Fits levels v) ∧
    ∀ {levels t ms rest}, members fuel levels t = some (ms, rest) →
      ∀ m ∈ ms, Inside m.1 ∧ Fits levels m.2 := by
  induction fuel with
  | zero => refine ⟨?_, ?_, ?_⟩ <;> rintro _ _ _ _ ⟨⟩
  | succ fuel ih =>
      rcases ih with ⟨hvalue, hitems, hmembers⟩
      refine ⟨fun h => ?_, fun h => ?_, fun h => ?_⟩
      · cases readAs_of_value h with
        | null => exact .null
        | bool => exact .bool
        | number hread => exact .number (isNumeral_of_numeral hread)
        | string hread => exact .string (inside_of_stringInside hread)
        | emptyArray => exact .array (List.forall_mem_nil _)
        | array hread => exact .array (hitems hread)
        | emptyObject => exact .object (List.forall_mem_nil _) (List.forall_mem_nil _)
        | object hread =>
            exact .object (fun m hm => (hmembers hread m hm).1) fun m hm => (hmembers hread m hm).2
      · rcases items_cases h with ⟨v, vs', t, rest', hread, rfl, hvs⟩
        refine List.forall_mem_cons.mpr ⟨hvalue hread, ?_⟩
        rcases hvs with rfl | ⟨t, hread⟩
        · exact List.forall_mem_nil _
        · exact hitems hread
      · rcases members_cases h with ⟨k, v, ms', t, t', r, r', hname, hread, rfl, hms⟩
        refine List.forall_mem_cons.mpr ⟨⟨inside_of_stringInside hname, hvalue hread⟩, ?_⟩
        rcases hms with rfl | ⟨t, hread⟩
        · exact List.forall_mem_nil _
        · exact hmembers hread

/-- A document writes a value of at most the allowed depth. -/
theorem fits_of_read_document {t : Text} {j : Json} (h : read t = some j) : Fits deepest j := by
  rw [read] at h
  split at h
  · rename_i v rest hvalue
    split at h
    · cases h
      exact (fits_of_read _).1 hvalue
    · cases h
  · cases h

theorem skip_cons {b : UInt8} (hb : isBlank b = false) (r : Text) : skip (b :: r) = b :: r :=
  List.dropWhile_cons_of_neg (by rw [hb]; exact Bool.false_ne_true)

theorem ne_of_isNumeral {b c : UInt8} (hb : b = 45 ∨ isDigit b = true) (hsign : c ≠ 45)
    (hdigit : isDigit c = false) : b ≠ c := by
  rintro rfl
  rcases hb with hb | hb
  · exact hsign hb
  · rw [hdigit] at hb
    cases hb

theorem not_isBlank_of_isNumeral {b : UInt8} (hb : b = 45 ∨ isDigit b = true) :
    isBlank b = false := by
  simp only [isBlank, Bool.or_eq_false_iff, beq_eq_false_iff_ne]
  exact ⟨⟨⟨ne_of_isNumeral hb (by decide) rfl, ne_of_isNumeral hb (by decide) rfl⟩,
    ne_of_isNumeral hb (by decide) rfl⟩, ne_of_isNumeral hb (by decide) rfl⟩

/-- A value starts with something that is not blank and ends no array. -/
theorem Fits.head {levels : Nat} {j : Json} (h : Fits levels j) :
    ∃ b r, j.compact = b :: r ∧ isBlank b = false ∧ b ≠ 93 := by
  cases h with
  | null => exact ⟨110, _, rfl, rfl, by decide⟩
  | @bool _ b =>
      cases b with
      | false => exact ⟨102, _, rfl, rfl, by decide⟩
      | true => exact ⟨116, _, rfl, rfl, by decide⟩
  | number h =>
      rcases h.head with ⟨b, r, rfl, hb⟩
      exact ⟨b, r, rfl, not_isBlank_of_isNumeral hb, ne_of_isNumeral hb (by decide) rfl⟩
  | string _ => exact ⟨34, _, rfl, rfl, by decide⟩
  | array _ => exact ⟨91, _, rfl, rfl, by decide⟩
  | object _ _ => exact ⟨123, _, rfl, rfl, by decide⟩

/-- What is written for a value is read as its spelling, with enough fuel and in front of
    anything that may follow a value. -/
def ReadsBack (levels : Nat) (j : Json) : Prop :=
  ∀ fuel rest, Follows rest → j.compact.length < fuel →
    value fuel levels (j.compact ++ rest) = some (j.spelled, rest)

theorem stringInside_guarded {s : Text} (h : Inside s) (rest : Text) :
    stringInside 0 (guarded s ++ 34 :: rest) = some (guarded s, rest) :=
  h.guarded.stringInside_eq rest

theorem quote_append (s rest : Text) : quote s ++ rest = 34 :: (guarded s ++ 34 :: rest) := by
  simp only [quote, List.append_assoc, List.cons_append, List.nil_append]

theorem readsBack_string {levels : Nat} {s : Text} (h : Inside s) :
    ReadsBack levels (.string s) := by
  intro fuel rest _ hfuel
  rcases fuel with _ | fuel
  · exact absurd hfuel (Nat.not_lt_zero _)
  rw [compact, quote_append, value, skip_cons rfl]
  simp only [stringInside_guarded h]
  rfl

theorem readsBack_number {levels : Nat} {n : Text} (h : IsNumeral n) :
    ReadsBack levels (.number n) := by
  intro fuel rest hrest hfuel
  rcases fuel with _ | fuel
  · exact absurd hfuel (Nat.not_lt_zero _)
  rcases h.head with ⟨b, r, hn, hb⟩
  have hnumeral := h.numeral_eq hrest
  rw [hn, List.cons_append] at hnumeral
  rw [compact, hn, List.cons_append, value, skip_cons (not_isBlank_of_isNumeral hb)]
  simp only [if_neg (ne_of_isNumeral hb (by decide) rfl : b ≠ 123),
    if_neg (ne_of_isNumeral hb (by decide) rfl : b ≠ 91),
    if_neg (ne_of_isNumeral hb (by decide) rfl : b ≠ 34), if_pos hb, hnumeral, Option.map_some]
  rfl

theorem compactItems_cons_cons (v w : Json) (vs : List Json) :
    compactItems (v :: w :: vs) = compact v ++ 44 :: compactItems (w :: vs) := by
  rw [compactItems, List.append_assoc]
  · rfl
  · exact List.cons_ne_nil w vs

/-- Items are read back one by one, with a comma after each but the last. -/
theorem readsBack_items {levels : Nat} {vs : List Json} (hne : vs ≠ [])
    (h : ∀ v ∈ vs, ReadsBack levels v) (rest : Text) : ∀ fuel,
      (compactItems vs).length + 1 < fuel →
        items fuel levels (compactItems vs ++ 93 :: rest) = some (mapItems guarded vs, rest) := by
  -- An item and the comma after it take more bytes than the item, and each call for the rest
  -- one unit of fuel.
  induction vs with
  | nil => exact absurd rfl hne
  | cons v vs ih =>
      intro fuel hfuel
      rcases List.forall_mem_cons.mp h with ⟨hv, hvs⟩
      rcases fuel with _ | fuel
      · exact absurd hfuel (Nat.not_lt_zero _)
      cases vs with
      | nil =>
          rw [compactItems] at hfuel ⊢
          rw [items, hv fuel _ (follows_cons (.inr (.inl rfl)) rest) (by omega)]
          simp only [skip_cons (b := 93) rfl]
          rfl
      | cons w vs =>
          rw [compactItems_cons_cons] at hfuel ⊢
          rw [List.length_append, List.length_cons] at hfuel
          have hmore := ih (List.cons_ne_nil w vs) hvs fuel (by omega)
          rw [List.append_assoc, List.cons_append, items,
            hv fuel _ (follows_cons (.inl rfl) _) (by omega)]
          simp only [skip_cons (b := 44) rfl, hmore]
          rfl

theorem compactMembers_singleton (k : Text) (v : Json) :
    compactMembers [(k, v)] = quote k ++ 58 :: compact v := by
  rw [compactMembers, List.append_assoc]
  rfl

theorem compactMembers_cons_cons (k : Text) (v : Json) (m : Text × Json)
    (ms : List (Text × Json)) :
    compactMembers ((k, v) :: m :: ms) =
      quote k ++ 58 :: (compact v ++ 44 :: compactMembers (m :: ms)) := by
  rw [compactMembers, List.append_assoc, List.append_assoc, List.append_assoc]
  · rfl
  · exact List.cons_ne_nil m ms

/-- Members are read back in the same way. -/
theorem readsBack_members {levels : Nat} {ms : List (Text × Json)} (hne : ms ≠ [])
    (hnames : ∀ m ∈ ms, Inside m.1) (h : ∀ m ∈ ms, ReadsBack levels m.2) (rest : Text) : ∀ fuel,
      (compactMembers ms).length + 1 < fuel →
        members fuel levels (compactMembers ms ++ 125 :: rest) =
          some (mapMembers guarded ms, rest) := by
  induction ms with
  | nil => exact absurd rfl hne
  | cons m ms ih =>
      intro fuel hfuel
      rcases m with ⟨k, v⟩
      rcases List.forall_mem_cons.mp hnames with ⟨hk, hks⟩
      rcases List.forall_mem_cons.mp h with ⟨hv, hms⟩
      rcases fuel with _ | fuel
      · exact absurd hfuel (Nat.not_lt_zero _)
      cases ms with
      | nil =>
          rw [compactMembers_singleton] at hfuel ⊢
          rw [List.length_append, List.length_cons] at hfuel
          have hvalue := hv fuel _ (follows_cons (.inr (.inr rfl)) rest)
            (show v.compact.length < fuel by omega)
          rw [List.append_assoc, List.cons_append, quote_append, members, skip_cons rfl]
          simp only [stringInside_guarded hk, skip_cons (b := 58) rfl, hvalue,
            skip_cons (b := 125) rfl]
          rfl
      | cons m ms =>
          rw [compactMembers_cons_cons] at hfuel ⊢
          rw [List.length_append, List.length_cons, List.length_append, List.length_cons] at hfuel
          have hmore := ih (List.cons_ne_nil m ms) hks hms fuel (by omega)
          have hvalue := hv fuel _
            (follows_cons (.inl rfl) (compactMembers (m :: ms) ++ 125 :: rest))
            (show v.compact.length < fuel by omega)
          rw [List.append_assoc, List.cons_append, quote_append, List.append_assoc,
            List.cons_append, members, skip_cons rfl]
          simp only [stringInside_guarded hk, skip_cons (b := 58) rfl, hvalue,
            skip_cons (b := 44) rfl, hmore]
          rfl

theorem value_array {fuel levels : Nat} {b : UInt8} (hb : isBlank b = false) (hend : b ≠ 93)
    (r : Text) :
    value (fuel + 1) (levels + 1) (91 :: b :: r) =
      (items fuel levels (b :: r)).map fun (vs, rest) => (.array vs, rest) := by
  rw [value, skip_cons rfl]
  simp only [skip_cons hb, if_true]
  rw [if_neg (by decide)]
  split
  · rename_i heq
    exact absurd (List.cons.inj heq).1 hend
  · rfl

theorem value_object (fuel levels : Nat) (r : Text) :
    value (fuel + 1) (levels + 1) (123 :: 34 :: r) =
      (members fuel levels (34 :: r)).map fun (ms, rest) => (.object ms, rest) := by
  rw [value, skip_cons rfl]
  rfl

theorem compactItems_head {levels : Nat} {v : Json} (hv : Fits levels v) (vs : List Json) :
    ∃ b r, compactItems (v :: vs) = b :: r ∧ isBlank b = false ∧ b ≠ 93 := by
  rcases hv.head with ⟨b, r, hcompact, hb⟩
  cases vs with
  | nil => exact ⟨b, r, by rw [compactItems, hcompact], hb⟩
  | cons w vs => exact ⟨b, _, by rw [compactItems_cons_cons, hcompact]; rfl, hb⟩

theorem compactMembers_head (m : Text × Json) (ms : List (Text × Json)) :
    ∃ r, compactMembers (m :: ms) = 34 :: r := by
  cases ms with
  | nil => exact ⟨_, rfl⟩
  | cons m' ms => exact ⟨_, by rw [compactMembers_cons_cons, quote_append]⟩

/-- A value that fits is read back. -/
theorem Fits.readsBack {levels : Nat} {j : Json} (h : Fits levels j) : ReadsBack levels j := by
  induction h with
  | null =>
      intro fuel rest _ hfuel
      cases fuel with
      | zero => exact absurd hfuel (Nat.not_lt_zero _)
      | succ fuel => rfl
  | @bool _ b =>
      intro fuel rest _ hfuel
      cases fuel with
      | zero => exact absurd hfuel (Nat.not_lt_zero _)
      | succ fuel => cases b <;> rfl
  | number h => exact readsBack_number h
  | string h => exact readsBack_string h
  | @array levels vs hvs ih =>
      intro fuel rest _ hfuel
      rcases fuel with _ | fuel
      · exact absurd hfuel (Nat.not_lt_zero _)
      cases vs with
      | nil => rfl
      | cons v vs =>
          -- After the bracket the reader looks whether the array is empty.
          rcases compactItems_head (hvs v List.mem_cons_self) vs with ⟨b, r, hhead, hb, hend⟩
          have hcompact : compact (.array (v :: vs)) ++ rest =
              91 :: (compactItems (v :: vs) ++ 93 :: rest) := by
            simp only [compact, List.append_assoc, List.cons_append, List.nil_append]
          have hlength := congrArg List.length hcompact
          simp only [List.length_append, List.length_cons] at hlength
          rw [hcompact, hhead, List.cons_append, value_array hb hend, ← List.cons_append, ← hhead,
            readsBack_items (List.cons_ne_nil v vs) ih rest fuel (by omega)]
          rfl
  | @object levels ms hnames hms ih =>
      intro fuel rest _ hfuel
      rcases fuel with _ | fuel
      · exact absurd hfuel (Nat.not_lt_zero _)
      cases ms with
      | nil => rfl
      | cons m ms =>
          rcases compactMembers_head m ms with ⟨r, hhead⟩
          have hcompact : compact (.object (m :: ms)) ++ rest =
              123 :: (compactMembers (m :: ms) ++ 125 :: rest) := by
            simp only [compact, List.append_assoc, List.cons_append, List.nil_append]
          have hlength := congrArg List.length hcompact
          simp only [List.length_append, List.length_cons] at hlength
          rw [hcompact, hhead, List.cons_append, value_object, ← List.cons_append, ← hhead,
            readsBack_members (List.cons_ne_nil m ms) hnames ih rest fuel (by omega)]
          rfl

/-- A document that is written is read back. -/
theorem read_compact {j : Json} (h : Fits deepest j) : read j.compact = some j.spelled := by
  have hread := h.readsBack (j.compact.length + 1) [] follows_nil (Nat.lt_succ_self _)
  rw [List.append_nil] at hread
  rw [read, hread]
  rfl

end PocketScript.Json
