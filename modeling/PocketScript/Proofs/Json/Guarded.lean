import PocketScript.Proofs.Json.Strings
import PocketScript.Proofs.Text.Encoding

/-!
# Strings as they are written out

Writing a string escapes the characters that mean something to pages and scripts and
leaves the rest as it was. The result can stand inside a string again, and it stands
for the same text.

Neither is a fact about single characters. Whether a byte spells anything depends on
the bytes after it, and these may become an escape. An escape starts with a byte that
goes on with no character, so a byte that spelled nothing before spells nothing
afterwards, and a character that is complete looks no further (`Json.first_guarded`).
On the side of escapes, the first half of a surrogate pair looks at the escape after
it. A character that turns into an escape must not become its second half there, so
the induction carries both what two texts stand for and what they offer to a first half
that precedes them (`Json.ReadAlike`).

## Main definitions

* `Text.firstGlyph`, `Text.afterFirst`: A text taken apart after its first character.
* `Json.IsOrdinary`: A byte that is written as it is.
* `Json.ReadAlike`: Insides that stand for the same text, after anything.

## Theorems

* `Text.induction_on_glyphs`: A text is read character by character.
* `Json.Inside.induction_on_glyphs`: The inside of a string is read character by
  character and escape by escape.
* `Json.Inside.guarded`: What is written out can stand inside a string.
* `Json.first_guarded`: What follows a character may be written out.
* `Json.unescape_guarded`: What is written out stands for the same text.
-/

namespace PocketScript

namespace Text

/-- The first character of a text. -/
def firstGlyph (b : UInt8) (s : Text) : Glyph :=
  ⟨(Glyph.first b s).1, b :: s.take ((Glyph.first b s).2 - 1)⟩

/-- What follows the first character of a text. -/
def afterFirst (b : UInt8) (s : Text) : Text := s.drop ((Glyph.first b s).2 - 1)

theorem glyphs_eq_firstGlyph (b : UInt8) (s : Text) :
    glyphs (b :: s) = firstGlyph b s :: glyphs (afterFirst b s) := glyphs_cons b s

theorem firstGlyph_low {b : UInt8} (hb : isHigh b = false) (s : Text) :
    firstGlyph b s = ⟨b.toNat, [b]⟩ := by
  rw [firstGlyph, Glyph.first_low hb]
  rfl

theorem afterFirst_low {b : UInt8} (hb : isHigh b = false) (s : Text) : afterFirst b s = s := by
  rw [afterFirst, Glyph.first_low hb]
  rfl

theorem bytes_append_afterFirst (b : UInt8) (s : Text) :
    (firstGlyph b s).bytes ++ afterFirst b s = b :: s := by
  rw [firstGlyph, afterFirst, List.cons_append, List.take_append_drop]

theorem length_afterFirst (b : UInt8) (s : Text) : (afterFirst b s).length < (b :: s).length := by
  rw [afterFirst, List.length_drop, List.length_cons]
  omega

theorem isHigh_of_mem_bytes {b c : UInt8} {s : Text} (hc : c ∈ (firstGlyph b s).bytes) :
    c = b ∨ isHigh c = true :=
  (List.mem_cons.mp hc).imp_right isHigh_of_mem_take

/-- A text is read character by character. -/
theorem induction_on_glyphs {P : Text → Prop} (s : Text) (nil : P [])
    (cons : ∀ b s, P (afterFirst b s) → P (b :: s)) : P s := by
  induction hn : s.length using Nat.strong_induction_on generalizing s with
  | _ n ih =>
    subst hn
    cases s with
    | nil => exact nil
    | cons b s => exact cons b s (ih _ (length_afterFirst b s) _ rfl)

end Text

namespace Json

open Text

/-- What stands inside a string is read character by character and escape by
    escape. -/
theorem Inside.induction_on_glyphs {P : Text → Prop} {s : Text} (h : Inside s) (nil : P [])
    (letter : ∀ {e s}, isEscapeLetter e = true → P s → P (92 :: e :: s))
    (code : ∀ {a b c d s}, (hexValue? a).isSome → (hexValue? b).isSome → (hexValue? c).isSome →
      (hexValue? d).isSome → P s → P (92 :: 117 :: a :: b :: c :: d :: s))
    (plain : ∀ {b s}, b ≠ 34 → b ≠ 92 → ¬ b < 32 → P (afterFirst b s) → P (b :: s)) : P s := by
  induction hn : s.length using Nat.strong_induction_on generalizing s with
  | _ n ih =>
    subst hn
    cases h with
    | nil => exact nil
    | letter he h => exact letter he (ih _ (by simp only [List.length_cons]; omega) h rfl)
    | code ha hb hc hd h =>
        exact code ha hb hc hd (ih _ (by simp only [List.length_cons]; omega) h rfl)
    | @plain b s hquote hescape hvisible h =>
        -- The character may take more bytes than the one at hand, all of them high.
        refine plain hquote hescape hvisible (ih _ (length_afterFirst b s) ?_ rfl)
        refine of_append_high (s := s.take ((Glyph.first b s).2 - 1)) (fun c hc => ?_) ?_
        · exact isHigh_of_mem_take hc
        · rwa [afterFirst, List.take_append_drop]

theorem guarded_cons (b : UInt8) (s : Text) :
    guarded (b :: s) =
      (if isDelicate (firstGlyph b s).code then escapeCode (firstGlyph b s).code
        else (firstGlyph b s).bytes) ++ guarded (afterFirst b s) := by
  rw [guarded, glyphs_eq_firstGlyph, List.flatMap_cons, guarded]

/-- A byte that is a character by itself and is not guarded. -/
def IsOrdinary (b : UInt8) : Prop := isHigh b = false ∧ isDelicate b.toNat = false

theorem guarded_cons_ordinary {b : UInt8} (hb : IsOrdinary b) (s : Text) :
    guarded (b :: s) = b :: guarded s := by
  rw [guarded_cons, firstGlyph_low hb.1, afterFirst_low hb.1, hb.2]
  rfl

theorem isOrdinary_of_letter {e : UInt8} (he : isEscapeLetter e = true) : IsOrdinary e := by
  simp only [isEscapeLetter, Bool.or_eq_true, beq_iff_eq] at he
  rcases he with ((((((rfl | rfl) | rfl) | rfl) | rfl) | rfl) | rfl) | rfl <;> exact ⟨rfl, rfl⟩

theorem isOrdinary_of_hex {b : UInt8} (hb : (hexValue? b).isSome = true) : IsOrdinary b := by
  have hrange : (48 ≤ b.toNat ∧ b.toNat ≤ 57) ∨ (97 ≤ b.toNat ∧ b.toNat ≤ 102) ∨
      (65 ≤ b.toNat ∧ b.toNat ≤ 70) := by
    simp only [hexValue?, UInt8.le_iff_toNat_le] at hb
    split_ifs at hb with h h h
    · exact Or.inl h
    · exact Or.inr (Or.inl h)
    · exact Or.inr (Or.inr h)
    · cases hb
  constructor
  · rw [isHigh, decide_eq_false_iff_not]
    omega
  · simp only [isDelicate, Bool.or_eq_false_iff, beq_eq_false_iff_ne]
    refine ⟨⟨⟨⟨?_, ?_⟩, ?_⟩, ?_⟩, ?_⟩ <;> exact fun h : b.toNat = _ => by omega

theorem guarded_letter {e : UInt8} (he : isEscapeLetter e = true) (s : Text) :
    guarded (92 :: e :: s) = 92 :: e :: guarded s := by
  rw [guarded_cons_ordinary ⟨rfl, rfl⟩, guarded_cons_ordinary (isOrdinary_of_letter he)]

theorem guarded_code {a b c d : UInt8} (ha : (hexValue? a).isSome) (hb : (hexValue? b).isSome)
    (hc : (hexValue? c).isSome) (hd : (hexValue? d).isSome) (s : Text) :
    guarded (92 :: 117 :: a :: b :: c :: d :: s) = 92 :: 117 :: a :: b :: c :: d :: guarded s := by
  rw [guarded_cons_ordinary ⟨rfl, rfl⟩, guarded_cons_ordinary ⟨rfl, rfl⟩,
    guarded_cons_ordinary (isOrdinary_of_hex ha), guarded_cons_ordinary (isOrdinary_of_hex hb),
    guarded_cons_ordinary (isOrdinary_of_hex hc), guarded_cons_ordinary (isOrdinary_of_hex hd)]

/-- The inside of a string can still stand there once it is guarded. -/
theorem Inside.guarded {s : Text} (h : Inside s) : Inside (Json.guarded s) := by
  refine h.induction_on_glyphs (P := fun s => Inside (Json.guarded s)) .nil ?_ ?_ ?_
  · intro e s he ih
    rw [guarded_letter he]
    exact .letter he ih
  · intro a b c d s ha hb hc hd ih
    rw [guarded_code ha hb hc hd]
    exact .code ha hb hc hd ih
  · intro b s hquote hescape hvisible ih
    rw [guarded_cons]
    split
    · exact ih.escapeCode _
    · exact .plain hquote hescape hvisible
        (.append (.of_high fun c hc => isHigh_of_mem_take hc) ih)

/-- Up to the first character that is escaped nothing changes, and the escape starts
    with a character of one byte. -/
theorem exists_cut_guarded (s : Text) :
    ∃ kept rest rest', s = kept ++ rest ∧ guarded s = kept ++ rest' ∧ CutsClean rest' := by
  induction s using Text.induction_on_glyphs with
  | nil => exact ⟨[], [], [], rfl, rfl, fun b r h => absurd h.symm (List.cons_ne_nil b r)⟩
  | cons b s ih =>
      rw [guarded_cons]
      split
      · exact ⟨[], b :: s, _, rfl, rfl, cutsClean_cons rfl _⟩
      · rcases ih with ⟨kept, rest, rest', hs, hguarded, hclean⟩
        refine ⟨(firstGlyph b s).bytes ++ kept, rest, rest', ?_, ?_, hclean⟩
        · rw [List.append_assoc, ← hs, bytes_append_afterFirst]
        · rw [hguarded, List.append_assoc]

/-- A character is read the same in front of what follows it and in front of what
    that is written as. -/
theorem first_guarded (b : UInt8) (s : Text) :
    Glyph.first b (s.take ((Glyph.first b s).2 - 1) ++ guarded (afterFirst b s)) =
      Glyph.first b s := by
  have hwidth : (Glyph.first b s).2 - 1 ≤ s.length :=
    Nat.le_trans (Glyph.first_width b s) (List.takeWhile_sublist _).length_le
  -- The bytes up to the next escape are there before and after, and the character needs
  -- no more of them.
  rcases exists_cut_guarded (afterFirst b s) with ⟨kept, rest, rest', hs, hguarded, hclean⟩
  have hsplit : s = s.take ((Glyph.first b s).2 - 1) ++ kept ++ rest := by
    rw [List.append_assoc, ← hs, afterFirst, List.take_append_drop]
  have hshort : (Glyph.first b (s.take ((Glyph.first b s).2 - 1) ++ kept ++ rest)).2 - 1 ≤
      (s.take ((Glyph.first b s).2 - 1) ++ kept).length := by
    rw [← hsplit, List.length_append, List.length_take, Nat.min_eq_left hwidth]
    exact Nat.le_add_right _ _
  rw [hguarded, ← List.append_assoc,
    Glyph.first_congr b (takeWhile_append_of_cutsClean _ hclean), Glyph.first_of_append hshort,
    ← hsplit]

/-- So it is found again in what is written. -/
theorem glyphs_guarded {b : UInt8} {s : Text} (h : isDelicate (firstGlyph b s).code = false) :
    glyphs (guarded (b :: s)) = firstGlyph b s :: glyphs (guarded (afterFirst b s)) := by
  have hwidth : (s.take ((Glyph.first b s).2 - 1)).length = (Glyph.first b s).2 - 1 := by
    rw [List.length_take]
    exact Nat.min_eq_left
      (Nat.le_trans (Glyph.first_width b s) (List.takeWhile_sublist _).length_le)
  rw [guarded_cons, h, if_neg Bool.false_ne_true, firstGlyph, List.cons_append, glyphs_cons,
    first_guarded, List.take_left' hwidth, List.drop_left' hwidth]

/-- A character with bytes that spell nothing replaced. -/
def mended (g : Glyph) : Text := if g.isBroken then Rune.encode Rune.replacement else g.bytes

theorem repaired_cons (b : UInt8) (s : Text) :
    repaired (b :: s) = mended (firstGlyph b s) ++ repaired (afterFirst b s) := by
  rw [repaired, glyphs_eq_firstGlyph, List.flatMap_cons]
  rfl

theorem isBroken_low {b : UInt8} (hb : isHigh b = false) :
    (⟨b.toNat, [b]⟩ : Glyph).isBroken = false := by
  rw [isHigh, decide_eq_false_iff_not] at hb
  have hcode : b.toNat ≠ Rune.replacement := fun h => hb (by rw [h]; decide)
  rw [Glyph.isBroken, beq_eq_false_iff_ne.mpr hcode, Bool.false_and]

theorem repaired_cons_low {b : UInt8} (hb : isHigh b = false) (s : Text) :
    repaired (b :: s) = b :: repaired s := by
  rw [repaired_cons, firstGlyph_low hb, afterFirst_low hb, mended, isBroken_low hb]
  rfl

theorem repaired_append_low {u : Text} (hu : ∀ b ∈ u, isHigh b = false) (s : Text) :
    repaired (u ++ s) = u ++ repaired s := by
  induction u with
  | nil => rfl
  | cons b u ih =>
      rcases List.forall_mem_cons.mp hu with ⟨hb, hu⟩
      rw [List.cons_append, repaired_cons_low hb, ih hu, List.cons_append]

theorem repaired_guarded {b : UInt8} {s : Text} (h : isDelicate (firstGlyph b s).code = false) :
    repaired (guarded (b :: s)) =
      mended (firstGlyph b s) ++ repaired (guarded (afterFirst b s)) := by
  rw [repaired, glyphs_guarded h, List.flatMap_cons]
  rfl

/-- The characters that are escaped. -/
theorem delicate_cases {r : Rune} (h : isDelicate r = true) :
    r = 60 ∨ r = 62 ∨ r = 38 ∨ r = 0x2028 ∨ r = 0x2029 := by
  simp only [isDelicate, Bool.or_eq_true, beq_iff_eq] at h
  rcases h with (((h | h) | h) | h) | h <;> simp [h]

theorem escapeCode_low {r : Rune} (h : isDelicate r = true) :
    ∀ b ∈ escapeCode r, isHigh b = false := by
  have hall : (escapeCode r).all (fun b => !isHigh b) = true := by
    rcases delicate_cases h with rfl | rfl | rfl | rfl | rfl <;> decide
  intro b hb
  simpa using List.all_eq_true.mp hall b hb

theorem repaired_escapeCode {r : Rune} (h : isDelicate r = true) (s : Text) :
    repaired (escapeCode r ++ s) = escapeCode r ++ repaired s :=
  repaired_append_low (escapeCode_low h) s

theorem unescapeAfter_eq_drop (n : Nat) (t : Text) :
    unescapeAfter n t = unescapeAfter 0 (t.drop n) := by
  induction t generalizing n with
  | nil => cases n <;> rfl
  | cons b t ih =>
      cases n with
      | zero => rfl
      | succ n => exact ih n

theorem unescapeAfter_cons {b : UInt8} (hb : b ≠ 92) (t : Text) :
    unescapeAfter 0 (b :: t) = b :: unescapeAfter 0 t := by
  rw [unescapeAfter.eq_def]
  exact if_neg hb

/-- What is no escape stands for itself. -/
theorem unescapeAfter_append {u : Text} (hu : 92 ∉ u) (t : Text) :
    unescapeAfter 0 (u ++ t) = u ++ unescapeAfter 0 t := by
  induction u with
  | nil => rfl
  | cons b u ih =>
      rcases not_or.mp (mt List.mem_cons.mpr hu) with ⟨hb, hu⟩
      rw [List.cons_append, unescapeAfter_cons (Ne.symm hb), ih hu, List.cons_append]

theorem unescapeAfter_escapeCode {r : Rune} (h : isDelicate r = true) (t : Text) :
    unescapeAfter 0 (escapeCode r ++ t) = Rune.encode r ++ unescapeAfter 0 t := by
  rcases delicate_cases h with rfl | rfl | rfl | rfl | rfl <;> rfl

theorem unescapeAfter_letter {e : UInt8} (he : e ≠ 117) (t : Text) :
    unescapeAfter 0 (92 :: e :: t) = escapedByte e :: unescapeAfter 0 t := by
  rw [unescapeAfter.eq_def]
  simp only [if_true]
  rfl

/-- An escape of four digits, which may be the first half of a surrogate pair. -/
theorem unescapeAfter_code (a b c d : UInt8) (t : Text) :
    unescapeAfter 0 (92 :: 117 :: a :: b :: c :: d :: t) =
      let code := (hexQuad? [a, b, c, d]).getD Rune.replacement
      if isSurrogate code then
        match (lowHalf? t).bind (pair? code) with
        | some joined => Rune.encode joined ++ unescapeAfter 0 (t.drop 6)
        | none => Rune.encode Rune.replacement ++ unescapeAfter 0 t
      else Rune.encode code ++ unescapeAfter 0 t := by
  have h11 : unescapeAfter 11 (117 :: a :: b :: c :: d :: t) = unescapeAfter 0 (t.drop 6) := by
    rw [unescapeAfter_eq_drop]
    rfl
  rw [unescapeAfter.eq_def]
  simp only [if_true, h11]
  rfl

/-- Two insides of strings that stand for the same text, also after the first half of
    a surrogate pair: there the start of what follows may be taken for the second
    half. -/
structure ReadAlike (t t' : Text) : Prop where
  meaning : unescapeAfter 0 t = unescapeAfter 0 t'
  half : ∀ code, (lowHalf? t).bind (pair? code) = (lowHalf? t').bind (pair? code)
  after : lowHalf? t' ≠ none → unescapeAfter 0 (t.drop 6) = unescapeAfter 0 (t'.drop 6)

theorem lowHalf?_append {u : Text} (hne : u ≠ []) (hu : 92 ∉ u) (t : Text) :
    lowHalf? (u ++ t) = none := by
  cases u with
  | nil => exact absurd rfl hne
  | cons b u =>
      have hb : b ≠ 92 := fun h => hu (h ▸ List.mem_cons_self)
      rw [List.cons_append, lowHalf?.eq_def]
      split
      · rename_i heq
        exact absurd (List.cons.inj heq).1 hb
      · rfl

namespace ReadAlike

variable {t t' : Text}

theorem nil : ReadAlike [] [] := ⟨rfl, fun _ => rfl, fun _ => rfl⟩

theorem letter {e : UInt8} (he : e ≠ 117) (h : ReadAlike t t') :
    ReadAlike (92 :: e :: t) (92 :: e :: t') := by
  have hhalf : ∀ t, lowHalf? (92 :: e :: t) = none := by
    intro t
    rw [lowHalf?.eq_def]
    split
    · rename_i heq
      exact absurd (List.cons.inj (List.cons.inj heq).2).1 he
    · rfl
  refine ⟨?_, fun code => ?_, fun hsome => absurd (hhalf t') hsome⟩
  · rw [unescapeAfter_letter he, unescapeAfter_letter he, h.meaning]
  · rw [hhalf, hhalf]

theorem code (a b c d : UInt8) (h : ReadAlike t t') :
    ReadAlike (92 :: 117 :: a :: b :: c :: d :: t) (92 :: 117 :: a :: b :: c :: d :: t') := by
  refine ⟨?_, fun _ => rfl, fun _ => h.meaning⟩
  rw [unescapeAfter_code, unescapeAfter_code]
  simp only [h.half, h.meaning]
  split
  · split
    · rename_i joined hjoined
      have hsome : lowHalf? t' ≠ none := by
        intro hnone
        rw [hnone] at hjoined
        cases hjoined
      rw [h.after hsome]
    · rfl
  · rfl

/-- What is no escape is kept. -/
theorem append {u : Text} (hne : u ≠ []) (hu : 92 ∉ u) (h : ReadAlike t t') :
    ReadAlike (u ++ t) (u ++ t') := by
  refine ⟨?_, fun code => ?_, fun hsome => absurd (lowHalf?_append hne hu t') hsome⟩
  · rw [unescapeAfter_append hu, unescapeAfter_append hu, h.meaning]
  · rw [lowHalf?_append hne hu, lowHalf?_append hne hu]

/-- A character that is escaped is never half of a surrogate pair. -/
theorem escapeCode {r : Rune} (hr : isDelicate r = true) (h : ReadAlike t t') :
    ReadAlike (Json.escapeCode r ++ t) (Rune.encode r ++ t') := by
  have hplain : Rune.encode r ≠ [] ∧ 92 ∉ Rune.encode r := by
    rcases delicate_cases hr with rfl | rfl | rfl | rfl | rfl <;> decide
  have hhalf : ∀ code, pair? code r = none := by
    intro code
    rw [pair?, if_neg]
    rintro ⟨_, _, hlow, _⟩
    rcases delicate_cases hr with rfl | rfl | rfl | rfl | rfl <;> exact absurd hlow (by decide)
  have hlow : lowHalf? (Json.escapeCode r ++ t) = some r := by
    rcases delicate_cases hr with rfl | rfl | rfl | rfl | rfl <;> rfl
  refine ⟨?_, fun code => ?_, fun hsome => absurd (lowHalf?_append hplain.1 hplain.2 t') hsome⟩
  · rw [unescapeAfter_escapeCode hr, unescapeAfter_append hplain.2, h.meaning]
  · rw [hlow, Option.bind_some, hhalf, lowHalf?_append hplain.1 hplain.2, Option.bind_none]

end ReadAlike

theorem mended_plain {b : UInt8} (hb : b ≠ 92) (s : Text) :
    mended (firstGlyph b s) ≠ [] ∧ 92 ∉ mended (firstGlyph b s) := by
  rw [mended]
  split
  · decide
  · refine ⟨List.cons_ne_nil _ _, fun hmem => ?_⟩
    rcases isHigh_of_mem_bytes hmem with h | h
    · exact hb h.symm
    · cases h

/-- A character that is escaped is spelled like its code point. -/
theorem mended_delicate {b : UInt8} {s : Text} (h : isDelicate (firstGlyph b s).code = true) :
    mended (firstGlyph b s) = Rune.encode (firstGlyph b s).code := by
  have hcode : (firstGlyph b s).code ≠ Rune.replacement := by
    rcases delicate_cases h with h | h | h | h | h <;> rw [h] <;> decide
  have hwhole : Glyph.first b s ≠ (Rune.replacement, 1) := fun h => hcode (congrArg Prod.fst h)
  have hbroken : (firstGlyph b s).isBroken = false := by
    rw [Glyph.isBroken, beq_eq_false_iff_ne.mpr hcode, Bool.false_and]
  rw [mended, hbroken, if_neg Bool.false_ne_true]
  exact (Glyph.encode_first hwhole).symm

theorem readAlike_guarded {s : Text} (h : Inside s) :
    ReadAlike (repaired (guarded s)) (repaired s) := by
  refine h.induction_on_glyphs (P := fun s => ReadAlike (repaired (guarded s)) (repaired s))
    .nil ?_ ?_ ?_
  · intro e s he ih
    have hcode : e ≠ 117 := by rintro rfl; cases he
    have hrepaired : ∀ t, repaired (92 :: e :: t) = 92 :: e :: repaired t := by
      intro t
      rw [repaired_cons_low rfl, repaired_cons_low (isOrdinary_of_letter he).1]
    rw [guarded_letter he, hrepaired, hrepaired]
    exact ih.letter hcode
  · intro a b c d s ha hb hc hd ih
    have hlow : ∀ x ∈ [92, 117, a, b, c, d], isHigh x = false := by
      simp only [List.forall_mem_cons]
      exact ⟨rfl, rfl, (isOrdinary_of_hex ha).1, (isOrdinary_of_hex hb).1,
        (isOrdinary_of_hex hc).1, (isOrdinary_of_hex hd).1, List.forall_mem_nil _⟩
    have hrepaired : ∀ t, repaired (92 :: 117 :: a :: b :: c :: d :: t) =
        92 :: 117 :: a :: b :: c :: d :: repaired t := repaired_append_low hlow
    rw [guarded_code ha hb hc hd, hrepaired, hrepaired]
    exact ih.code a b c d
  · intro b s _ hescape _ ih
    -- Only here do the two texts differ: one has an escape where the other has its character.
    rw [repaired_cons]
    cases hdelicate : isDelicate (firstGlyph b s).code with
    | true =>
        rw [guarded_cons, if_pos hdelicate, repaired_escapeCode hdelicate,
          mended_delicate hdelicate]
        exact ih.escapeCode hdelicate
    | false =>
        rw [repaired_guarded hdelicate]
        exact ih.append (mended_plain hescape s).1 (mended_plain hescape s).2

/-- What is written out stands for the same text. -/
theorem unescape_guarded {s : Text} (h : Inside s) : unescape (guarded s) = unescape s :=
  (readAlike_guarded h).meaning

end Json

end PocketScript
