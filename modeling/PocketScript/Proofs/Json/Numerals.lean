import Mathlib.Data.List.TakeWhile
import Mathlib.Order.Basic
import PocketScript.Json.Read

/-!
# Numbers as they are written

The reader of numbers takes one part after the other and stops where no part goes
on: the sign, the digits before the point, the point with the digits after it, and
the power of ten. Here each part gets its grammar, and the reader is related to it in
both directions.

In front of a part that is left out, what follows decides: digits must not be
followed by a digit, and a missing point or power must not be followed by the
character that starts one. After a number in a document there is a comma, a bracket, a
brace or nothing at all (`Json.Follows`), and none of these goes on with a number.

## Main definitions

* `Json.Avoids`: A text that does not start with some kind of byte.
* `Json.Follows`: A text that may follow a value.
* `Json.IsNumeral`: The grammar of numbers.

## Theorems

* `Json.isNumeral_of_numeral`: What is read as a number is one.
* `Json.IsNumeral.numeral_eq`: A number is read to its end.
* `Json.isNumeral_decimal`: An integer is written as a number.
* `Json.signed?_natural`: A number reads back from its digits.
-/

namespace PocketScript

namespace Text

theorem isDigit_bounds {c : Char} (h : c.isDigit = true) : 48 ≤ c.toNat ∧ c.toNat ≤ 57 := by
  simp only [Char.isDigit, Bool.and_eq_true, decide_eq_true_eq] at h
  exact h

/-- The digits of a number are digits. -/
theorem digit_of_mem_natural {n : Nat} {b : UInt8} (h : b ∈ natural n) : 48 ≤ b ∧ b ≤ 57 := by
  rcases List.mem_map.mp h with ⟨c, hc, rfl⟩
  have hdigit := isDigit_bounds (Nat.isDigit_of_mem_toDigits (by decide) (by decide) hc)
  simp only [UInt8.le_iff_toNat_le, Nat.toUInt8, UInt8.toNat_ofNat']
  have hsmall : c.toNat % 2 ^ 8 = c.toNat := Nat.mod_eq_of_lt (by omega)
  rw [hsmall]
  exact hdigit

theorem natural_ne_nil (n : Nat) : natural n ≠ [] := by
  rw [natural, ne_eq, List.map_eq_nil_iff]
  exact Nat.toDigits_ne_nil

theorem foldl_digits {cs : List Char} (h : ∀ c ∈ cs, c.isDigit = true) (n : Nat) :
    (cs.map fun c => c.toNat.toUInt8).foldl (fun n b => 10 * n + (b.toNat - 48)) n =
      Nat.ofDigitChars 10 cs n := by
  induction cs generalizing n with
  | nil => rfl
  | cons c cs ih =>
      have hdigit := isDigit_bounds (h c List.mem_cons_self)
      have hbyte : c.toNat.toUInt8.toNat = c.toNat := by
        rw [Nat.toUInt8, UInt8.toNat_ofNat']
        exact Nat.mod_eq_of_lt (by omega)
      rw [List.map_cons, List.foldl_cons, hbyte, ih fun c hc => h c (List.mem_cons_of_mem _ hc),
        Nat.ofDigitChars_cons]
      rfl

end Text

namespace Json

/-- A text that does not start with a byte of some kind. -/
def Avoids (p : UInt8 → Prop) (t : Text) : Prop := ∀ b r, t = b :: r → ¬ p b

/-- A text that may follow a value in a document. -/
def Follows (rest : Text) : Prop := ∀ b r, rest = b :: r → b = 44 ∨ b = 93 ∨ b = 125

theorem avoids_cons {p : UInt8 → Prop} {b : UInt8} (h : ¬ p b) (r : Text) : Avoids p (b :: r) := by
  intro c s hcons
  rw [← (List.cons.inj hcons).1]
  exact h

theorem Follows.avoids {p : UInt8 → Prop} {rest : Text} (h : Follows rest)
    (hp : ∀ b, b = 44 ∨ b = 93 ∨ b = 125 → ¬ p b) : Avoids p rest :=
  fun b r hrest => hp b (h b r hrest)

theorem follows_nil : Follows [] := fun b r h => absurd h.symm (List.cons_ne_nil b r)

theorem follows_cons {b : UInt8} (h : b = 44 ∨ b = 93 ∨ b = 125) (rest : Text) :
    Follows (b :: rest) := by
  intro c r hcons
  rw [← (List.cons.inj hcons).1]
  exact h

/-- A run of decimal digits. -/
def IsDigits (ds : Text) : Prop := ds ≠ [] ∧ ∀ b ∈ ds, isDigit b = true

/-- The digits before the point. -/
def IsWhole (t : Text) : Prop := t = [48] ∨ IsDigits t ∧ Avoids (· = 48) t

/-- The point with the digits after it. -/
def IsFraction (t : Text) : Prop := t = [] ∨ ∃ ds, t = 46 :: ds ∧ IsDigits ds

/-- A letter that starts a power of ten. -/
def IsPower (b : UInt8) : Prop := b = 101 ∨ b = 69

/-- The power of ten, with or without a sign. -/
def IsExponent (t : Text) : Prop :=
  t = [] ∨ ∃ e sign ds, IsPower e ∧ (sign = [] ∨ sign = [43] ∨ sign = [45]) ∧ IsDigits ds ∧
    t = e :: (sign ++ ds)

/-- A number as it is written. -/
def IsNumeral (n : Text) : Prop :=
  ∃ sign whole fraction exponent, n = sign ++ (whole ++ (fraction ++ exponent)) ∧
    (sign = [] ∨ sign = [45]) ∧ IsWhole whole ∧ IsFraction fraction ∧ IsExponent exponent

theorem isDigits_of_digitRun {t ds rest : Text} (h : digitRun t = some (ds, rest)) :
    IsDigits ds ∧ t = ds ++ rest := by
  rw [digitRun] at h
  by_cases hempty : (t.takeWhile isDigit).isEmpty = true
  · rw [if_pos hempty] at h
    cases h
  · rw [if_neg hempty] at h
    cases h
    refine ⟨⟨fun hnil => hempty (List.isEmpty_iff.mpr hnil), fun b => List.mem_takeWhile_imp⟩, ?_⟩
    exact List.prefix_iff_eq_append.mp (List.takeWhile_prefix isDigit) |>.symm

theorem IsDigits.digitRun_eq {ds rest : Text} (h : IsDigits ds)
    (hrest : Avoids (isDigit · = true) rest) : digitRun (ds ++ rest) = some (ds, rest) := by
  have hstop : rest.takeWhile isDigit = [] := by
    cases rest with
    | nil => rfl
    | cons b r => exact List.takeWhile_cons_of_neg (hrest b r rfl)
  have htake : (ds ++ rest).takeWhile isDigit = ds := by
    rw [List.takeWhile_append_of_pos h.2, hstop, List.append_nil]
  rw [digitRun, htake, if_neg (fun hempty => h.1 (List.isEmpty_iff.mp hempty)), List.drop_left]

theorem wholePart_of_avoids {t : Text} (h : Avoids (· = 48) t) : wholePart t = digitRun t := by
  rw [wholePart.eq_def]
  split
  · exact absurd rfl (h 48 _ rfl)
  · rfl

theorem isWhole_of_wholePart {t whole rest : Text} (h : wholePart t = some (whole, rest)) :
    IsWhole whole := by
  rw [wholePart.eq_def] at h
  split at h
  · cases h
    exact Or.inl rfl
  · rename_i hzero
    refine Or.inr ⟨(isDigits_of_digitRun h).1, ?_⟩
    rintro b ds rfl rfl
    exact hzero _ (isDigits_of_digitRun h).2

theorem IsWhole.wholePart_eq {whole rest : Text} (h : IsWhole whole)
    (hrest : Avoids (isDigit · = true) rest) : wholePart (whole ++ rest) = some (whole, rest) := by
  rcases h with rfl | ⟨hdigits, hzero⟩
  · rfl
  · rcases whole with _ | ⟨b, ds⟩
    · exact absurd rfl hdigits.1
    · rw [List.cons_append, wholePart_of_avoids (avoids_cons (p := (· = 48)) (hzero b ds rfl) _),
        ← List.cons_append, hdigits.digitRun_eq hrest]

theorem IsWhole.head {whole : Text} (h : IsWhole whole) :
    ∃ b r, whole = b :: r ∧ isDigit b = true := by
  rcases h with rfl | ⟨hdigits, _⟩
  · exact ⟨48, [], rfl, rfl⟩
  · rcases whole with _ | ⟨b, ds⟩
    · exact absurd rfl hdigits.1
    · exact ⟨b, ds, rfl, hdigits.2 b List.mem_cons_self⟩

theorem isFraction_of_fractionPart {t fraction rest : Text}
    (h : fractionPart t = some (fraction, rest)) : IsFraction fraction := by
  rw [fractionPart.eq_def] at h
  split at h
  · rcases Option.map_eq_some_iff.mp h with ⟨⟨ds, rest'⟩, hrun, heq⟩
    cases heq
    exact Or.inr ⟨ds, rfl, (isDigits_of_digitRun hrun).1⟩
  · cases h
    exact Or.inl rfl

theorem IsFraction.fractionPart_eq {fraction rest : Text} (h : IsFraction fraction)
    (hdigit : Avoids (isDigit · = true) rest) (hpoint : Avoids (· = 46) rest) :
    fractionPart (fraction ++ rest) = some (fraction, rest) := by
  rcases h with rfl | ⟨ds, rfl, hdigits⟩
  · rw [List.nil_append, fractionPart.eq_def]
    split
    · exact absurd rfl (hpoint 46 _ rfl)
    · rfl
  · rw [List.cons_append, fractionPart, hdigits.digitRun_eq hdigit]
    rfl

theorem isExponent_of_exponentPart {t exponent rest : Text}
    (h : exponentPart t = some (exponent, rest)) : IsExponent exponent := by
  rw [exponentPart.eq_def] at h
  split at h
  · rename_i e r
    by_cases he : e = 101 ∨ e = 69
    · rw [if_pos he] at h
      split at h
      · rename_i s r'
        by_cases hs : s = 43 ∨ s = 45
        · rw [if_pos hs] at h
          rcases Option.map_eq_some_iff.mp h with ⟨⟨ds, rest'⟩, hrun, heq⟩
          cases heq
          refine Or.inr ⟨e, [s], ds, he, Or.inr ?_, (isDigits_of_digitRun hrun).1, rfl⟩
          rcases hs with rfl | rfl
          · exact Or.inl rfl
          · exact Or.inr rfl
        · rw [if_neg hs] at h
          rcases Option.map_eq_some_iff.mp h with ⟨⟨ds, rest'⟩, hrun, heq⟩
          cases heq
          exact Or.inr ⟨e, [], ds, he, Or.inl rfl, (isDigits_of_digitRun hrun).1, rfl⟩
      · cases h
    · rw [if_neg he] at h
      cases h
      exact Or.inl rfl
  · cases h
    exact Or.inl rfl

theorem IsExponent.exponentPart_eq {exponent rest : Text} (h : IsExponent exponent)
    (hdigit : Avoids (isDigit · = true) rest) (hpower : Avoids IsPower rest) :
    exponentPart (exponent ++ rest) = some (exponent, rest) := by
  rcases h with rfl | ⟨e, sign, ds, he, hsign, hdigits, rfl⟩
  · rcases rest with _ | ⟨b, rest⟩
    · rfl
    · exact if_neg (hpower b rest rfl)
  · rw [List.cons_append, exponentPart.eq_def]
    simp only [if_pos (show e = 101 ∨ e = 69 from he), List.append_assoc]
    rcases hsign with rfl | hsign
    · rcases ds with _ | ⟨d, ds⟩
      · exact absurd rfl hdigits.1
      · have hd : ¬ (d = 43 ∨ d = 45) := by
          have hd := hdigits.2 d List.mem_cons_self
          rintro (rfl | rfl) <;> cases hd
        have hrun := hdigits.digitRun_eq hdigit
        rw [List.cons_append] at hrun
        simp only [List.nil_append, List.cons_append, if_neg hd, hrun, Option.map_some]
    · have hsigned : ∃ s, sign = [s] ∧ (s = 43 ∨ s = 45) := by
        rcases hsign with rfl | rfl
        · exact ⟨43, rfl, Or.inl rfl⟩
        · exact ⟨45, rfl, Or.inr rfl⟩
      rcases hsigned with ⟨s, rfl, hs⟩
      simp only [List.cons_append, List.nil_append, if_pos hs, hdigits.digitRun_eq hdigit,
        Option.map_some]

theorem IsFraction.avoids {p : UInt8 → Prop} {fraction rest : Text} (h : IsFraction fraction)
    (hp : ¬ p 46) (hrest : Avoids p rest) : Avoids p (fraction ++ rest) := by
  rcases h with rfl | ⟨ds, rfl, _⟩
  · exact hrest
  · exact avoids_cons hp _

theorem IsExponent.avoids {p : UInt8 → Prop} {exponent rest : Text} (h : IsExponent exponent)
    (hp : ∀ b, IsPower b → ¬ p b) (hrest : Avoids p rest) : Avoids p (exponent ++ rest) := by
  rcases h with rfl | ⟨e, sign, ds, he, _, _, rfl⟩
  · exact hrest
  · exact avoids_cons (hp e he) _

/-- The parts of a number that follow its sign. -/
def afterSign (sign t : Text) : Option (Text × Text) := do
  let (whole, t) ← wholePart t
  let (fraction, t) ← fractionPart t
  let (exponent, t) ← exponentPart t
  pure (sign ++ whole ++ fraction ++ exponent, t)

theorem numeral_eq_afterSign (t : Text) :
    (∃ r, t = 45 :: r ∧ numeral t = afterSign [45] r) ∨
      Avoids (· = 45) t ∧ numeral t = afterSign [] t := by
  by_cases hminus : ∃ r, t = 45 :: r
  · rcases hminus with ⟨r, rfl⟩
    exact Or.inl ⟨r, rfl, rfl⟩
  · refine Or.inr ⟨?_, numeral.eq_2 t fun r ht => hminus ⟨r, ht⟩⟩
    rintro b r rfl rfl
    exact hminus ⟨r, rfl⟩

theorem isNumeral_of_afterSign {sign t n rest : Text} (hsign : sign = [] ∨ sign = [45])
    (h : afterSign sign t = some (n, rest)) : IsNumeral n := by
  rcases Option.bind_eq_some_iff.mp h with ⟨⟨whole, t⟩, hwhole, h⟩
  rcases Option.bind_eq_some_iff.mp h with ⟨⟨fraction, t⟩, hfraction, h⟩
  rcases Option.bind_eq_some_iff.mp h with ⟨⟨exponent, t⟩, hexponent, h⟩
  cases h
  exact ⟨sign, whole, fraction, exponent, by simp only [List.append_assoc], hsign,
    isWhole_of_wholePart hwhole, isFraction_of_fractionPart hfraction,
    isExponent_of_exponentPart hexponent⟩

/-- What is read as a number is one. -/
theorem isNumeral_of_numeral {t n rest : Text} (h : numeral t = some (n, rest)) : IsNumeral n := by
  rcases numeral_eq_afterSign t with ⟨r, _, heq⟩ | ⟨_, heq⟩
  · exact isNumeral_of_afterSign (Or.inr rfl) (heq ▸ h)
  · exact isNumeral_of_afterSign (Or.inl rfl) (heq ▸ h)

theorem afterSign_eq {sign whole fraction exponent rest : Text} (hwhole : IsWhole whole)
    (hfraction : IsFraction fraction) (hexponent : IsExponent exponent) (hrest : Follows rest) :
    afterSign sign (whole ++ (fraction ++ (exponent ++ rest))) =
      some (sign ++ whole ++ fraction ++ exponent, rest) := by
  have hdigit : Avoids (isDigit · = true) rest :=
    hrest.avoids (by rintro b (rfl | rfl | rfl) <;> decide)
  have hpoint : Avoids (· = 46) rest := hrest.avoids (by rintro b (rfl | rfl | rfl) <;> decide)
  have hpower : Avoids IsPower rest :=
    hrest.avoids (by rintro b (rfl | rfl | rfl) (h | h) <;> cases h)
  -- A part that is left out lets the reader see what comes after it.
  have hdigit' : Avoids (isDigit · = true) (exponent ++ rest) :=
    hexponent.avoids (by rintro b (rfl | rfl) <;> decide) hdigit
  have hpoint' : Avoids (· = 46) (exponent ++ rest) :=
    hexponent.avoids (by rintro b (rfl | rfl) <;> decide) hpoint
  simp only [afterSign, hwhole.wholePart_eq (hfraction.avoids (by decide) hdigit'),
    hfraction.fractionPart_eq hdigit' hpoint', hexponent.exponentPart_eq hdigit hpower,
    Option.bind_eq_bind, Option.bind_some, Option.pure_def]

/-- A number is read to its end. -/
theorem IsNumeral.numeral_eq {n rest : Text} (h : IsNumeral n) (hrest : Follows rest) :
    numeral (n ++ rest) = some (n, rest) := by
  rcases h with ⟨sign, whole, fraction, exponent, rfl, hsign, hwhole, hfraction, hexponent⟩
  have hparts : ∀ sign, afterSign sign (whole ++ (fraction ++ (exponent ++ rest))) =
      some (sign ++ (whole ++ (fraction ++ exponent)), rest) := by
    intro sign
    rw [afterSign_eq hwhole hfraction hexponent hrest]
    simp only [List.append_assoc]
  simp only [List.append_assoc]
  rcases hsign with rfl | rfl
  · rcases numeral_eq_afterSign (whole ++ (fraction ++ (exponent ++ rest))) with
      ⟨r, hminus, _⟩ | ⟨_, heq⟩
    · -- A digit is no sign.
      rcases hwhole.head with ⟨b, ds, rfl, hb⟩
      rw [(List.cons.inj hminus).1] at hb
      cases hb
    · exact heq.trans (hparts [])
  · exact hparts [45]

/-- A number starts with a sign or a digit. -/
theorem IsNumeral.head {n : Text} (h : IsNumeral n) :
    ∃ b r, n = b :: r ∧ (b = 45 ∨ isDigit b = true) := by
  rcases h with ⟨sign, whole, fraction, exponent, rfl, hsign, hwhole, _, _⟩
  rcases hsign with rfl | rfl
  · rcases hwhole.head with ⟨b, ds, rfl, hb⟩
    exact ⟨b, _, rfl, Or.inr hb⟩
  · exact ⟨45, _, rfl, Or.inl rfl⟩

theorem natural_of_ten_le {n : Nat} (h : 10 ≤ n) :
    Text.natural n = Text.natural (n / 10) ++ [(n % 10).digitChar.toNat.toUInt8] := by
  rw [Text.natural, Nat.toDigits_of_base_le (by decide) h, List.map_append]
  rfl

/-- The digits of a number do not start with a zero, unless the number is zero. -/
theorem avoids_zero_natural {n : Nat} (hn : n ≠ 0) : Avoids (· = 48) (Text.natural n) := by
  induction n using Nat.strong_induction_on with
  | _ n ih =>
    by_cases hsmall : n < 10
    · have hall : ∀ n < 10, n ≠ 0 → n.digitChar.toNat.toUInt8 ≠ 48 := by decide
      rw [Text.natural, Nat.toDigits_of_lt_base hsmall]
      exact avoids_cons (p := (· = 48)) (hall n hsmall hn) []
    · have hhead := ih (n / 10) (by omega) (by omega)
      rw [natural_of_ten_le (Nat.not_lt.mp hsmall)]
      cases hdigits : Text.natural (n / 10) with
      | nil => exact absurd hdigits (Text.natural_ne_nil _)
      | cons b ds => exact avoids_cons (p := (· = 48)) (hhead b ds hdigits) _

theorem isWhole_natural (n : Nat) : IsWhole (Text.natural n) := by
  by_cases hn : n = 0
  · exact Or.inl (by rw [hn]; rfl)
  · refine Or.inr ⟨⟨Text.natural_ne_nil n, fun b hb => ?_⟩, avoids_zero_natural hn⟩
    simpa [isDigit] using Text.digit_of_mem_natural hb

/-- An integer is written as a number. -/
theorem isNumeral_decimal (n : Int) : IsNumeral (Text.decimal n) := by
  cases n with
  | ofNat n =>
      exact ⟨[], Text.natural n, [], [], by simp [Text.decimal], Or.inl rfl, isWhole_natural n,
        Or.inl rfl, Or.inl rfl⟩
  | negSucc n =>
      exact ⟨[45], Text.natural (n + 1), [], [], by simp [Text.decimal], Or.inr rfl,
        isWhole_natural (n + 1), Or.inl rfl, Or.inl rfl⟩

/-- A number reads back from its digits. -/
theorem digits?_natural (n : Nat) : digits? (Text.natural n) = some n := by
  have hall : (Text.natural n).all (fun b => 48 ≤ b && b ≤ 57) = true := by
    rw [List.all_eq_true]
    intro b hb
    simpa using Text.digit_of_mem_natural hb
  have hdigits : ∀ c ∈ Nat.toDigits 10 n, c.isDigit = true :=
    fun c hc => Nat.isDigit_of_mem_toDigits (by decide) (by decide) hc
  rw [digits?, if_neg]
  · rw [Text.natural, Text.foldl_digits hdigits, Nat.ofDigitChars_toDigits (by decide) (by decide)]
  · rw [hall]
    simp [Text.natural_ne_nil n]

theorem signed?_natural (n : Nat) : signed? (Text.natural n) = some (n : Int) := by
  rw [signed?.eq_3, digits?_natural]
  · rfl
  · rintro ds hds
    have hsign : 45 ∈ Text.natural n := hds ▸ List.mem_cons_self
    exact absurd (Text.digit_of_mem_natural hsign).1 (by decide)
  · rintro ds hds
    have hsign : 43 ∈ Text.natural n := hds ▸ List.mem_cons_self
    exact absurd (Text.digit_of_mem_natural hsign).1 (by decide)

end Json

end PocketScript
