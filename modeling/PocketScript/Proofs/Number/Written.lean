import PocketScript.Number.Written
import PocketScript.Proofs.Json.Numerals
import PocketScript.Proofs.Number.Shortest

/-!
# Written numbers are told apart

Two finite doubles with the same text are the same double.

A text with a point names a number, and the text of a decimal names the number that
the decimal names (`Number.spelled_positional`). Decimals that name the same number
were found for the same double. What is left are the 64 bits, and sign, significand
and exponent say all of them if the double is finite.

## Main definitions

* `Number.IsFinite`: Neither infinite nor undefined.
* `Number.spelled`: The number that digits around a point name.

## Theorems

* `Binary.ofBits_injective`: The parts of a finite double are all of it.
* `Number.spelled_positional`: The text of a decimal names its number.
* `Number.byte_of_mem_text`, `Number.head_text`: What texts of numbers are made of.
* `Number.text_injective`: Finite doubles have texts of their own.
-/

namespace PocketScript

namespace Binary

section

variable {bits bits' m : Nat} {negative : Bool} {q : Int}

/-- A finite double is read off its bits in one of two ways. -/
theorem ofBits_cases (h : ofBits bits = .finite negative m q) :
    negative = (bits / 2 ^ 63 % 2 == 1) ∧
      (bits / 2 ^ 52 % 2 ^ 11 = 0 ∧ m = bits % 2 ^ 52 ∧ q = leastExponent ∨
        0 < bits / 2 ^ 52 % 2 ^ 11 ∧ m = hidden + bits % 2 ^ 52 ∧
          q = (bits / 2 ^ 52 % 2 ^ 11 : Nat) - 1075) := by
  simp only [ofBits] at h
  split at h
  · split at h
    · cases h
    · cases h
  · split at h
    · rename_i hfield
      cases h
      exact ⟨rfl, Or.inl ⟨hfield, rfl, rfl⟩⟩
    · rename_i hfield
      cases h
      exact ⟨rfl, Or.inr ⟨Nat.pos_of_ne_zero hfield, rfl, rfl⟩⟩

theorem canonical_of_ofBits (h : ofBits bits = .finite negative m q) : Canonical m q := by
  have hhidden : hidden = 2 ^ 52 := rfl
  have hleast : leastExponent = -1074 := rfl
  rcases (ofBits_cases h).2 with ⟨_, rfl, rfl⟩ | ⟨hfield, rfl, rfl⟩
  · exact ⟨by omega, le_refl _, fun hlt => absurd hlt (lt_irrefl _)⟩
  · exact ⟨by omega, by omega, fun _ => Nat.le_add_right _ _⟩

/-- The parts of a finite double are all of it. -/
theorem ofBits_injective (h : ofBits bits = .finite negative m q)
    (h' : ofBits bits' = .finite negative m q) (hbits : bits < 2 ^ 64) (hbits' : bits' < 2 ^ 64) :
    bits = bits' := by
  have hhidden : hidden = 2 ^ 52 := rfl
  have hleast : leastExponent = -1074 := rfl
  rcases ofBits_cases h with ⟨hsign, hparts⟩
  rcases ofBits_cases h' with ⟨hsign', hparts'⟩
  have hsigns : bits / 2 ^ 63 % 2 = 1 ↔ bits' / 2 ^ 63 % 2 = 1 := by
    rw [← beq_iff_eq, ← hsign, hsign', beq_iff_eq]
  rcases hparts with ⟨hfield, hm, hq⟩ | ⟨hfield, hm, hq⟩
  · rcases hparts' with ⟨hfield', hm', hq'⟩ | ⟨hfield', hm', hq'⟩
    · omega
    · omega
  · rcases hparts' with ⟨hfield', hm', hq'⟩ | ⟨hfield', hm', hq'⟩
    · omega
    · omega

end

/-- A double is its bits. -/
theorem toBits_injective {x y : Float} (h : x.toBits.toNat = y.toBits.toNat) : x = y := by
  rcases x with ⟨⟨x, _⟩⟩
  rcases y with ⟨⟨y, _⟩⟩
  have hxy : x = y := UInt64.toNat_inj.mp h
  subst hxy
  rfl

theorem ofFloat_injective {x y : Float} {negative : Bool} {m : Nat} {q : Int}
    (hx : ofFloat x = .finite negative m q) (hy : ofFloat y = .finite negative m q) : x = y :=
  toBits_injective (ofBits_injective hx hy x.toBits.toNat_lt y.toBits.toNat_lt)

end Binary

namespace Number

/-- Neither infinite nor undefined. -/
def IsFinite (x : Float) : Prop := ∃ negative m q, Binary.ofFloat x = .finite negative m q

theorem isFinite_iff (x : Float) :
    IsFinite x ↔ Binary.ofFloat x ≠ .nan ∧ ∀ negative, Binary.ofFloat x ≠ .infinite negative := by
  rw [IsFinite]
  cases Binary.ofFloat x <;> simp

instance : DecidablePred IsFinite := fun x => decidable_of_iff _ (isFinite_iff x).symm

theorem natOfDigits_append (a b : Text) :
    natOfDigits (a ++ b) = natOfDigits a * 10 ^ b.length + natOfDigits b := by
  have hstart : ∀ (b : Text) (n : Nat), b.foldl (fun n b => 10 * n + (b.toNat - 48)) n =
      n * 10 ^ b.length + natOfDigits b := by
    intro b
    induction b with
    | nil => exact fun n => (Nat.mul_one n).symm
    | cons c b ih =>
        intro n
        rw [natOfDigits, List.foldl_cons, List.foldl_cons, ih, ih (10 * 0 + _), List.length_cons]
        ring
  rw [natOfDigits, List.foldl_append, hstart]
  rfl

theorem natOfDigits_natural (n : Nat) : natOfDigits (Text.natural n) = n := by
  rw [natOfDigits, Text.natural, Text.foldl_digits fun c hc =>
    Nat.isDigit_of_mem_toDigits (by decide) (by decide) hc]
  exact Nat.ofDigitChars_toDigits (by decide) (by decide)

theorem natOfDigits_zeros (k : Nat) : natOfDigits (List.replicate k Decimal.zeroByte) = 0 := by
  induction k with
  | zero => rfl
  | succ k ih =>
      rw [List.replicate_succ, ← List.singleton_append, natOfDigits_append, ih]
      exact Nat.zero_mul _

/-- The number of digits behind the point. -/
def places (t : Text) : Nat := (t.dropWhile (· != Decimal.point)).length - 1

/-- The number that digits around a point name. -/
def spelled (t : Text) : ℚ :=
  natOfDigits (t.filter (· != Decimal.point)) / 10 ^ places t

/-- A text without a point. -/
def Pointfree (t : Text) : Prop := ∀ b ∈ t, (b != Decimal.point) = true

theorem spelled_whole {t : Text} (h : Pointfree t) : spelled t = natOfDigits t := by
  have hnone : t.dropWhile (· != Decimal.point) = [] := List.dropWhile_eq_nil_iff.mpr h
  rw [spelled, places, hnone, List.filter_eq_self.mpr h]
  simp

theorem spelled_point {a b : Text} (ha : Pointfree a) (hb : Pointfree b) :
    spelled (a ++ Decimal.point :: b) = natOfDigits (a ++ b) / 10 ^ b.length := by
  have hdrop : (a ++ Decimal.point :: b).dropWhile (· != Decimal.point) = Decimal.point :: b := by
    rw [List.dropWhile_append_of_pos ha]
    rfl
  have hfilter : (a ++ Decimal.point :: b).filter (· != Decimal.point) = a ++ b := by
    rw [List.filter_append, List.filter_eq_self.mpr ha, List.filter_cons_of_neg (by decide),
      List.filter_eq_self.mpr hb]
  rw [spelled, places, hdrop, hfilter, List.length_cons, Nat.add_sub_cancel]

theorem pointfree_of_digits {t : Text} (h : ∀ b ∈ t, 48 ≤ b ∧ b ≤ 57) : Pointfree t := by
  intro b hb
  rw [bne_iff_ne]
  rintro rfl
  exact absurd (h _ hb).1 (by decide)

theorem digit_of_mem_zeros {k : Nat} {b : UInt8}
    (h : b ∈ List.replicate k Decimal.zeroByte) : 48 ≤ b ∧ b ≤ 57 := by
  rw [List.eq_of_mem_replicate h]
  decide

/-- With as many digits behind the point as the power of ten asks for, digits name the
    number of the decimal. -/
theorem div_pow_eq_value {d : Decimal} {k : Nat} (hk : (k : Int) = -d.exponent) :
    (d.digits : ℚ) / 10 ^ k = d.value := by
  rw [← zpow_natCast, hk, zpow_neg, div_inv_eq_mul, Decimal.value]

/-- The ways a decimal is laid out: digits alone, or digits on both sides of a point. -/
theorem positional_cases (d : Decimal) :
    (∃ t, d.positional = t ∧ t ≠ [] ∧ (∀ b ∈ t, 48 ≤ b ∧ b ≤ 57) ∧ natOfDigits t = d.value) ∨
    (∃ a b, d.positional = a ++ Decimal.point :: b ∧ a ≠ [] ∧
      (∀ c ∈ a ++ b, 48 ≤ c ∧ c ≤ 57) ∧ natOfDigits (a ++ b) / (10 : ℚ) ^ b.length = d.value) := by
  have hten : (10 : ℚ) ≠ 0 := by norm_num
  have hdigits : ∀ b ∈ Text.natural d.digits, 48 ≤ b ∧ b ≤ 57 := fun b => Text.digit_of_mem_natural
  simp only [Decimal.positional]
  generalize hds : Text.natural d.digits = ds at hdigits
  have hnat : natOfDigits ds = d.digits := hds ▸ natOfDigits_natural d.digits
  have hne : ds ≠ [] := hds ▸ Text.natural_ne_nil d.digits
  split
  · rename_i hzero
    refine Or.inl ⟨_, rfl, List.cons_ne_nil _ _, by decide +kernel, ?_⟩
    rw [Decimal.value, hzero]
    simp [natOfDigits, Decimal.zeroByte]
  · split
    · rename_i hwhole
      refine Or.inr ⟨[Decimal.zeroByte], List.replicate (-(ds.length + d.exponent)).toNat
        Decimal.zeroByte ++ ds, rfl, List.cons_ne_nil _ _, ?_, ?_⟩
      · intro c hc
        rcases List.mem_append.mp hc with hc | hc
        · rw [List.mem_singleton.mp hc]
          decide
        · exact (List.mem_append.mp hc).elim digit_of_mem_zeros (hdigits c)
      · have hzero : natOfDigits [Decimal.zeroByte] = 0 := rfl
        rw [natOfDigits_append, natOfDigits_append, natOfDigits_zeros, hnat, hzero, Nat.zero_mul,
          Nat.zero_mul, Nat.zero_add, Nat.zero_add]
        refine div_pow_eq_value ?_
        rw [List.length_append, List.length_replicate]
        omega
    · split
      · rename_i hexp
        refine Or.inl ⟨_, rfl, List.append_ne_nil_of_left_ne_nil hne _, ?_, ?_⟩
        · exact fun b hb => (List.mem_append.mp hb).elim (hdigits b) digit_of_mem_zeros
        · rw [natOfDigits_append, natOfDigits_zeros, hnat, List.length_replicate, Decimal.value]
          push_cast
          rw [← zpow_natCast, Int.toNat_of_nonneg hexp, add_zero]
      · rename_i hwhole hexp
        have hsplit : ds.take (ds.length + d.exponent).toNat ++
            ds.drop (ds.length + d.exponent).toNat = ds := List.take_append_drop _ ds
        refine Or.inr ⟨_, _, rfl, ?_, ?_, ?_⟩
        · intro hnil
          have := congrArg List.length hnil
          have hpos := List.length_pos_iff.mpr hne
          simp only [List.length_take, List.length_nil] at this
          omega
        · rw [hsplit]
          exact hdigits
        · rw [hsplit, hnat]
          refine div_pow_eq_value ?_
          rw [List.length_drop]
          omega

/-- The text of a decimal names the number that the decimal names. -/
theorem spelled_positional (d : Decimal) : spelled d.positional = d.value := by
  rcases positional_cases d with ⟨t, heq, _, hdigits, hvalue⟩ | ⟨a, b, heq, _, hdigits, hvalue⟩
  · rw [heq, spelled_whole (pointfree_of_digits hdigits), hvalue]
  · have ha := pointfree_of_digits fun c hc => hdigits c (List.mem_append_left b hc)
    have hb := pointfree_of_digits fun c hc => hdigits c (List.mem_append_right a hc)
    rw [heq, spelled_point ha hb, hvalue]

theorem byte_of_mem_positional {d : Decimal} {b : UInt8} (h : b ∈ d.positional) :
    b = 46 ∨ 48 ≤ b ∧ b ≤ 57 := by
  rcases positional_cases d with ⟨t, heq, _, hdigits, _⟩ | ⟨a, c, heq, _, hdigits, _⟩
  · exact Or.inr (hdigits b (heq ▸ h))
  · rw [heq] at h
    rcases List.mem_append.mp h with h | h
    · exact Or.inr (hdigits b (List.mem_append_left c h))
    · rcases List.mem_cons.mp h with rfl | h
      · exact Or.inl rfl
      · exact Or.inr (hdigits b (List.mem_append_right a h))

/-- Decimals start with a digit. -/
theorem head_positional (d : Decimal) : ∃ b r, d.positional = b :: r ∧ 48 ≤ b ∧ b ≤ 57 := by
  rcases positional_cases d with ⟨t, heq, hne, hdigits, _⟩ | ⟨a, c, heq, hne, hdigits, _⟩
  · rcases List.exists_cons_of_ne_nil hne with ⟨b, r, rfl⟩
    exact ⟨b, r, heq, hdigits b List.mem_cons_self⟩
  · rcases List.exists_cons_of_ne_nil hne with ⟨b, r, rfl⟩
    exact ⟨b, _, heq, hdigits b List.mem_cons_self⟩

theorem text_eq {x : Float} {negative : Bool} {m : Nat} {q : Int}
    (h : Binary.ofFloat x = .finite negative m q) :
    text x = (if negative then [45] else []) ++ (Decimal.shortest m q).positional := by
  rw [text, h]

/-- The text of a finite number has digits, perhaps a point, and perhaps a sign. -/
theorem byte_of_mem_text {x : Float} (hx : IsFinite x) {b : UInt8} (h : b ∈ text x) :
    b = 45 ∨ b = 46 ∨ 48 ≤ b ∧ b ≤ 57 := by
  rcases hx with ⟨negative, m, q, hparts⟩
  rw [text_eq hparts] at h
  rcases List.mem_append.mp h with h | h
  · split at h
    · exact Or.inl (List.mem_singleton.mp h)
    · cases h
  · exact Or.inr (byte_of_mem_positional h)

/-- It starts with a digit, or with the sign and a digit. -/
theorem head_text {x : Float} (hx : IsFinite x) :
    ∃ sign b r, text x = sign ++ b :: r ∧ (sign = [] ∨ sign = [45]) ∧ 48 ≤ b ∧ b ≤ 57 := by
  rcases hx with ⟨negative, m, q, hparts⟩
  rcases head_positional (Decimal.shortest m q) with ⟨b, r, heq, hb⟩
  refine ⟨_, b, r, by rw [text_eq hparts, heq], ?_, hb⟩
  cases negative with
  | false => exact Or.inl rfl
  | true => exact Or.inr rfl

/-- Finite doubles with the same text are the same. -/
theorem text_injective {x y : Float} (hx : IsFinite x) (hy : IsFinite y)
    (h : text x = text y) : x = y := by
  rcases hx with ⟨negative, m, q, hx⟩
  rcases hy with ⟨negative', m', q', hy⟩
  rw [text_eq hx, text_eq hy] at h
  have hparts : negative = negative' ∧
      (Decimal.shortest m q).positional = (Decimal.shortest m' q').positional := by
    rcases head_positional (Decimal.shortest m q) with ⟨b, r, heq, hb, _⟩
    rcases head_positional (Decimal.shortest m' q') with ⟨b', r', heq', hb', _⟩
    rw [heq, heq'] at h ⊢
    -- Digits are no signs.
    cases negative with
    | false =>
        cases negative' with
        | false => exact ⟨rfl, h⟩
        | true =>
            rw [(List.cons.inj h).1] at hb
            exact absurd hb (by decide)
    | true =>
        cases negative' with
        | false =>
            rw [← (List.cons.inj h).1] at hb'
            exact absurd hb' (by decide)
        | true => exact ⟨rfl, (List.cons.inj h).2⟩
  rcases hparts with ⟨rfl, hdigits⟩
  have hvalue : (Decimal.shortest m q).value = (Decimal.shortest m' q').value := by
    rw [← spelled_positional, hdigits, spelled_positional]
  rcases Decimal.shortest_injective (Binary.canonical_of_ofBits hx) (Binary.canonical_of_ofBits hy)
    hvalue with ⟨rfl, rfl⟩
  exact Binary.ofFloat_injective hx hy

end Number

end PocketScript
