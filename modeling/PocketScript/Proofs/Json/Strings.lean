import PocketScript.Json.Read
import PocketScript.Json.Write
import PocketScript.Proofs.Text.Whole

/-!
# The insides of strings

A string is kept as it was written, so what a document may hold between two quotes
is a property of bytes: characters, escapes of one letter, and escapes of four
digits. `Json.Inside` says so, and the reader of strings accepts exactly this much in
front of a closing quote.

The reader counts the digits that an escape still needs, so the converse is proved for
a reader in the middle of an escape as well: what it accepts is the missing digits and
then the inside of a string.

Bytes above 127 are never part of an escape. That is what lets a text be taken apart
into characters where it was taken apart into escapes before, and it makes an escaped
text an inside, whatever bytes it holds.

## Main definitions

* `Json.Inside`: What may stand between the quotes of a string.

## Theorems

* `Json.Inside.stringInside_eq`: The inside of a string is read up to its quote.
* `Json.inside_of_stringInside`: What is read is the inside of a string.
* `Json.inside_escape`: A text that is escaped can stand inside a string.
-/

namespace PocketScript.Json

open Text

/-- What may stand between the quotes of a string: characters that are neither
    quotes, backslashes nor control characters, escapes of one letter, and escapes
    of four hexadecimal digits. -/
inductive Inside : Text → Prop where
  | nil : Inside []
  | plain {b : UInt8} {s : Text} (hquote : b ≠ 34) (hescape : b ≠ 92) (hvisible : ¬ b < 32)
      (h : Inside s) : Inside (b :: s)
  | letter {e : UInt8} {s : Text} (he : isEscapeLetter e = true) (h : Inside s) :
      Inside (92 :: e :: s)
  | code {a b c d : UInt8} {s : Text} (ha : (hexValue? a).isSome) (hb : (hexValue? b).isSome)
      (hc : (hexValue? c).isSome) (hd : (hexValue? d).isSome) (h : Inside s) :
      Inside (92 :: 117 :: a :: b :: c :: d :: s)

namespace Inside

variable {s t : Text}

theorem append (hs : Inside s) (ht : Inside t) : Inside (s ++ t) := by
  induction hs with
  | nil => exact ht
  | plain hquote hescape hvisible _ ih => exact .plain hquote hescape hvisible ih
  | letter he _ ih => exact .letter he ih
  | code ha hb hc hd _ ih => exact .code ha hb hc hd ih

theorem plain_high {b : UInt8} (hb : isHigh b = true) : b ≠ 34 ∧ b ≠ 92 ∧ ¬ b < 32 := by
  rw [isHigh, decide_eq_true_eq] at hb
  refine ⟨?_, ?_, ?_⟩
  · rintro rfl
    exact absurd hb (by decide)
  · rintro rfl
    exact absurd hb (by decide)
  · rw [UInt8.lt_iff_toNat_lt]
    exact Nat.not_lt.mpr (Nat.le_trans (by decide) hb)

theorem of_high (h : ∀ b ∈ s, isHigh b = true) : Inside s := by
  induction s with
  | nil => exact .nil
  | cons b s ih =>
      rcases List.forall_mem_cons.mp h with ⟨hb, hs⟩
      rcases plain_high hb with ⟨hquote, hescape, hvisible⟩
      exact .plain hquote hescape hvisible (ih hs)

theorem tail_high {b : UInt8} (hb : isHigh b = true) (h : Inside (b :: s)) : Inside s := by
  cases h with
  | plain _ _ _ h => exact h
  | letter _ _ => cases hb
  | code _ _ _ _ _ => cases hb

/-- Bytes of longer characters are never part of an escape. -/
theorem of_append_high (hs : ∀ b ∈ s, isHigh b = true) (h : Inside (s ++ t)) : Inside t := by
  induction s with
  | nil => exact h
  | cons b s ih =>
      rcases List.forall_mem_cons.mp hs with ⟨hb, hs⟩
      exact ih hs (h.tail_high hb)

/-- The inside of a string is read up to the closing quote. -/
theorem stringInside_eq (h : Inside s) (rest : Text) :
    stringInside 0 (s ++ 34 :: rest) = some (s, rest) := by
  induction h with
  | nil =>
      rw [List.nil_append, stringInside.eq_def]
      rfl
  | plain hquote hescape hvisible _ ih =>
      rw [List.cons_append, stringInside.eq_def]
      simp only [if_neg hquote, if_neg hvisible, if_neg hescape, ih, Option.map_some]
  | @letter e s he _ ih =>
      have hcode : e ≠ 117 := by rintro rfl; cases he
      rw [List.cons_append, List.cons_append, stringInside, if_neg (by decide), if_neg (by decide),
        if_pos rfl, if_neg hcode, if_pos he, ih]
      rfl
  | code ha hb hc hd _ ih =>
      simp only [List.cons_append]
      rw [stringInside, if_neg (by decide), if_neg (by decide), if_pos rfl, if_pos rfl]
      simp only [stringInside, ha, hb, hc, hd, ih, if_true, Option.map_some]

end Inside

/-- Reading a string finds what an escape still needs, and then the inside of a
    string. -/
theorem exists_inside_of_stringInside (n : Nat) (t : Text) : ∀ {s rest : Text},
    stringInside n t = some (s, rest) →
      ∃ digits inside, s = digits ++ inside ∧ digits.length = n ∧
        (∀ b ∈ digits, (hexValue? b).isSome = true) ∧ Inside inside := by
  have hnone : ∀ b ∈ ([] : Text), (hexValue? b).isSome = true := List.forall_mem_nil _
  fun_induction stringInside n t with
  | case1 => rintro _ _ ⟨⟩
  | case2 n b r hb ih =>
      intro s rest h
      rcases Option.map_eq_some_iff.mp h with ⟨⟨s', rest'⟩, hread, heq⟩
      rcases ih hread with ⟨digits, inside, rfl, hlength, hdigits, hinside⟩
      cases heq
      exact ⟨b :: digits, inside, rfl, congrArg (· + 1) hlength,
        List.forall_mem_cons.mpr ⟨hb, hdigits⟩, hinside⟩
  | case3 => rintro _ _ ⟨⟩
  | case4 r =>
      intro s rest h
      cases h
      exact ⟨[], [], rfl, rfl, hnone, .nil⟩
  | case5 => rintro _ _ ⟨⟩
  | case6 r hquote hvisible ih =>
      intro s rest h
      rcases Option.map_eq_some_iff.mp h with ⟨⟨s', rest'⟩, hread, heq⟩
      rcases ih hread with ⟨digits, inside, rfl, hlength, hdigits, hinside⟩
      cases heq
      -- The four digits that this escape needs come first.
      rcases digits with _ | ⟨a, _ | ⟨b, _ | ⟨c, _ | ⟨d, _ | ⟨e, digits⟩⟩⟩⟩⟩ <;> cases hlength
      simp only [List.forall_mem_cons] at hdigits
      exact ⟨[], _, rfl, rfl, hnone,
        .code hdigits.1 hdigits.2.1 hdigits.2.2.1 hdigits.2.2.2.1 hinside⟩
  | case7 e r hcode he hquote hvisible ih =>
      intro s rest h
      rcases Option.map_eq_some_iff.mp h with ⟨⟨s', rest'⟩, hread, heq⟩
      rcases ih hread with ⟨digits, inside, rfl, hlength, _, hinside⟩
      rw [List.eq_nil_of_length_eq_zero hlength, List.nil_append] at heq
      cases heq
      exact ⟨[], _, rfl, rfl, hnone, .letter he hinside⟩
  | case8 => rintro _ _ ⟨⟩
  | case9 => rintro _ _ ⟨⟩
  | case10 b r hquote hvisible hescape ih =>
      intro s rest h
      rcases Option.map_eq_some_iff.mp h with ⟨⟨s', rest'⟩, hread, heq⟩
      rcases ih hread with ⟨digits, inside, rfl, hlength, _, hinside⟩
      rw [List.eq_nil_of_length_eq_zero hlength, List.nil_append] at heq
      cases heq
      exact ⟨[], _, rfl, rfl, hnone, .plain hquote hescape hvisible hinside⟩

theorem inside_of_stringInside {t s rest : Text} (h : stringInside 0 t = some (s, rest)) :
    Inside s := by
  rcases exists_inside_of_stringInside 0 t h with ⟨digits, inside, rfl, hlength, _, hinside⟩
  rw [List.eq_nil_of_length_eq_zero hlength]
  exact hinside

theorem hexValue?_hexDigit {n : Nat} (h : n < 16) : hexValue? (hexDigit n) = some n := by
  have hall : ∀ n < 16, hexValue? (hexDigit n) = some n := by decide
  exact hall n h

theorem Inside.escapeCode {s : Text} (h : Inside s) (r : Rune) :
    Inside (Json.escapeCode r ++ s) := by
  have hdigit : ∀ n, (hexValue? (hexDigit (n % 16))).isSome = true := by
    intro n
    rw [hexValue?_hexDigit (Nat.mod_lt n (by decide))]
    rfl
  exact .code (hdigit _) (hdigit _) (hdigit _) (hdigit _) h

theorem inside_flatMap {α : Type} {f : α → Text} {l : List α} (h : ∀ x ∈ l, Inside (f x)) :
    Inside (l.flatMap f) := by
  induction l with
  | nil => exact .nil
  | cons x l ih =>
      rcases List.forall_mem_cons.mp h with ⟨hx, hl⟩
      rw [List.flatMap_cons]
      exact hx.append (ih hl)

theorem inside_escapeCode (r : Rune) : Inside (escapeCode r) := by
  rw [← List.append_nil (escapeCode r)]
  exact .escapeCode .nil r

theorem inside_escapeGlyph_low {b : UInt8} (hb : isHigh b = false) :
    Inside (escapeGlyph ⟨b.toNat, [b]⟩) := by
  -- Each of these characters is escaped, and the reader is asked whether that can stand in a
  -- string.
  have hall : ∀ n < 128, stringInside 0 (escapeGlyph ⟨n, [n.toUInt8]⟩ ++ [34]) =
      some (escapeGlyph ⟨n, [n.toUInt8]⟩, []) := by decide +kernel
  rw [isHigh, decide_eq_false_iff_not, Nat.not_le] at hb
  have hread := hall b.toNat hb
  rw [Nat.toUInt8, UInt8.ofNat_toNat] at hread
  exact inside_of_stringInside hread

theorem inside_escapeGlyph {g : Glyph} (hg : g.Proper) : Inside (escapeGlyph g) := by
  rcases hg with ⟨b, hb, rfl⟩ | ⟨hcode, _, hbytes⟩
  · exact inside_escapeGlyph_low hb
  · have hne : ∀ n : Nat, n < 128 → g.code ≠ n :=
      fun n hn h => Nat.not_le.mpr hn (h ▸ hcode)
    rw [escapeGlyph]
    split
    · exact inside_escapeCode _
    · rw [if_neg (not_or.mpr ⟨hne 34 (by decide), hne 92 (by decide)⟩)]
      split
      · exact absurd ‹g.code = 8› (hne 8 (by decide))
      · exact absurd ‹g.code = 9› (hne 9 (by decide))
      · exact absurd ‹g.code = 10› (hne 10 (by decide))
      · exact absurd ‹g.code = 12› (hne 12 (by decide))
      · exact absurd ‹g.code = 13› (hne 13 (by decide))
      · split
        · exact inside_escapeCode _
        · exact .of_high hbytes

/-- A text that is escaped can stand inside a string. -/
theorem inside_escape (t : Text) : Inside (escape t) :=
  inside_flatMap fun _ hg => inside_escapeGlyph (proper_of_mem_glyphs hg)

end PocketScript.Json
