import Mathlib.Data.List.TakeWhile
import PocketScript.Token.Scan

/-!
# How far a token looks ahead

A token is read by looking past its end: at one character to see that a word,
a number or an operator goes no further, and at two when a number is followed
by a point. So a token read in front of some characters is also read in front
of others that say as much about where it ends.

`Eases` is the condition. Either the new characters pause, by starting with a
blank or not at all, which ends every token; or they start with the same
character as the old ones, and the character after that is the same or
pauses. Joining sources with a line feed, dropping blanks at the end of a line
and setting tokens one blank apart all change what follows a token in one of
these two ways.

## Main definitions

* `Pauses`: Characters that start with a blank or not at all.
* `Eases`: Characters that end a token if others do.

## Theorems

* `Scanned.read_eases`: A token is read in front of whatever eases what
  follows it.
-/

namespace PocketScript

/-- The characters start with a blank, or there are none. -/
def Pauses (gs : List Glyph) : Prop := ∀ g r, gs = g :: r → g.code.isGapBlank = true

theorem pauses_nil : Pauses [] := fun _ _ h => nomatch h

theorem pauses_cons {g : Glyph} (hg : g.code.isGapBlank = true) (r : List Glyph) :
    Pauses (g :: r) := by
  intro h s hs
  rw [← (List.cons.inj hs).1]
  exact hg

/-- Whatever ends a token in front of `x` ends it in front of `y`. -/
def Eases (x y : List Glyph) : Prop :=
  Pauses y ∨ ∃ h x' y', x = h :: x' ∧ y = h :: y' ∧ (Pauses y' ∨ x'.head? = y'.head?)

/-- The four blanks. -/
theorem Rune.isGapBlank_cases {r : Rune} (h : r.isGapBlank = true) :
    r = 32 ∨ r = 9 ∨ r = 13 ∨ r = 10 := by
  simp only [Rune.isGapBlank, Bool.or_eq_true, beq_iff_eq] at h
  rcases h with ((h | h) | h) | h
  · exact Or.inl h
  · exact Or.inr (Or.inl h)
  · exact Or.inr (Or.inr (Or.inl h))
  · exact Or.inr (Or.inr (Or.inr h))

theorem Rune.not_isDigit_of_blank {r : Rune} (h : r.isGapBlank = true) : r.isDigit = false := by
  rcases isGapBlank_cases h with rfl | rfl | rfl | rfl <;> decide

theorem Rune.not_continuesWord_of_blank {r : Rune} (h : r.isGapBlank = true) :
    r.continuesWord = false := by
  rcases isGapBlank_cases h with rfl | rfl | rfl | rfl <;> decide

theorem Kind.ofPair?_blank (r : Rune) {s : Rune} (h : s.isGapBlank = true) :
    Kind.ofPair? r s = none := by
  rcases Rune.isGapBlank_cases h with rfl | rfl | rfl | rfl <;>
    (unfold Kind.ofPair?; split <;> simp_all)

/-- A run ends at the first character that does not belong to it. -/
theorem takeWhile_stop {p : Glyph → Bool} {run : List Glyph} (hall : ∀ g ∈ run, p g = true)
    {rest : List Glyph} (hstop : ∀ g r, rest = g :: r → p g = false) :
    (run ++ rest).takeWhile p = run := by
  rw [List.takeWhile_append_of_pos hall]
  cases rest with
  | nil => simp
  | cons g r => simp [hstop g r rfl]

/-- A run that does not take everything is followed by a character that does
    not belong to it. -/
theorem takeWhile_split {p : Glyph → Bool} {l : List Glyph}
    (h : (l.takeWhile p).length < l.length) :
    ∃ q tail, l = l.takeWhile p ++ q :: tail ∧ p q = false := by
  have hsplit := List.takeWhile_append_dropWhile (p := p) (l := l)
  cases hd : l.dropWhile p with
  | nil =>
      rw [hd, List.append_nil] at hsplit
      rw [hsplit] at h
      exact absurd h (Nat.lt_irrefl _)
  | cons q tail =>
      have hq := List.head_dropWhile_not p (l := l) (by rw [hd]; exact List.cons_ne_nil _ _)
      rw [hd] at hsplit
      simp only [hd, List.head_cons] at hq
      exact ⟨q, tail, hsplit.symm, hq⟩

/-- What the run in front of `x` says about its parts. -/
theorem takeWhile_append_eq {p : Glyph → Bool} {taken x : List Glyph}
    (h : (taken ++ x).takeWhile p = taken) :
    (∀ g ∈ taken, p g = true) ∧ ∀ g r, x = g :: r → p g = false := by
  have hall : ∀ g ∈ taken, p g = true := by
    intro g hg
    rw [← h] at hg
    exact List.mem_takeWhile_imp hg
  refine ⟨hall, ?_⟩
  rintro g r rfl
  rw [List.takeWhile_append_of_pos hall] at h
  cases hg : p g with
  | false => rfl
  | true =>
      have hlen := congrArg List.length h
      simp [hg] at hlen

/-- A run that is as long as `taken` is `taken`. -/
theorem takeWhile_eq_of_length {p : Glyph → Bool} {taken x : List Glyph}
    (h : ((taken ++ x).takeWhile p).length = taken.length) : (taken ++ x).takeWhile p = taken := by
  have hpre := List.takeWhile_prefix (l := taken ++ x) p
  exact (List.prefix_of_prefix_length_le hpre (List.prefix_append taken x)
    (Nat.le_of_eq h)).eq_of_length h

/-- Characters that cannot go on with a run in front of `x` cannot in front of
    what eases it. -/
theorem Eases.stop {p : Glyph → Bool} (hp : ∀ g, g.code.isGapBlank = true → p g = false)
    {x y : List Glyph} (he : Eases x y) (hx : ∀ g r, x = g :: r → p g = false) :
    ∀ g r, y = g :: r → p g = false := by
  intro g r hy
  rcases he with hpause | ⟨h, x', y', rfl, rfl, _⟩
  · exact hp g (hpause g r hy)
  · rw [← (List.cons.inj hy).1]
    exact hx h x' rfl

/-- A run of characters that ends in front of `x` ends in front of `y`. -/
theorem takeWhile_eases {p : Glyph → Bool} (hp : ∀ g, g.code.isGapBlank = true → p g = false)
    {taken x y : List Glyph} (hx : (taken ++ x).takeWhile p = taken) (he : Eases x y) :
    (taken ++ y).takeWhile p = taken := by
  rcases takeWhile_append_eq hx with ⟨hall, hstop⟩
  exact takeWhile_stop hall (he.stop hp hstop)

namespace Scanned

/-- The closing quote is the last character that a string takes, so nothing
    after it counts. -/
theorem quoted_eases {g : Glyph} {taken x y : List Glyph} {k : Kind} {l : Option Literal}
    (h : quoted g (taken ++ x) = .token k l taken.length) :
    quoted g (taken ++ y) = .token k l taken.length := by
  simp only [quoted] at h ⊢
  split at h
  case isFalse => cases h
  case isTrue hlt =>
    rcases takeWhile_split hlt with ⟨q, tail, hsplit, hq⟩
    -- What is taken is the inside and the closing quote, whatever follows.
    have hlen := (Scanned.token.inj h).2.2
    generalize hin : (taken ++ x).takeWhile (fun c => c.code != g.code) = inside at h hsplit hlen
    have htaken : taken = inside ++ [q] := by
      have happend : taken ++ x = (inside ++ [q]) ++ tail := by
        rw [hsplit, List.append_assoc]
        rfl
      refine (List.append_inj happend ?_).1
      rw [List.length_append]
      exact hlen.symm
    have hall : ∀ c ∈ inside, (fun c : Glyph => c.code != g.code) c = true := by
      intro c hc
      rw [← hin] at hc
      exact List.mem_takeWhile_imp (p := fun c : Glyph => c.code != g.code) hc
    have hy : (taken ++ y).takeWhile (fun c => c.code != g.code) = inside := by
      rw [htaken, List.append_assoc]
      refine takeWhile_stop hall ?_
      intro c r hc
      rw [← (List.cons.inj hc).1]
      exact hq
    rw [hy, if_pos (by rw [htaken]; simp only [List.length_append, List.length_cons]; omega)]
    exact h

theorem word_eases {g : Glyph} {taken x y : List Glyph} {k : Kind} {l : Option Literal}
    (h : word g (taken ++ x) = .token k l taken.length) (he : Eases x y) :
    word g (taken ++ y) = .token k l taken.length := by
  simp only [word] at h ⊢
  have hx := takeWhile_eq_of_length (Scanned.token.inj h).2.2
  have hy := takeWhile_eases (fun g hg => Rune.not_continuesWord_of_blank hg) hx he
  rw [hx] at h
  rw [hy]
  exact h

/-- A number without a point stays one if no point with digits after it comes
    to stand behind it. -/
theorem numeral_whole {g : Glyph} {digits rest : List Glyph}
    (hd : (digits ++ rest).takeWhile (fun c => c.code.isDigit) = digits)
    (hp : ∀ p after, rest = p :: after → p.code = 46 →
      after.takeWhile (fun c => c.code.isDigit) = []) :
    numeral g (digits ++ rest) =
      .token .number (some (.number (Number.ofDigits (Text.ofGlyphs (g :: digits)) [])))
        digits.length := by
  simp only [numeral, hd, List.drop_left]
  cases rest with
  | nil => rfl
  | cons p after =>
      simp only
      rw [if_neg]
      rintro ⟨h46, hne⟩
      rw [hp p after rfl h46] at hne
      exact hne rfl

theorem numeral_fraction {g p : Glyph} {digits fraction rest : List Glyph}
    (hd : ∀ c ∈ digits, c.code.isDigit = true) (hp : p.code = 46)
    (hf : (fraction ++ rest).takeWhile (fun c => c.code.isDigit) = fraction) (hne : fraction ≠ []) :
    numeral g (digits ++ p :: (fraction ++ rest)) =
      .token .number (some (.number (Number.ofDigits (Text.ofGlyphs (g :: digits))
        (Text.ofGlyphs fraction)))) (digits.length + 1 + fraction.length) := by
  have hwhole : (digits ++ p :: (fraction ++ rest)).takeWhile (fun c => c.code.isDigit) =
      digits := by
    refine takeWhile_stop hd ?_
    intro c r hc
    rw [← (List.cons.inj hc).1, hp]
    decide
  simp only [numeral, hwhole, List.drop_left, hf]
  rw [if_pos ⟨hp, by simpa using hne⟩]

/-- A number is whole or has a fraction. -/
theorem numeral_cases (rest : List Glyph) :
    (∃ digits tail, rest = digits ++ tail ∧
      (digits ++ tail).takeWhile (fun c => c.code.isDigit) = digits ∧
      ∀ p after, tail = p :: after → p.code = 46 →
        after.takeWhile (fun c => c.code.isDigit) = []) ∨
    ∃ digits p fraction tail, rest = digits ++ p :: (fraction ++ tail) ∧
      (∀ c ∈ digits, c.code.isDigit = true) ∧ p.code = 46 ∧
      (fraction ++ tail).takeWhile (fun c => c.code.isDigit) = fraction ∧ fraction ≠ [] := by
  have hsplit := List.takeWhile_append_dropWhile (p := fun c : Glyph => c.code.isDigit) (l := rest)
  cases hdrop : rest.dropWhile fun c : Glyph => c.code.isDigit with
  | nil =>
      rw [hdrop] at hsplit
      exact Or.inl ⟨_, [], hsplit.symm, by rw [hsplit], fun _ _ h => nomatch h⟩
  | cons p after =>
      rw [hdrop] at hsplit
      by_cases hp : p.code = 46 ∧ after.takeWhile (fun c => c.code.isDigit) ≠ []
      · have hafter := List.takeWhile_append_dropWhile (p := fun c : Glyph => c.code.isDigit)
          (l := after)
        exact Or.inr ⟨_, p, _, _, by rw [hafter, hsplit],
          fun c hc => List.mem_takeWhile_imp (p := fun c : Glyph => c.code.isDigit) hc, hp.1,
          by rw [hafter], hp.2⟩
      · refine Or.inl ⟨_, p :: after, hsplit.symm, by rw [hsplit], ?_⟩
        intro q more hq hcode
        rcases List.cons.inj hq with ⟨rfl, rfl⟩
        by_contra hne
        exact hp ⟨hcode, hne⟩

theorem numeral_eases {g : Glyph} {taken x y : List Glyph} {k : Kind} {l : Option Literal}
    (h : numeral g (taken ++ x) = .token k l taken.length) (he : Eases x y) :
    numeral g (taken ++ y) = .token k l taken.length := by
  have hblank : ∀ c : Glyph, c.code.isGapBlank = true → c.code.isDigit = false :=
    fun c hc => Rune.not_isDigit_of_blank hc
  rcases numeral_cases (taken ++ x) with
    ⟨digits, tail, hrest, hd, hp⟩ | ⟨digits, p, fraction, tail, hrest, hd, hp, hf, hne⟩
  · have hx := numeral_whole (g := g) hd hp
    rw [← hrest, h] at hx
    rcases List.append_inj hrest (Scanned.token.inj hx).2.2 with ⟨rfl, rfl⟩
    rw [hx, numeral_whole (takeWhile_eases hblank hd he)]
    -- A point behind the number was there before, and so was what follows it.
    rintro q more rfl hcode
    rcases he with hpause | ⟨c, x', y', rfl, hy, htail⟩
    · have hq := hpause q more rfl
      rw [hcode] at hq
      exact absurd hq (by decide)
    · rcases List.cons.inj hy with ⟨rfl, rfl⟩
      have hnone := hp q x' rfl hcode
      cases more with
      | nil => rfl
      | cons d more =>
          have hd' : d.code.isDigit = false := by
            rcases htail with hpause | hhead
            · exact hblank d (hpause d more rfl)
            · cases x' with
              | nil => cases hhead
              | cons d' x' =>
                  rw [List.head?_cons, List.head?_cons, Option.some.injEq] at hhead
                  subst hhead
                  cases hdig : d'.code.isDigit with
                  | false => rfl
                  | true => simp [hdig] at hnone
          simp [hd']
  · have hx := numeral_fraction (g := g) hd hp hf hne
    rw [← hrest, h] at hx
    have hlen := (Scanned.token.inj hx).2.2
    have hrest' : taken ++ x = (digits ++ p :: fraction) ++ tail := by
      rw [hrest, List.append_assoc, List.cons_append]
    rcases List.append_inj hrest' (by
      rw [hlen, List.length_append, List.length_cons]
      omega) with ⟨rfl, rfl⟩
    rw [hx, List.append_assoc, List.cons_append,
      numeral_fraction hd hp (takeWhile_eases hblank hf he) hne]

/-- The operator of two characters that starts here, if there is one. -/
theorem operator?_eases {g : Glyph} {taken x y : List Glyph} {k : Kind} {l : Option Literal}
    (h : read g (taken ++ x) = .token k l taken.length) (he : Eases x y) :
    operator? g (taken ++ y) = operator? g (taken ++ x) := by
  cases taken with
  | cons t taken => rfl
  | nil =>
      have hx : x.head?.bind (fun c => Kind.ofPair? g.code c.code) = none := by
        cases hpair : x.head?.bind (fun c => Kind.ofPair? g.code c.code) with
        | none => rfl
        | some kind =>
            simp only [read, operator?, List.nil_append, hpair, Scanned.token.injEq,
              List.length_nil] at h
            exact absurd h.2.2 (by decide)
      have hy : y.head?.bind (fun c => Kind.ofPair? g.code c.code) = none := by
        rcases he with hpause | ⟨c, x', y', rfl, rfl, _⟩
        · cases y with
          | nil => rfl
          | cons c y => exact Kind.ofPair?_blank g.code (hpause c y rfl)
        · exact hx
      simp only [operator?, List.nil_append, hx, hy]

/-- A token that is read in front of some characters is read in front of
    whatever eases them. -/
theorem read_eases {g : Glyph} {taken x y : List Glyph} {k : Kind} {l : Option Literal}
    (h : read g (taken ++ x) = .token k l taken.length) (he : Eases x y) :
    read g (taken ++ y) = .token k l taken.length := by
  have hop := operator?_eases h he
  rw [read] at h ⊢
  rw [hop]
  cases hs : operator? g (taken ++ x) with
  | some s =>
      rw [hs] at h
      exact h
  | none =>
      rw [hs] at h
      simp only at h ⊢
      by_cases hq : g.code.isQuote = true
      · rw [if_pos hq] at h ⊢
        exact quoted_eases h
      · rw [if_neg hq] at h ⊢
        by_cases hw : g.code.startsWord = true
        · rw [if_pos hw] at h ⊢
          exact word_eases h he
        · rw [if_neg hw] at h ⊢
          by_cases hd : g.code.isDigit = true
          · rw [if_pos hd] at h ⊢
            exact numeral_eases h he
          · rw [if_neg hd] at h
            cases h

end Scanned

end PocketScript
