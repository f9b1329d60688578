import PocketScript.Proofs.Text.Glyphs

/-!
# Texts that are read apart from what follows

Two texts in a row are read as the characters of the first and then those of
the second if the second cuts clean. That asks something of the second text.
Where a text is followed by whatever a script goes on with, the first has to
bring the condition along: it must not stop in the middle of a character.

A text is `Whole` if it does not, so that nothing after it changes how it is
read. One that ends with a character of one byte is whole whatever stands
before that, also where those bytes spell nothing. So is one without broken
characters, because a character that has all its bytes looks no further.

Reading a text in context also says how its pieces are read by themselves.
The bytes of the characters up to some point give these characters again, and
so do the bytes from there on (`Text.glyphs_split`). Both facts rest on the
one thing that more bytes can do to a character: complete it, by taking some
of them in (`Glyph.first_grown`).

## Main definitions

* `Glyph.Grown`: A character read again with more bytes after it.
* `Text.Whole`: A text that is read the same in front of anything.

## Theorems

* `Glyph.first_grown`: More bytes leave a character alone or complete it.
* `Text.whole_concat`: A text that ends with a byte of its own is whole.
* `Text.whole_of_readable`: A text without broken characters is whole.
* `Text.glyphs_split`: The characters of a text read piece by piece.
-/

namespace PocketScript

namespace Glyph

/-- With `r` after its first byte a character is read as `x`, and with more
    bytes after `r` as `y`: that is the same, or a character that was broken
    and takes in some of the new bytes. -/
def Grown (r : Text) (x y : Rune × Nat) : Prop :=
  y = x ∨ x = (Rune.replacement, 1) ∧ r.length + 1 < y.2

theorem Grown.refl (r : Text) (x : Rune × Nat) : Grown r x x := Or.inl rfl

theorem Grown.ite {c : Prop} [Decidable c] {r : Text} {x y x' y' : Rune × Nat}
    (h : Grown r x y) (h' : Grown r x' y') :
    Grown r (if c then x else x') (if c then y else y') := by
  by_cases hc : c
  · rw [if_pos hc, if_pos hc]
    exact h
  · rw [if_neg hc, if_neg hc]
    exact h'

/-- A test that fails leaves the character broken, and one that succeeds has
    seen bytes past `r`. -/
theorem grown_of_broken {c : Prop} [Decidable c] {r : Text} {code : Rune} {width : Nat}
    (h : r.length + 1 < width) :
    Grown r (Rune.replacement, 1) (if c then (code, width) else (Rune.replacement, 1)) := by
  by_cases hc : c
  · rw [if_pos hc]
    exact Or.inr ⟨rfl, h⟩
  · rw [if_neg hc]
    exact .refl _ _

theorem two_grown (b : Nat) (r rest : Text) : Grown r (two b r) (two b (r ++ rest)) := by
  cases r with
  | cons c r => exact .refl _ _
  | nil =>
      cases rest with
      | nil => exact .refl _ _
      | cons c rest => exact grown_of_broken (by decide)

theorem three_grown (b lo hi : Nat) (r rest : Text) :
    Grown r (three b lo hi r) (three b lo hi (r ++ rest)) := by
  rcases r with _ | ⟨c, _ | ⟨d, r⟩⟩
  · rcases rest with _ | ⟨c, _ | ⟨d, rest⟩⟩
    · exact .refl _ _
    · exact .refl _ _
    · exact grown_of_broken (by decide)
  · cases rest with
    | nil => exact .refl _ _
    | cons d rest => exact grown_of_broken (Nat.lt_succ_self _)
  · exact .refl _ _

theorem four_grown (b lo hi : Nat) (r rest : Text) :
    Grown r (four b lo hi r) (four b lo hi (r ++ rest)) := by
  rcases r with _ | ⟨c, _ | ⟨d, _ | ⟨e, r⟩⟩⟩
  · rcases rest with _ | ⟨c, _ | ⟨d, _ | ⟨e, rest⟩⟩⟩
    · exact .refl _ _
    · exact .refl _ _
    · exact .refl _ _
    · exact grown_of_broken (by decide)
  · rcases rest with _ | ⟨d, _ | ⟨e, rest⟩⟩
    · exact .refl _ _
    · exact .refl _ _
    · exact grown_of_broken (by simp)
  · cases rest with
    | nil => exact .refl _ _
    | cons e rest => exact grown_of_broken (by simp)
  · exact .refl _ _

/-- More bytes leave a character alone or complete it. -/
theorem first_grown (b : UInt8) (r rest : Text) :
    Grown r (first b r) (first b (r ++ rest)) := by
  simp only [first]
  exact .ite (.refl _ _) <| .ite (.refl _ _) <| .ite (two_grown _ r rest) <|
    .ite (three_grown _ _ _ r rest) <| .ite (three_grown _ _ _ r rest) <|
    .ite (three_grown _ _ _ r rest) <| .ite (four_grown _ _ _ r rest) <|
    .ite (four_grown _ _ _ r rest) <| .ite (four_grown _ _ _ r rest) (.refl _ _)

/-- A character that is not broken looks no further. -/
theorem first_append {b : UInt8} {r : Text} (h : (first b r).1 ≠ Rune.replacement) (rest : Text) :
    first b (r ++ rest) = first b r := by
  rcases first_grown b r rest with hsame | ⟨hbroken, _⟩
  · exact hsame
  · rw [hbroken] at h
    exact absurd rfl h

/-- The bytes that a character takes in are all it needs. -/
theorem first_of_append {b : UInt8} {r rest : Text} (h : (first b (r ++ rest)).2 - 1 ≤ r.length) :
    first b r = first b (r ++ rest) := by
  rcases first_grown b r rest with hsame | ⟨_, hlt⟩
  · exact hsame.symm
  · omega

end Glyph

namespace Text

/-- What follows the text does not change how it is read. -/
def Whole (t : Text) : Prop := ∀ rest, glyphs (t ++ rest) = glyphs t ++ glyphs rest

theorem whole_nil : Whole [] := fun _ => rfl

theorem Whole.append {t u : Text} (ht : Whole t) (hu : Whole u) : Whole (t ++ u) := by
  intro rest
  rw [List.append_assoc, ht, hu, ht u, List.append_assoc]

/-- A text that ends with a byte that is a character by itself is whole. -/
theorem whole_concat (t : Text) {b : UInt8} (hb : isHigh b = false) : Whole (t ++ [b]) := by
  intro rest
  rw [List.append_assoc, List.singleton_append, glyphs_append t (cutsClean_cons hb rest),
    glyphs_append t (cutsClean_cons hb []), glyphs_cons_low hb, glyphs_cons_low hb]
  simp

/-- Where every byte is a character by itself, the characters are the bytes. -/
theorem glyphs_of_low {t : Text} (h : ∀ b ∈ t, isHigh b = false) :
    t.glyphs = t.map fun b => ⟨b.toNat, [b]⟩ := by
  induction t with
  | nil => rfl
  | cons b r ih =>
      rw [glyphs_cons_low (h b List.mem_cons_self), List.map_cons,
        ih fun c hc => h c (List.mem_cons_of_mem b hc)]

theorem whole_of_low {t : Text} (h : ∀ b ∈ t, isHigh b = false) : Whole t := by
  rcases List.eq_nil_or_concat t with rfl | ⟨init, b, rfl⟩
  · exact whole_nil
  · rw [List.concat_eq_append] at h ⊢
    exact whole_concat init (h b (by simp))

/-- A text without broken characters is whole. The induction is on the number
    of bytes, because a character can take in several. -/
theorem whole_of_readable {t : Text} (h : ∀ c ∈ t.runes, c ≠ Rune.replacement) : Whole t := by
  intro rest
  induction hn : t.length using Nat.strong_induction_on generalizing t with
  | _ n ih =>
    cases t with
    | nil => rfl
    | cons b r =>
        rw [runes, glyphs_cons, List.map_cons] at h
        have hfirst := Glyph.first_append (h _ List.mem_cons_self) rest
        have hw : (Glyph.first b r).2 - 1 ≤ r.length :=
          Nat.le_trans (Glyph.first_width b r) (List.takeWhile_sublist _).length_le
        rw [List.cons_append, glyphs_cons, glyphs_cons, hfirst,
          List.take_append_of_le_length hw, List.drop_append_of_le_length hw, List.cons_append]
        rw [ih (r.drop ((Glyph.first b r).2 - 1)).length (by
          rw [← hn, List.length_drop, List.length_cons]
          omega) (fun c hc => h c (List.mem_cons_of_mem _ hc)) rfl]

/-- The characters of a text up to some point are those of their bytes, and
    so are the characters from there on. -/
theorem glyphs_split {t : Text} {gs hs : List Glyph} (h : t.glyphs = gs ++ hs) :
    (ofGlyphs gs).glyphs = gs ∧ (ofGlyphs hs).glyphs = hs := by
  induction gs generalizing t with
  | nil =>
      rw [List.nil_append] at h
      rw [← h, glyphs_spell]
      exact ⟨rfl, rfl⟩
  | cons g gs ih =>
      cases t with
      | nil => cases h
      | cons b r =>
          rw [glyphs_cons, List.cons_append] at h
          rcases List.cons.inj h with ⟨hg, hrest⟩
          rcases ih hrest with ⟨hgs, hhs⟩
          refine ⟨?_, hhs⟩
          have hspell := glyphs_spell (r.drop ((Glyph.first b r).2 - 1))
          rw [hrest, ofGlyphs, List.flatMap_append] at hspell
          -- The first character has its bytes, and those that are gone stand
          -- past them.
          obtain ⟨own, hown⟩ : ∃ own, own = r.take ((Glyph.first b r).2 - 1) := ⟨_, rfl⟩
          have hlen : own.length = (Glyph.first b r).2 - 1 := by
            rw [hown, List.length_take, Nat.min_eq_left]
            exact Nat.le_trans (Glyph.first_width b r) (List.takeWhile_sublist _).length_le
          have hr : r = (own ++ ofGlyphs gs) ++ ofGlyphs hs := by
            rw [List.append_assoc, ofGlyphs, ofGlyphs, hspell, hown, List.take_append_drop]
          have hfirst : Glyph.first b (own ++ ofGlyphs gs) = Glyph.first b r := by
            have hwidth : (Glyph.first b (own ++ ofGlyphs gs ++ ofGlyphs hs)).2 - 1 ≤
                (own ++ ofGlyphs gs).length := by
              rw [← hr, ← hlen, List.length_append]
              exact Nat.le_add_right _ _
            rw [Glyph.first_of_append hwidth, ← hr]
          have hbytes : ofGlyphs (g :: gs) = b :: (own ++ ofGlyphs gs) := by
            rw [ofGlyphs, List.flatMap_cons, ← hg, ← hown]
            rfl
          rw [hbytes, glyphs_cons, hfirst, ← hlen, List.take_left, List.drop_left, hgs, ← hg, hown]

end Text

end PocketScript
