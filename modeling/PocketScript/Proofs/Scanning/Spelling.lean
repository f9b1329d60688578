import PocketScript.Proofs.Scanning.Lookahead

/-!
# How tokens are spelled

The reader of tokens is a cascade of attempts, and most facts about a token
need only the shape that the successful attempt leaves. `Spelled` lists the
shapes: an operator of one or two characters, a string between two quotes, a
word, and a number with or without a fraction. `read_spelled` is the one place
where the cascade is followed.

## Main definitions

* `Scanned.Spelled`: The characters of a token of a kind.

## Theorems

* `Scanned.read_spelled`: Every token that is read is spelled like one.
* `Scanned.Spelled.not_gap`: A token starts with neither a blank nor a
  comment.
* `Scanned.Spelled.last_not_blank`: A token does not end with a blank.
* `Scanned.Spelled.blank`: Only strings hold blanks.
-/

namespace PocketScript

namespace Scanned

/-- `g` and the characters `taken` after it spell a token of a kind. -/
inductive Spelled (g : Glyph) : List Glyph → Kind → Prop where
  | single {k : Kind} : Kind.ofSingle? g.code = some k → Spelled g [] k
  | pair {h : Glyph} {k : Kind} : Kind.ofPair? g.code h.code = some k → Spelled g [h] k
  | quoted {inside : List Glyph} {q : Glyph} :
      g.code.isQuote = true → (∀ c ∈ inside, c.code ≠ g.code) → q.code = g.code →
      Spelled g (inside ++ [q]) .string
  | word {more : List Glyph} :
      g.code.startsWord = true → (∀ c ∈ more, c.code.continuesWord = true) →
      Spelled g more (Kind.ofWord (Text.ofGlyphs (g :: more)))
  | whole {digits : List Glyph} :
      g.code.isDigit = true → (∀ c ∈ digits, c.code.isDigit = true) → Spelled g digits .number
  | fraction {digits fraction : List Glyph} {p : Glyph} :
      g.code.isDigit = true → (∀ c ∈ digits, c.code.isDigit = true) → p.code = 46 →
      (∀ c ∈ fraction, c.code.isDigit = true) → fraction ≠ [] →
      Spelled g (digits ++ p :: fraction) .number

theorem operator?_spelled {g : Glyph} {rest : List Glyph} {k : Kind} {l : Option Literal}
    {more : Nat} (h : operator? g rest = some (.token k l more)) :
    ∃ taken tail, rest = taken ++ tail ∧ taken.length = more ∧ Spelled g taken k := by
  rw [operator?] at h
  split at h
  · rename_i kind hpair
    rcases Option.bind_eq_some_iff.mp hpair with ⟨c, hc, hkind⟩
    rcases Scanned.token.inj (Option.some.inj h) with ⟨rfl, _, rfl⟩
    rcases List.head?_eq_some_iff.mp hc with ⟨tail, rfl⟩
    exact ⟨[c], tail, rfl, rfl, .pair hkind⟩
  · rcases Option.map_eq_some_iff.mp h with ⟨kind, hkind, hs⟩
    rcases Scanned.token.inj hs with ⟨rfl, _, rfl⟩
    exact ⟨[], rest, rfl, rfl, .single hkind⟩

theorem quoted_spelled {g : Glyph} {rest : List Glyph} {k : Kind} {l : Option Literal}
    {more : Nat} (hq : g.code.isQuote = true) (h : quoted g rest = .token k l more) :
    ∃ taken tail, rest = taken ++ tail ∧ taken.length = more ∧ Spelled g taken k := by
  simp only [quoted] at h
  split at h
  case isFalse => cases h
  case isTrue hlt =>
    rcases takeWhile_split hlt with ⟨q, tail, hsplit, hclose⟩
    rcases Scanned.token.inj h with ⟨rfl, _, rfl⟩
    refine ⟨rest.takeWhile (fun c => c.code != g.code) ++ [q], tail, ?_, ?_, .quoted hq ?_ ?_⟩
    · rw [List.append_assoc]
      exact hsplit
    · rw [List.length_append]
      rfl
    · intro c hc
      exact bne_iff_ne.mp (List.mem_takeWhile_imp (p := fun c : Glyph => c.code != g.code) hc)
    · simpa using hclose

theorem word_spelled {g : Glyph} {rest : List Glyph} {k : Kind} {l : Option Literal}
    {more : Nat} (hw : g.code.startsWord = true) (h : word g rest = .token k l more) :
    ∃ taken tail, rest = taken ++ tail ∧ taken.length = more ∧ Spelled g taken k := by
  rcases Scanned.token.inj h with ⟨rfl, _, rfl⟩
  exact ⟨_, _, (List.takeWhile_append_dropWhile (p := fun c : Glyph => c.code.continuesWord)).symm,
    rfl, .word hw fun c hc =>
      List.mem_takeWhile_imp (p := fun c : Glyph => c.code.continuesWord) hc⟩

theorem numeral_spelled {g : Glyph} {rest : List Glyph} {k : Kind} {l : Option Literal}
    {more : Nat} (hg : g.code.isDigit = true) (h : numeral g rest = .token k l more) :
    ∃ taken tail, rest = taken ++ tail ∧ taken.length = more ∧ Spelled g taken k := by
  have hdigits : ∀ {run tail : List Glyph},
      (run ++ tail).takeWhile (fun c => c.code.isDigit) = run →
        ∀ c ∈ run, c.code.isDigit = true := by
    intro run tail hrun c hc
    rw [← hrun] at hc
    exact List.mem_takeWhile_imp (p := fun c : Glyph => c.code.isDigit) hc
  rcases numeral_cases rest with
    ⟨digits, tail, rfl, hd, hp⟩ | ⟨digits, p, fraction, tail, rfl, hd, hp, hf, hne⟩
  · rw [numeral_whole hd hp] at h
    rcases Scanned.token.inj h with ⟨rfl, _, rfl⟩
    exact ⟨digits, tail, rfl, rfl, .whole hg (hdigits hd)⟩
  · rw [numeral_fraction hd hp hf hne] at h
    rcases Scanned.token.inj h with ⟨rfl, _, rfl⟩
    refine ⟨digits ++ p :: fraction, tail, ?_, ?_, .fraction hg hd hp (hdigits hf) hne⟩
    · rw [List.append_assoc, List.cons_append]
    · rw [List.length_append, List.length_cons]
      omega

/-- Whatever is read takes characters that are there, and they spell a token
    of its kind. -/
theorem read_spelled {g : Glyph} {rest : List Glyph} {k : Kind} {l : Option Literal} {more : Nat}
    (h : read g rest = .token k l more) :
    ∃ taken tail, rest = taken ++ tail ∧ taken.length = more ∧ Spelled g taken k := by
  rw [read] at h
  cases hs : operator? g rest with
  | some s =>
      rw [hs] at h
      subst h
      exact operator?_spelled hs
  | none =>
      rw [hs] at h
      simp only at h
      by_cases hq : g.code.isQuote = true
      · rw [if_pos hq] at h
        exact quoted_spelled hq h
      · rw [if_neg hq] at h
        by_cases hw : g.code.startsWord = true
        · rw [if_pos hw] at h
          exact word_spelled hw h
        · rw [if_neg hw] at h
          by_cases hd : g.code.isDigit = true
          · rw [if_pos hd] at h
            exact numeral_spelled hd h
          · rw [if_neg hd] at h
            cases h

/-- The same where the characters of the token are known already. -/
theorem spelled_of_read {g : Glyph} {taken rest : List Glyph} {k : Kind} {l : Option Literal}
    (h : read g (taken ++ rest) = .token k l taken.length) : Spelled g taken k := by
  rcases read_spelled h with ⟨taken', tail, hrest, hlen, hs⟩
  rw [(List.append_inj hrest hlen.symm).1]
  exact hs

/-- No token starts with a blank or with the character that starts a
    comment. -/
theorem Spelled.not_gap {g : Glyph} {taken : List Glyph} {k : Kind} (h : Spelled g taken k) :
    g.code.isGapBlank = false ∧ g.code.isHash = false := by
  suffices hno : ∀ r ∈ [32, 9, 13, 10, 35], g.code ≠ r by
    constructor
    · by_contra hb
      rcases Rune.isGapBlank_cases (Bool.not_eq_false _ ▸ hb) with hc | hc | hc | hc
      all_goals exact hno _ (by decide) hc
    · by_contra hh
      simp only [Rune.isHash, Bool.not_eq_false, beq_iff_eq] at hh
      exact hno _ (by decide) hh
  intro r hr hg
  have hshape : Kind.ofSingle? r = none ∧ (∀ s, Kind.ofPair? r s = none) ∧ r.isQuote = false ∧
      r.startsWord = false ∧ r.isDigit = false := by
    simp only [List.mem_cons, List.not_mem_nil, or_false] at hr
    rcases hr with rfl | rfl | rfl | rfl | rfl
    all_goals exact ⟨rfl, fun _ => rfl, by decide, by decide, by decide⟩
  rcases hshape with ⟨hsingle, hpair, hquote, hword, hdigit⟩
  cases h with
  | single hk => rw [hg, hsingle] at hk; cases hk
  | pair hk => rw [hg, hpair] at hk; cases hk
  | quoted hq _ _ => rw [hg, hquote] at hq; cases hq
  | word hw _ => rw [hg, hword] at hw; cases hw
  | whole hd _ => rw [hg, hdigit] at hd; cases hd
  | fraction hd _ _ _ _ => rw [hg, hdigit] at hd; cases hd

theorem ofWord_ne_end (w : Text) : Kind.ofWord w ≠ .endOfInput := by
  rw [Kind.ofWord]
  cases hlook : Kind.keywords.lookup w with
  | none => exact Kind.noConfusion
  | some kind =>
      rcases List.lookup_eq_some_iff.mp hlook with ⟨before, after, hsplit, _⟩
      have hall : ∀ entry ∈ Kind.keywords, entry.2 ≠ .endOfInput := by
        simp only [Kind.keywords]
        decide
      exact hall (w, kind) (by rw [hsplit]; exact List.mem_append_right _ List.mem_cons_self)

/-- No token is read as the end of the input. -/
theorem Spelled.kind_ne_end {g : Glyph} {taken : List Glyph} {k : Kind} (h : Spelled g taken k) :
    k ≠ .endOfInput := by
  cases h with
  | single hk => rintro rfl; revert hk; simp only [Kind.ofSingle?]; split <;> simp
  | pair hk => rintro rfl; revert hk; simp only [Kind.ofPair?]; split <;> simp
  | quoted _ _ _ => exact Kind.noConfusion
  | word _ _ => exact ofWord_ne_end _
  | whole _ _ => exact Kind.noConfusion
  | fraction _ _ _ _ _ => exact Kind.noConfusion

/-- A token with a blank in it is a string, and it ends with its quote. -/
theorem Spelled.blank {g c : Glyph} {taken : List Glyph} {k : Kind} (h : Spelled g taken k)
    (hc : c ∈ taken) (hb : c.code.isGapBlank = true) :
    k = .string ∧ ∃ inside q, taken = inside ++ [q] ∧ q.code = g.code := by
  have hdigit : ∀ run : List Glyph, c ∈ run → ¬ ∀ d ∈ run, d.code.isDigit = true := by
    intro run hrun hall
    have hd := hall c hrun
    rw [Rune.not_isDigit_of_blank hb] at hd
    cases hd
  cases h with
  | single _ => cases hc
  | pair hk =>
      rw [← List.mem_singleton.mp hc, Kind.ofPair?_blank _ hb] at hk
      cases hk
  | quoted _ _ hq => exact ⟨rfl, _, _, rfl, hq⟩
  | word _ hmore =>
      have hw := hmore c hc
      rw [Rune.not_continuesWord_of_blank hb] at hw
      cases hw
  | whole _ hd => exact absurd hd (hdigit _ hc)
  | fraction _ hd hp hf _ =>
      rcases List.mem_append.mp hc with hc | hc
      · exact absurd hd (hdigit _ hc)
      · rcases List.mem_cons.mp hc with rfl | hc
        · rw [hp] at hb
          exact absurd hb (by decide)
        · exact absurd hf (hdigit _ hc)

/-- The last character of a token is no blank. -/
theorem Spelled.last_not_blank {g c : Glyph} {taken init : List Glyph} {k : Kind}
    (h : Spelled g taken k) (hlast : g :: taken = init ++ [c]) : c.code.isGapBlank = false := by
  cases init with
  | nil =>
      rw [← (List.cons.inj hlast).1]
      exact h.not_gap.1
  | cons g' init =>
      rcases List.cons.inj hlast with ⟨rfl, htaken⟩
      have hc : c ∈ taken := by
        rw [htaken]
        exact List.mem_append_right _ (List.mem_singleton_self c)
      by_contra hb
      rw [Bool.not_eq_false] at hb
      rcases h.blank hc hb with ⟨_, inside, q, hinside, hq⟩
      rw [htaken] at hinside
      rw [List.singleton_inj.mp (List.append_inj_right' hinside rfl), hq, h.not_gap.1] at hb
      cases hb

end Scanned

end PocketScript
