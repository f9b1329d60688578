import PocketScript.Proofs.Scanning.Places

/-!
# What stands next to a word

A word of a source is a whole run of letters, digits and underscores, unless it
stands right behind a number.

Behind a word the run cannot go on, because the scanner takes the longest lexeme
(`Longest.not_continues`). In front of it there is a gap or another token. A gap
ends with a blank, a symbol ends with a character of its own and a string with a
quote. Another word would have gone on with this one. Only a number can end right
in front of a word with a character that words are made of too, as in `2x`.

## Main definitions

* `Lexicon.IsWordKind`: The kinds of words.

## Theorems

* `Lexicon.IsLexeme.word_of_kind`: A lexeme of such a kind is a word.
* `Lexicon.Longest.not_continues`: The character behind a word.
* `Lexicon.not_continues_of_lexeme`: The last character of a lexeme.
* `Lexicon.Tokenised.not_continues_before`: The character in front of a word.
-/

namespace PocketScript

/-- The last character of the last line is the last one. -/
theorem Text.getLast?_runes_lastLine {t : Text} {d : Rune}
    (h : t.lastLine.runes.getLast? = some d) : t.runes.getLast? = some d := by
  rcases t.lastLine_cases with honly | ⟨above, habove⟩
  · rwa [honly] at h
  · have hrunes : t.runes = above.runes ++ 10 :: t.lastLine.runes :=
      (congrArg Text.runes habove).trans (Text.runes_append_lineFeed above t.lastLine)
    rw [hrunes, List.getLast?_append, List.getLast?_cons, h]
    rfl

/-- A byte that is a character by itself is one wherever it stands. -/
theorem Text.mem_runes_of_low {t : Text} {b : UInt8} (hb : b ∈ t) (hlow : isHigh b = false) :
    b.toNat ∈ t.runes := by
  rw [← glyphs_spell t] at hb
  rcases List.mem_flatMap.mp hb with ⟨g, hg, hbytes⟩
  rcases proper_of_mem_glyphs hg with ⟨b', _, rfl⟩ | ⟨_, _, hhigh⟩
  · rw [List.mem_singleton.mp hbytes]
    exact List.mem_map_of_mem hg
  · rw [hhigh b hbytes] at hlow
    cases hlow

namespace Lexicon

/-- The kinds of words: names and reserved words. -/
def IsWordKind (k : Kind) : Prop := k = .identifier ∨ k ∈ Kind.keywords.map Prod.snd

instance (k : Kind) : Decidable (IsWordKind k) := inferInstanceAs (Decidable (_ ∨ _))

theorem word_of_keyword {w : Text} {k : Kind} (h : (w, k) ∈ Kind.keywords) :
    IsWord w ∧ (k = .identifier ↔ w ∉ Kind.keywordNames) := by
  have hname : ∀ entry ∈ Kind.keywords, entry.2 ≠ .identifier := by decide
  have hmem : w ∈ Kind.keywordNames := List.mem_map_of_mem h
  exact ⟨isWord_of_keyword h, iff_of_false (hname _ h) (not_not_intro hmem)⟩

/-- A lexeme of such a kind is a word, and the kind says whether it is
    reserved. -/
theorem IsLexeme.word_of_kind {u : Text} {k : Kind} {l : Option Literal} (h : IsLexeme u k l)
    (hk : IsWordKind k) : IsWord u ∧ (k = .identifier ↔ u ∉ Kind.keywordNames) := by
  have hsymbol : ∀ s ∈ Kind.symbols, ¬ IsWordKind s := by decide
  cases h with
  | symbol hs => exact absurd hk (hsymbol _ hs)
  | name hword hfree =>
      exact ⟨hword, iff_of_true rfl ((not_mem_keywordNames_iff _).mpr hfree)⟩
  | reserved hmem _ => exact word_of_keyword ((mem_keywords_iff _).mpr hmem)
  | trueWord => exact word_of_keyword (by decide)
  | falseWord => exact word_of_keyword (by decide)
  | nullWord => exact word_of_keyword (by decide)
  | whole _ _ => exact absurd hk (by decide)
  | fraction _ _ _ => exact absurd hk (by decide)
  | quoted _ _ => exact absurd hk (by decide)

theorem IsWord.continuesWord {w : Text} (h : IsWord w) : ∀ c ∈ w.runes, c.continuesWord = true := by
  rcases (isWord_iff w).mp h with ⟨g, taken, hglyphs, hg, htaken⟩
  intro c hc
  rw [Text.runes, hglyphs, List.map_cons] at hc
  rcases List.mem_cons.mp hc with rfl | hc
  · exact Rune.continuesWord_of_startsWord hg
  · rcases List.mem_map.mp hc with ⟨d, hd, rfl⟩
    exact htaken d hd

/-- A byte that is a character by itself, and none that words are made of, is in
    no word. -/
theorem IsWord.not_mem {w : Text} (h : IsWord w) {b : UInt8} (hlow : Text.isHigh b = false)
    (hb : Rune.continuesWord b.toNat = false) : b ∉ w := by
  intro hmem
  rw [h.continuesWord _ (Text.mem_runes_of_low hmem hlow)] at hb
  cases hb

theorem IsWord.runes_ne_nil {w : Text} (h : IsWord w) : w.runes ≠ [] := by
  rcases h with ⟨r, rs, hrs, _⟩
  rw [hrs]
  exact List.cons_ne_nil r rs

/-- A word of a scan is one of the tokens that the source is cut into. -/
theorem exists_tokenised_of_word {source : Text} {ts : List Token}
    (h : Token.scan source = .ok ts) {t : Token} (ht : t ∈ ts) (hkind : IsWordKind t.kind) :
    ∃ body, Tokenised source body [] ∧ body ⊆ ts ∧ t ∈ body := by
  rcases (scan_eq_ok_iff source ts).mp h with ⟨body, hbody, rfl⟩
  refine ⟨body, hbody, List.subset_append_left _ _, ?_⟩
  rcases List.mem_append.mp ht with ht | ht
  · exact ht
  · rw [List.mem_singleton.mp ht] at hkind
    exact absurd hkind (by decide : ¬ IsWordKind .endOfInput)

/-- The run of letters, digits and underscores does not go on behind a word. -/
theorem Longest.not_continues {t : Token} {after : Text} (h : Longest (t.lexeme ++ after) t)
    (hword : IsWord t.lexeme) {c : Rune} (hc : after.runes.head? = some c) :
    c.continuesWord = false := by
  rcases (isWord_iff t.lexeme).mp hword with ⟨g, taken, hglyphs, hg, htaken⟩
  rcases h.read_eq with ⟨g', taken', hglyphs', hread⟩
  rw [hglyphs] at hglyphs'
  rcases List.cons.inj hglyphs' with ⟨rfl, rfl⟩
  rw [Scanned.read_word hg, Scanned.word, List.takeWhile_append_of_pos htaken] at hread
  have hlength := (Scanned.token.inj hread).2.2
  rw [List.length_append] at hlength
  have hnone : after.glyphs.takeWhile (fun g => g.code.continuesWord) = [] :=
    List.length_eq_zero_iff.mp (by omega)
  cases hafter : after.glyphs with
  | nil =>
      rw [Text.runes, hafter] at hc
      cases hc
  | cons d rest =>
      rw [Text.runes, hafter, List.map_cons, List.head?_cons, Option.some.injEq] at hc
      rw [hafter, List.takeWhile_cons] at hnone
      rw [← hc]
      by_contra hcontinues
      rw [if_pos (by simpa using hcontinues)] at hnone
      cases hnone

/-! ### In front of a word -/

/-- A symbol ends with a character that words are not made of. -/
theorem not_continues_of_single {r : Rune} {k : Kind} (h : Kind.ofSingle? r = some k) :
    r.continuesWord = false := by
  unfold Kind.ofSingle? at h
  split at h <;> cases h <;> decide

theorem not_continues_of_pair {r s : Rune} {k : Kind} (h : Kind.ofPair? r s = some k) :
    s.continuesWord = false := by
  unfold Kind.ofPair? at h
  split at h <;> cases h <;> decide

theorem not_continues_of_quote {r : Rune} (h : r.isQuote = true) : r.continuesWord = false := by
  simp only [Rune.isQuote, Bool.or_eq_true, beq_iff_eq] at h
  rcases h with rfl | rfl <;> decide

/-- A lexeme that is no number and no word ends with a character that words are
    not made of. -/
theorem not_continues_of_lexeme {u : Text} {k : Kind} {l : Option Literal} (h : IsLexeme u k l)
    (hnumber : k ≠ .number) (hword : ¬ IsWord u) {d : Rune} (hd : u.runes.getLast? = some d) :
    d.continuesWord = false := by
  rcases (isLexeme_iff _ _ _).mp h with ⟨_, g, taken, hglyphs, hspelled⟩
  rw [Text.runes, hglyphs, List.map_cons] at hd
  cases hspelled with
  | single hk =>
      rw [← Option.some.inj hd]
      exact not_continues_of_single hk
  | pair hk =>
      rw [← Option.some.inj hd]
      exact not_continues_of_pair hk
  | quoted hg hinside hq =>
      rw [List.map_append, List.map_singleton, ← List.cons_append, List.getLast?_concat,
        Option.some.injEq] at hd
      rw [← hd, hq]
      exact not_continues_of_quote hg
  | word hg htaken => exact absurd ((isWord_iff u).mpr ⟨g, taken, hglyphs, hg, htaken⟩) hword
  | whole _ _ => exact absurd rfl hnumber
  | fraction _ _ _ _ _ => exact absurd rfl hnumber

/-- A gap that is closed ends with a blank. -/
theorem Gap.exists_last {gap : Text} (h : Gap false gap) (hne : gap ≠ []) :
    ∃ init b, gap = init ++ [b] ∧ b ∈ [32, 9, 13, 10] := by
  induction h with
  | nil => exact absurd rfl hne
  | @blank b t hb _ ih =>
      by_cases ht : t = []
      · exact ⟨[], b, by rw [ht]; rfl, hb⟩
      · rcases ih ht with ⟨init, b', rfl, hb'⟩
        exact ⟨b :: init, b', rfl, hb'⟩
  | @comment c t _ _ ih =>
      by_cases ht : t = []
      · exact ⟨35 :: c, Text.lineFeed, by rw [ht]; simp, by decide⟩
      · rcases ih ht with ⟨init, b', rfl, hb'⟩
        exact ⟨35 :: (c ++ Text.lineFeed :: init), b', by simp, hb'⟩
  | cut _ hend => cases hend

/-- Behind a gap there is no character that words are made of. -/
theorem not_continues_of_gap {above gap : Text} (h : Gap false gap) (hne : gap ≠ []) {d : Rune}
    (hd : (above ++ gap).runes.getLast? = some d) : d.continuesWord = false := by
  rcases h.exists_last hne with ⟨init, b, rfl, hb⟩
  rcases low_of_blank hb with ⟨hlow, hblank⟩
  have hrunes : (above ++ (init ++ [b])).runes = (above ++ init).runes ++ [b.toNat] := by
    rw [← List.append_assoc, Text.runes, Text.glyphs_append _ (Text.cutsClean_cons hlow []),
      Text.glyphs_cons_low hlow, List.map_append]
    rfl
  rw [hrunes, List.getLast?_concat, Option.some.injEq] at hd
  rw [← hd]
  exact Rune.not_continuesWord_of_blank hblank

/-- A text that ends with a lexeme ends with the last character of that. -/
theorem IsLexeme.getLast?_runes {above u : Text} {k : Kind} {l : Option Literal}
    (h : IsLexeme u k l) (hwhole : above.Whole) {d : Rune}
    (hd : (above ++ u).runes.getLast? = some d) : u.runes.getLast? = some d := by
  rw [Text.runes, hwhole, List.map_append, ← Text.runes, ← Text.runes,
    List.getLast?_append] at hd
  cases hend : u.runes.getLast? with
  | some d' =>
      rw [hend] at hd
      exact hd
  | none =>
      rcases (isLexeme_iff _ _ _).mp h with ⟨_, g, taken, hglyphs, _⟩
      rw [List.getLast?_eq_none_iff, Text.runes, hglyphs] at hend
      cases hend

/-- The character in front of a word on its line is none that words are made of,
    unless a number ends there. -/
theorem Tokenised.not_continues_before {above rest : Text} {us : List Token}
    (h : Tokenised above us rest) {c : Rune} (hc : rest.runes.head? = some c)
    (hcontinues : c.continuesWord = true)
    (hnumber : ∀ u ∈ us, u.kind = .number →
      u.pos.afterAll u.lexeme.glyphs ≠ Position.behind above) {d : Rune}
    (hd : above.lastLine.runes.getLast? = some d) : d.continuesWord = false := by
  have hrest : rest ≠ [] := by
    rintro rfl
    cases hc
  have hlast := Text.getLast?_runes_lastLine hd
  cases h with
  | start hgap =>
      have hne : above ≠ [] := by
        rintro rfl
        cases hlast
      exact @not_continues_of_gap [] _ (hgap.closed hrest) hne d hlast
  | @token before gap _ us u hbefore hlongest hpos hgap =>
      by_cases hgapless : gap = []
      · subst hgapless
        rw [List.append_nil] at hlast hnumber
        rw [List.nil_append] at hbefore hlongest
        have hne : u.lexeme ++ rest ≠ [] := List.append_ne_nil_of_left_ne_nil
          hlongest.lexeme.ne_nil _
        have hwhole := hbefore.whole hne
        have hended := hlongest.lexeme.getLast?_runes hwhole hlast
        have hkind : u.kind ≠ .number := by
          intro hkind
          refine hnumber u (List.mem_append_right us (List.mem_singleton.mpr rfl)) hkind ?_
          rw [hpos, Position.behind_append hwhole]
        have hword : ¬ IsWord u.lexeme := by
          intro hword
          rw [hlongest.not_continues hword hc] at hcontinues
          cases hcontinues
        exact not_continues_of_lexeme hlongest.lexeme hkind hword hended
      · rw [← List.append_assoc] at hlast
        exact not_continues_of_gap (hgap.closed hrest) hgapless hlast

end Lexicon

end PocketScript
