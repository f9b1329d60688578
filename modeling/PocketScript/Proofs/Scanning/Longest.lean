import PocketScript.Proofs.Scanning.Lexicon

/-!
# The longest lexeme

Where a token starts, the scanner takes the longest beginning of the source that
is a lexeme.

The reader of tokens never compares lengths. It looks at one character, decides
which sort of token stands there, and goes on as far as that sort of token goes.
Two things make this the longest match. The sorts do not overlap in their first
character, so there is no second sort to compare with (`Scanned.read_quote` and
its neighbours). And each sort is read greedily, so that a shorter token of the
same sort is a beginning of what is read (`Scanned.Spelled.read_ge`).

Lexemes are bytes and the reader sees characters. A lexeme at the start of a
source is also at the start of its characters, because nothing that follows a
lexeme changes how it is read.

## Main definitions

* `Lexicon.Longest`: A token with the longest lexeme that an input starts with.

## Theorems

* `Scanned.Spelled.read_ge`: The reader stops no earlier than any token that
  starts here.
* `Lexicon.isLexeme_of_read`: What is read is a lexeme.
* `Lexicon.Longest.read_eq`: The longest lexeme is what is read.
* `Lexicon.read_of_none`: Where there is no lexeme, what is read is a fault.
-/

namespace PocketScript

/-! ### Sorts of tokens by their first character -/

/-- The characters that operators start with start nothing else. -/
theorem Kind.apart_of_single {r : Rune} {k : Kind} (h : ofSingle? r = some k) :
    r.isQuote = false ∧ r.startsWord = false ∧ r.isDigit = false := by
  unfold ofSingle? at h
  split at h <;> cases h <;> decide

theorem Kind.apart_of_pair {r s : Rune} {k : Kind} (h : ofPair? r s = some k) :
    r.isQuote = false ∧ r.startsWord = false ∧ r.isDigit = false := by
  unfold ofPair? at h
  split at h <;> cases h <;> decide

theorem Rune.not_startsWord_of_isQuote {r : Rune} (h : r.isQuote = true) :
    r.startsWord = false := by
  simp only [isQuote, Bool.or_eq_true, beq_iff_eq] at h
  rcases h with rfl | rfl <;> decide

theorem Rune.not_startsWord_of_isDigit {r : Rune} (h : r.isDigit = true) :
    r.startsWord = false := by
  have hall : ∀ d ∈ List.range' 48 10, Rune.startsWord d = false := by decide
  simp only [isDigit, Bool.and_eq_true, decide_eq_true_eq] at h
  refine hall r (List.mem_range'_1.mpr ⟨h.1, ?_⟩)
  exact Nat.lt_succ_of_le h.2

theorem Rune.not_isQuote_of_isDigit {r : Rune} (h : r.isDigit = true) : r.isQuote = false := by
  cases hq : r.isQuote with
  | false => rfl
  | true =>
      simp only [isQuote, Bool.or_eq_true, beq_iff_eq] at hq
      rcases hq with rfl | rfl <;> cases h

namespace Scanned

variable {g : Glyph} {rest : List Glyph}

theorem operator?_eq_none
    (h : g.code.isQuote = true ∨ g.code.startsWord = true ∨ g.code.isDigit = true) :
    operator? g rest = none := by
  have hpair : (rest.head?.bind fun c => Kind.ofPair? g.code c.code) = none := by
    rw [Option.bind_eq_none_iff]
    intro c _
    cases hk : Kind.ofPair? g.code c.code with
    | none => rfl
    | some k =>
        rcases Kind.apart_of_pair hk with ⟨hq, hw, hd⟩
        simp [hq, hw, hd] at h
  have hsingle : Kind.ofSingle? g.code = none := by
    cases hk : Kind.ofSingle? g.code with
    | none => rfl
    | some k =>
        rcases Kind.apart_of_single hk with ⟨hq, hw, hd⟩
        simp [hq, hw, hd] at h
  rw [operator?, hpair, hsingle]
  rfl

theorem read_quote (h : g.code.isQuote = true) : read g rest = quoted g rest := by
  rw [read, operator?_eq_none (Or.inl h)]
  exact if_pos h

theorem read_word (h : g.code.startsWord = true) : read g rest = word g rest := by
  have hq : ¬ g.code.isQuote = true := by
    intro hq
    rw [Rune.not_startsWord_of_isQuote hq] at h
    cases h
  rw [read, operator?_eq_none (Or.inr (Or.inl h))]
  exact (if_neg hq).trans (if_pos h)

theorem read_digit (h : g.code.isDigit = true) : read g rest = numeral g rest := by
  rw [read, operator?_eq_none (Or.inr (Or.inr h))]
  simp only [Rune.not_isQuote_of_isDigit h, Rune.not_startsWord_of_isDigit h, h, if_true,
    Bool.false_eq_true, if_false]

/-- An unexpected character is no quote. -/
theorem not_quote_of_unexpected (h : read g rest = .unexpected) : g.code.isQuote = false := by
  cases hq : g.code.isQuote with
  | false => rfl
  | true =>
      rw [read_quote hq, quoted] at h
      split at h <;> cases h

theorem numeral_ge (rest : List Glyph) : ∃ l more, numeral g rest =
    .token .number l ((rest.takeWhile fun c => c.code.isDigit).length + more) := by
  rcases numeral_cases rest with
    ⟨digits, tail, rfl, hd, hp⟩ | ⟨digits, p, fraction, tail, rfl, hd, hp, hf, hne⟩
  · rw [numeral_whole hd hp, hd]
    exact ⟨_, 0, rfl⟩
  · have hstop : (digits ++ p :: (fraction ++ tail)).takeWhile (fun c => c.code.isDigit) =
        digits := by
      refine takeWhile_stop hd ?_
      intro c r hc
      rw [← (List.cons.inj hc).1, hp]
      rfl
    rw [numeral_fraction hd hp hf hne, hstop, Nat.add_assoc]
    exact ⟨_, _, rfl⟩

/-- A string that goes on to the end of the source starts with a quote. -/
theorem quote_of_unterminated (h : read g rest = .unterminated) : g.code.isQuote = true := by
  cases hq : g.code.isQuote with
  | true => rfl
  | false =>
      rw [read] at h
      cases hop : operator? g rest with
      | some s =>
          rw [hop] at h
          simp only at h
          subst h
          rw [operator?] at hop
          split at hop
          · cases hop
          · rcases Option.map_eq_some_iff.mp hop with ⟨k, _, hk⟩
            cases hk
      | none =>
          rw [hop] at h
          simp only [hq, Bool.false_eq_true, if_false] at h
          split at h
          · cases h
          · split at h
            · rcases numeral_ge (g := g) rest with ⟨l, more, hnumeral⟩
              rw [hnumeral] at h
              cases h
            · cases h

/-! ### Reading greedily -/

/-- The reader stops no earlier than any token that starts here, and if it stops
    with that token it gives the same kind. -/
theorem Spelled.read_ge {taken : List Glyph} {k : Kind} (h : Spelled g taken k)
    (tail : List Glyph) : ∃ k' l more,
      read g (taken ++ tail) = .token k' l (taken.length + more) ∧ (more = 0 → k' = k) := by
  cases h with
  | single hk =>
      rw [read, operator?, List.nil_append]
      cases hpair : tail.head?.bind fun c => Kind.ofPair? g.code c.code with
      | some kind => exact ⟨kind, none, 1, rfl, fun h => absurd h Nat.one_ne_zero⟩
      | none =>
          rw [hk]
          exact ⟨k, none, 0, rfl, fun _ => rfl⟩
  | @pair c k hk =>
      refine ⟨k, none, 0, ?_, fun _ => rfl⟩
      simp only [read, operator?, List.cons_append, List.head?_cons, Option.bind_some, hk,
        List.length_singleton]
  | @quoted inside q hg hin hq =>
      have hstop : (inside ++ [q] ++ tail).takeWhile (fun c => c.code != g.code) = inside := by
        rw [List.append_assoc]
        refine takeWhile_stop (fun c hc => bne_iff_ne.mpr (hin c hc)) ?_
        intro c r hc
        rw [← (List.cons.inj hc).1, hq]
        exact bne_self_eq_false _
      rw [read_quote hg, Scanned.quoted, hstop, if_pos (by simp)]
      exact ⟨_, _, 0, by rw [List.length_append]; rfl, fun _ => rfl⟩
  | word hg hmore =>
      have hrun : (taken ++ tail).takeWhile (fun c => c.code.continuesWord) =
          taken ++ tail.takeWhile fun c => c.code.continuesWord :=
        List.takeWhile_append_of_pos hmore
      rw [read_word hg, Scanned.word, hrun]
      refine ⟨_, _, _, by rw [List.length_append], fun hnone => ?_⟩
      rw [List.length_eq_zero_iff.mp hnone, List.append_nil]
  | whole hg hdigits =>
      have hrun : (taken ++ tail).takeWhile (fun c => c.code.isDigit) =
          taken ++ tail.takeWhile fun c => c.code.isDigit :=
        List.takeWhile_append_of_pos hdigits
      rcases numeral_ge (g := g) (taken ++ tail) with ⟨l, more, hnumeral⟩
      rw [hrun, List.length_append, Nat.add_assoc] at hnumeral
      rw [read_digit hg, hnumeral]
      exact ⟨_, _, _, rfl, fun _ => rfl⟩
  | @fraction digits fraction p hg hdigits hp hf hne =>
      -- The digits that follow belong to the fraction too.
      have hsplit := List.takeWhile_append_dropWhile (p := fun c : Glyph => c.code.isDigit)
        (l := tail)
      have hfraction : (fraction ++ (tail.takeWhile fun c => c.code.isDigit) ++
          tail.dropWhile fun c => c.code.isDigit).takeWhile (fun c => c.code.isDigit) =
          fraction ++ tail.takeWhile fun c => c.code.isDigit := by
        rw [List.append_assoc, hsplit]
        exact List.takeWhile_append_of_pos hf
      have hnumeral := numeral_fraction (g := g) hdigits hp hfraction (by simp [hne])
      rw [List.append_assoc, hsplit] at hnumeral
      have hlen : ∀ run : List Glyph, digits.length + 1 + (fraction ++ run).length =
          (digits ++ p :: fraction).length + run.length := by
        intro run
        simp only [List.length_append, List.length_cons]
        omega
      rw [read_digit hg, List.append_assoc, List.cons_append, hnumeral, hlen]
      exact ⟨_, _, _, rfl, fun _ => rfl⟩

end Scanned

/-! ### Lexemes -/

namespace Lexicon

/-- The token has the longest lexeme that the input starts with. -/
structure Longest (input : Text) (t : Token) : Prop where
  lexeme : IsLexeme t.lexeme t.kind t.literal
  starts : t.lexeme <+: input
  longest : ∀ u k l, IsLexeme u k l → u <+: input → u.length ≤ t.lexeme.length

variable {input : Text} {g : Glyph} {rest : List Glyph}

/-- What is read is a lexeme that the input starts with. -/
theorem isLexeme_of_read {taken tail : List Glyph} {k : Kind} {l : Option Literal}
    (hinput : input.glyphs = g :: (taken ++ tail))
    (h : Scanned.read g (taken ++ tail) = .token k l taken.length) :
    IsLexeme (Text.ofGlyphs (g :: taken)) k l ∧ Text.ofGlyphs (g :: taken) <+: input := by
  have hproper : ∀ c ∈ g :: (taken ++ tail), c.Proper := by
    intro c hc
    rw [← hinput] at hc
    exact Text.proper_of_mem_glyphs hc
  have hvalue := Scanned.read_literal hproper h
  rw [List.take_left] at hvalue
  rw [← List.cons_append] at hinput
  refine ⟨?_, Text.ofGlyphs tail, ?_⟩
  · exact (isLexeme_iff _ _ _).mpr
      ⟨hvalue, g, taken, (Text.glyphs_split hinput).1, Scanned.spelled_of_read h⟩
  · rw [← Text.ofGlyphs_append, ← hinput, Text.glyphs_spell]

/-- The longest lexeme is what is read. -/
theorem Longest.read_eq {t : Token} {after : Text} (h : Longest (t.lexeme ++ after) t) :
    ∃ g taken, t.lexeme.glyphs = g :: taken ∧
      Scanned.read g (taken ++ after.glyphs) = .token t.kind t.literal taken.length := by
  rcases (isLexeme_iff _ _ _).mp h.lexeme with ⟨hvalue, g, taken, hglyphs, hspelled⟩
  refine ⟨g, taken, hglyphs, ?_⟩
  have hinput : (t.lexeme ++ after).glyphs = g :: (taken ++ after.glyphs) := by
    rw [h.lexeme.isWhole, hglyphs, List.cons_append]
  rcases hspelled.read_ge after.glyphs with ⟨k, l, more, hread, hkind⟩
  -- What is read goes on for `extra` behind the lexeme, if at all.
  rcases Scanned.read_spelled hread with ⟨run, tail, hsplit, hlen, _⟩
  have hrun : taken <+: run := List.prefix_of_prefix_length_le (List.prefix_append taken _)
    (hsplit ▸ List.prefix_append run tail) (by omega)
  rcases hrun with ⟨extra, rfl⟩
  rw [List.length_append] at hlen
  have hafter : after.glyphs = extra ++ tail := by
    rw [List.append_assoc] at hsplit
    exact List.append_cancel_left hsplit
  -- It is a lexeme too, so it is not longer.
  have hextra : extra = [] := by
    rw [hsplit] at hinput
    have hlexeme : Scanned.read g (taken ++ extra ++ tail) =
        .token k l (taken ++ extra).length := by
      rw [← hsplit, hread, List.length_append, hlen]
    rcases isLexeme_of_read hinput hlexeme with ⟨hshown, hstarts⟩
    have hle := h.longest _ _ _ hshown hstarts
    rw [← List.cons_append, ← hglyphs, Text.ofGlyphs_append, Text.glyphs_spell,
      List.length_append] at hle
    have hnone : Text.ofGlyphs extra = [] := List.length_eq_zero_iff.mp (by omega)
    rw [← (Text.glyphs_split hafter).1, hnone]
    rfl
  subst hextra
  rw [List.length_nil, Nat.add_left_cancel_iff] at hlen
  rw [← hlen, Nat.add_zero] at hread
  have hproper : ∀ c ∈ g :: (taken ++ after.glyphs), c.Proper := by
    intro c hc
    rw [← hinput] at hc
    exact Text.proper_of_mem_glyphs hc
  have hl := Scanned.read_literal hproper hread
  rw [List.take_left, ← hglyphs, Text.glyphs_spell, hkind hlen.symm, ← hvalue] at hl
  rw [hread, hkind hlen.symm, hl]

/-- A lexeme with nothing behind it is the longest there is. -/
theorem IsLexeme.longest {t : Token} (h : IsLexeme t.lexeme t.kind t.literal) :
    Longest t.lexeme t :=
  ⟨h, List.prefix_rfl, fun _ _ _ _ hstarts => hstarts.length_le⟩

/-- Some lexeme that the input starts with is the longest, if there is one at
    all. -/
theorem exists_longest {u : Text} {k : Kind} {l : Option Literal} (h : IsLexeme u k l)
    (hstarts : u <+: input) (p : Position) : ∃ t, Longest input t ∧ t.pos = p := by
  -- The bound on how much longer a lexeme can be goes down.
  induction hn : input.length - u.length using Nat.strong_induction_on generalizing u k l with
  | _ n ih =>
    by_cases hlonger : ∃ u' k' l', IsLexeme u' k' l' ∧ u' <+: input ∧ u.length < u'.length
    · rcases hlonger with ⟨u', k', l', h', hstarts', hlt⟩
      have hle := hstarts'.length_le
      exact ih (input.length - u'.length) (by omega) h' hstarts' rfl
    · refine ⟨⟨k, u, l, p⟩, ⟨h, hstarts, fun u' k' l' h' hstarts' => ?_⟩, rfl⟩
      by_contra hlt
      exact hlonger ⟨u', k', l', h', hstarts', Nat.lt_of_not_le hlt⟩

/-- Where the input starts with no lexeme, what is read is a fault, and a quote
    decides which. -/
theorem read_of_none (hinput : input.glyphs = g :: rest)
    (h : ∀ u k l, IsLexeme u k l → ¬ u <+: input) :
    Scanned.read g rest = if g.code.isQuote then .unterminated else .unexpected := by
  cases hread : Scanned.read g rest with
  | unexpected => rw [Scanned.not_quote_of_unexpected hread]; rfl
  | unterminated => rw [Scanned.quote_of_unterminated hread]; rfl
  | token k l more =>
      rcases Scanned.read_spelled hread with ⟨taken, tail, rfl, rfl, _⟩
      rcases isLexeme_of_read hinput hread with ⟨hlexeme, hstarts⟩
      exact absurd hstarts (h _ _ _ hlexeme)

end Lexicon

end PocketScript
