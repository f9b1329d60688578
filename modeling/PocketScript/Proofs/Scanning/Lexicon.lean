import PocketScript.Proofs.Number.Nearest
import PocketScript.Proofs.Scanning.Literals
import PocketScript.Proofs.Text.Whole

/-!
# The lexicon

What the tokens of the language are, said of bytes and without a scanner.

A lexeme is a symbol, a word, a number or a string. Symbols are written like
the names of their kinds. A word is made of letters, digits and underscores and
does not start with a digit, and twelve words are reserved. A number is digits,
and a point with digits after it if it has one. A string is whatever stands
between two quotes of one sort. `IsLexeme` lists these together with the kind
and the value that go with each. The value of a number is the double nearest to
what its digits name, each digit by its place.

The scanner works on characters, and `Scanned.Spelled` lists the shapes that it
recognises among them. The two lists say the same (`isLexeme_iff`), and a lexeme
is always read the same in front of anything (`IsLexeme.isWhole`). Everything else
about the scanner can therefore be said of bytes and proved of characters.

## Main definitions

* `Kind.symbols`: The punctuation and the operators.
* `Lexicon.reservedWords`: The twelve reserved words.
* `Lexicon.IsWord`, `Lexicon.IsDigits`: The characters of words and numbers.
* `Lexicon.wholeValue`, `Lexicon.fractionValue`: What digits name.
* `Lexicon.IsLexeme`: The lexemes with their kinds and values.

## Theorems

* `Lexicon.mem_keywords_iff`: The scanner has the same reserved words.
* `Lexicon.nearest_ofDigits`: It reads the double nearest to a number.
* `Lexicon.isLexeme_iff`: Lexemes are what is spelled like a token.
* `Lexicon.IsLexeme.isWhole`: A lexeme is read the same in front of anything.
-/

namespace PocketScript

/-- The punctuation and the operators. -/
def Kind.symbols : List Kind :=
  [leftParen, rightParen, leftBrace, rightBrace, comma, semicolon, plus, minus, star, slash,
    percent, assign, bang, less, greater, equal, notEqual, lessEqual, greaterEqual, both, either,
    increment, decrement, plusAssign, minusAssign, starAssign, slashAssign, percentAssign]

namespace Lexicon

/-- A letter or an underscore, and then letters, digits and underscores. -/
def IsWord (w : Text) : Prop :=
  ∃ r rs, w.runes = r :: rs ∧ (r.isLetter = true ∨ r = 95) ∧
    ∀ s ∈ rs, s.isLetter = true ∨ s.isDecimalDigit = true ∨ s = 95

/-- At least one of the digits from 0 to 9, and nothing else. -/
def IsDigits (ds : Text) : Prop := ds ≠ [] ∧ ∀ b ∈ ds, 48 ≤ b.toNat ∧ b.toNat ≤ 57

/-- The reserved words, each with its kind. -/
def reservedWords : List (Text × Kind) :=
  [("func", .funcWord), ("return", .returnWord), ("if", .ifWord), ("else", .elseWord),
    ("while", .whileWord), ("break", .breakWord), ("continue", .continueWord),
    ("del", .delWord), ("echo", .echoWord), ("true", .trueWord), ("false", .falseWord),
    ("null", .nullWord)]

/-- The number that digits name. -/
def wholeValue : Text → ℚ
  | [] => 0
  | b :: ds => (b.toNat - 48 : Nat) * 10 ^ ds.length + wholeValue ds

/-- The number that digits name behind a point. -/
def fractionValue : Text → ℚ
  | [] => 0
  | b :: fs => ((b.toNat - 48 : Nat) + fractionValue fs) / 10

/-- The lexemes of the language, each with its kind and its value. -/
inductive IsLexeme : Text → Kind → Option Literal → Prop where
  | symbol {k : Kind} : k ∈ Kind.symbols → IsLexeme k.name k none
  | name {w : Text} :
      IsWord w → (∀ k, (w, k) ∉ reservedWords) → IsLexeme w .identifier none
  | reserved {w : Text} {k : Kind} :
      (w, k) ∈ reservedWords → k ∉ [.trueWord, .falseWord, .nullWord] → IsLexeme w k none
  | trueWord : IsLexeme "true" .trueWord (some (.bool true))
  | falseWord : IsLexeme "false" .falseWord (some (.bool false))
  | nullWord : IsLexeme "null" .nullWord (some .null)
  | whole {ds : Text} {x : Float} :
      IsDigits ds → Binary.Nearest (wholeValue ds) x → IsLexeme ds .number (some (.number x))
  | fraction {ds fs : Text} {x : Float} :
      IsDigits ds → IsDigits fs → Binary.Nearest (wholeValue ds + fractionValue fs) x →
      IsLexeme (ds ++ Decimal.point :: fs) .number (some (.number x))
  | quoted {q : UInt8} {inside : Text} :
      q = 34 ∨ q = 39 → q ∉ inside →
      IsLexeme (q :: (inside ++ [q])) .string (some (.string inside))

end Lexicon

/-! ### Symbols -/

namespace Kind

theorem symbol_of_single {r : Rune} {k : Kind} (h : ofSingle? r = some k) :
    k ∈ symbols ∧ r < 128 ∧ k.name = [r.toUInt8] := by
  unfold ofSingle? at h
  split at h <;> cases h <;> exact ⟨by decide, by decide, rfl⟩

theorem symbol_of_pair {r s : Rune} {k : Kind} (h : ofPair? r s = some k) :
    k ∈ symbols ∧ r < 128 ∧ s < 128 ∧ k.name = [r.toUInt8, s.toUInt8] := by
  unfold ofPair? at h
  split at h <;> cases h <;> exact ⟨by decide, by decide, by decide, rfl⟩

/-- The kind of a symbol that is written like this. -/
def ofSymbol? : Text → Option Kind
  | [a] => ofSingle? a.toNat
  | [a, b] => ofPair? a.toNat b.toNat
  | _ => none

theorem ofSymbol?_name : ∀ k ∈ symbols, ofSymbol? k.name = some k := by decide

/-- A symbol is written with one character or with two. -/
theorem name_cases {k : Kind} (hk : k ∈ symbols) :
    (∃ a, k.name = [a] ∧ ofSingle? a.toNat = some k) ∨
      ∃ a b, k.name = [a, b] ∧ ofPair? a.toNat b.toNat = some k := by
  have hname := ofSymbol?_name k hk
  rcases hk' : k.name with _ | ⟨a, _ | ⟨b, _ | ⟨c, t⟩⟩⟩
  · rw [hk'] at hname
    cases hname
  · rw [hk'] at hname
    exact Or.inl ⟨a, rfl, hname⟩
  · rw [hk'] at hname
    exact Or.inr ⟨a, b, rfl, hname⟩
  · rw [hk'] at hname
    cases hname

theorem low_of_mem_name {k : Kind} (hk : k ∈ symbols) : ∀ b ∈ k.name, Text.isHigh b = false := by
  intro b hb
  simp only [Text.isHigh, decide_eq_false_iff_not, Nat.not_le]
  rcases name_cases hk with ⟨a, hname, ha⟩ | ⟨a, a', hname, ha⟩
  · rw [hname, List.mem_singleton] at hb
    rw [hb]
    exact (symbol_of_single ha).2.1
  · rw [hname, List.mem_cons, List.mem_singleton] at hb
    rcases hb with rfl | rfl
    · exact (symbol_of_pair ha).2.1
    · exact (symbol_of_pair ha).2.2.1

theorem literalOf_symbol (u : Text) : ∀ k ∈ symbols, Token.literalOf k u = none := by
  simp only [symbols, List.forall_mem_cons, Token.literalOf, Scanned.constant?]
  simp

end Kind

/-! ### Words -/

namespace Rune

theorem startsWord_iff (r : Rune) : r.startsWord = true ↔ r.isLetter = true ∨ r = 95 := by
  simp only [startsWord, Bool.or_eq_true, beq_iff_eq]

theorem continuesWord_iff (r : Rune) :
    r.continuesWord = true ↔ r.isLetter = true ∨ r.isDecimalDigit = true ∨ r = 95 := by
  simp only [continuesWord, Bool.or_eq_true, beq_iff_eq, or_assoc]

theorem continuesWord_of_startsWord {r : Rune} (h : r.startsWord = true) :
    r.continuesWord = true := by
  rw [startsWord_iff] at h
  rw [continuesWord_iff]
  exact h.imp id Or.inr

/-- No word holds a broken character. -/
theorem ne_replacement_of_continuesWord {r : Rune} (h : r.continuesWord = true) :
    r ≠ replacement := by
  rintro rfl
  exact absurd h (by decide +kernel)

end Rune

namespace Lexicon

theorem isWord_iff (w : Text) :
    IsWord w ↔ ∃ g taken, w.glyphs = g :: taken ∧ g.code.startsWord = true ∧
      ∀ c ∈ taken, c.code.continuesWord = true := by
  constructor
  · rintro ⟨r, rs, hw, hr, hrs⟩
    rw [Text.runes, List.map_eq_cons_iff] at hw
    rcases hw with ⟨g, taken, hglyphs, rfl, rfl⟩
    refine ⟨g, taken, hglyphs, (Rune.startsWord_iff _).mpr hr, fun c hc => ?_⟩
    exact (Rune.continuesWord_iff _).mpr (hrs _ (List.mem_map_of_mem hc))
  · rintro ⟨g, taken, hglyphs, hg, htaken⟩
    refine ⟨g.code, taken.map Glyph.code, by rw [Text.runes, hglyphs, List.map_cons],
      (Rune.startsWord_iff _).mp hg, ?_⟩
    intro s hs
    rcases List.mem_map.mp hs with ⟨c, hc, rfl⟩
    exact (Rune.continuesWord_iff _).mp (htaken c hc)

theorem IsWord.whole {w : Text} (h : IsWord w) : w.Whole := by
  rcases (isWord_iff w).mp h with ⟨g, taken, hglyphs, hg, htaken⟩
  refine Text.whole_of_readable fun c hc => Rune.ne_replacement_of_continuesWord ?_
  rw [Text.runes, hglyphs, List.map_cons] at hc
  rcases List.mem_cons.mp hc with rfl | hc
  · exact Rune.continuesWord_of_startsWord hg
  · rcases List.mem_map.mp hc with ⟨d, hd, rfl⟩
    exact htaken d hd

/-- Do these characters make a word? -/
def spellsWord : List Rune → Bool
  | [] => false
  | r :: rs => r.startsWord && rs.all Rune.continuesWord

theorem isWord_of_spellsWord {w : Text} (h : spellsWord w.runes = true) : IsWord w := by
  cases hw : w.runes with
  | nil => rw [hw] at h; cases h
  | cons r rs =>
      simp only [hw, spellsWord, Bool.and_eq_true, List.all_eq_true] at h
      exact ⟨r, rs, hw, (Rune.startsWord_iff r).mp h.1,
        fun s hs => (Rune.continuesWord_iff s).mp (h.2 s hs)⟩

/-- The scanner has the same reserved words. -/
theorem mem_keywords_iff (entry : Text × Kind) :
    entry ∈ Kind.keywords ↔ entry ∈ reservedWords := by
  have hperm : Kind.keywords.Perm reservedWords := by decide
  exact hperm.mem_iff

theorem not_mem_keywordNames_iff (w : Text) :
    w ∉ Kind.keywordNames ↔ ∀ k, (w, k) ∉ reservedWords := by
  simp only [Kind.keywordNames, List.mem_map, Prod.exists, exists_and_right, exists_eq_right,
    not_exists, mem_keywords_iff]

/-- Every reserved word is a word. -/
theorem isWord_of_keyword {w : Text} {k : Kind} (h : (w, k) ∈ Kind.keywords) : IsWord w := by
  have hall : ∀ entry ∈ Kind.keywords, spellsWord entry.1.runes = true := by decide +kernel
  exact isWord_of_spellsWord (hall (w, k) h)

theorem ofWord_of_keyword {w : Text} {k : Kind} (h : (w, k) ∈ Kind.keywords) :
    Kind.ofWord w = k := by
  have hall : ∀ entry ∈ Kind.keywords, Kind.ofWord entry.1 = entry.2 := by decide +kernel
  exact hall (w, k) h

theorem ofWord_of_name {w : Text} (h : w ∉ Kind.keywordNames) : Kind.ofWord w = .identifier := by
  rw [Kind.ofWord, List.lookup_eq_none_iff.mpr, Option.getD_none]
  intro entry hentry
  rw [bne_iff_ne]
  rintro rfl
  exact h (List.mem_map_of_mem hentry)

theorem constant?_of_plain {w : Text} {k : Kind} (h : (w, k) ∈ Kind.keywords)
    (hk : k ∉ [.trueWord, .falseWord, .nullWord]) : Scanned.constant? k = none := by
  have hall : ∀ entry ∈ Kind.keywords, entry.2 ∉ [.trueWord, .falseWord, .nullWord] →
      Scanned.constant? entry.2 = none := by decide
  exact hall (w, k) h hk

/-- A reserved word is a lexeme, and three of them have values. -/
theorem isLexeme_keyword {w : Text} {k : Kind} (h : (w, k) ∈ Kind.keywords) :
    IsLexeme w k (Scanned.constant? k) := by
  by_cases hk : k ∈ [.trueWord, .falseWord, .nullWord]
  · have hall : ∀ entry ∈ Kind.keywords, entry.2 ∈ [.trueWord, .falseWord, .nullWord] →
        entry ∈ [(utf8 "true", .trueWord), (utf8 "false", .falseWord),
          (utf8 "null", .nullWord)] := by
      decide
    have hentry := hall (w, k) h hk
    simp only [List.mem_cons, List.not_mem_nil, or_false, Prod.mk.injEq] at hentry
    rcases hentry with ⟨rfl, rfl⟩ | ⟨rfl, rfl⟩ | ⟨rfl, rfl⟩
    · exact .trueWord
    · exact .falseWord
    · exact .nullWord
  · rw [constant?_of_plain h hk]
    exact .reserved ((mem_keywords_iff _).mp h) hk

/-- A word is a lexeme of the kind that the table of reserved words gives. -/
theorem isLexeme_word {w : Text} (h : IsWord w) :
    IsLexeme w (Kind.ofWord w) (Token.literalOf (Kind.ofWord w) w) := by
  rw [Scanned.literalOf_ofWord]
  by_cases hname : w ∈ Kind.keywordNames
  · rcases List.mem_map.mp hname with ⟨⟨w', k⟩, hmem, rfl⟩
    rw [ofWord_of_keyword hmem]
    exact isLexeme_keyword hmem
  · rw [ofWord_of_name hname]
    exact .name h ((not_mem_keywordNames_iff w).mp hname)

/-! ### Numbers -/

theorem IsDigits.low {ds : Text} (h : IsDigits ds) : ∀ b ∈ ds, Text.isHigh b = false := by
  intro b hb
  have hbound := (h.2 b hb).2
  simp only [Text.isHigh, decide_eq_false_iff_not]
  omega

theorem isDigitByte_iff (b : UInt8) : Token.isDigitByte b = true ↔ 48 ≤ b.toNat ∧ b.toNat ≤ 57 := by
  simp only [Token.isDigitByte, Rune.isDigit, Bool.and_eq_true, decide_eq_true_eq]

theorem natOfDigits_cons (b : UInt8) (ds : Text) : (Number.natOfDigits (b :: ds) : ℚ) =
    (b.toNat - 48 : Nat) * 10 ^ ds.length + Number.natOfDigits ds := by
  have hone : Number.natOfDigits [b] = b.toNat - 48 := by simp [Number.natOfDigits]
  rw [← List.singleton_append, Number.natOfDigits_append, hone]
  push_cast
  rfl

theorem wholeValue_eq (ds : Text) : wholeValue ds = Number.natOfDigits ds := by
  induction ds with
  | nil => exact Nat.cast_zero.symm
  | cons b ds ih => rw [wholeValue, ih, natOfDigits_cons]

theorem fractionValue_eq (fs : Text) :
    fractionValue fs = Number.natOfDigits fs / 10 ^ fs.length := by
  induction fs with
  | nil => simp [fractionValue, Number.natOfDigits]
  | cons b fs ih =>
      rw [fractionValue, ih, natOfDigits_cons, List.length_cons, pow_succ]
      field_simp

/-- The scanner reads the double nearest to a number. -/
theorem nearest_ofDigits (ds fs : Text) :
    Binary.Nearest (wholeValue ds + fractionValue fs) (Number.ofDigits ds fs) := by
  have hpos : 0 < tenTo fs.length := Nat.pow_pos (by decide)
  have hvalue : wholeValue ds + fractionValue fs =
      Number.natOfDigits (ds ++ fs) / (tenTo fs.length : Nat) := by
    rw [wholeValue_eq, fractionValue_eq, Number.natOfDigits_append, cast_tenTo]
    push_cast
    field_simp
  rw [hvalue]
  exact Binary.nearest_nearest _ hpos

/-- The value of a number without a point. -/
theorem literalOf_whole {ds : Text} (h : IsDigits ds) :
    Token.literalOf .number ds = some (.number (Number.ofDigits ds [])) := by
  have hall : ∀ b ∈ ds, Token.isDigitByte b = true := fun b hb => (isDigitByte_iff b).mpr (h.2 b hb)
  rw [Token.literalOf, List.takeWhile_eq_self_iff.mpr hall, List.dropWhile_eq_nil_iff.mpr hall]
  rfl

/-- The value of a number with a point. -/
theorem literalOf_fraction {ds : Text} (h : IsDigits ds) (fs : Text) :
    Token.literalOf .number (ds ++ Decimal.point :: fs) =
      some (.number (Number.ofDigits ds fs)) := by
  have hall : ∀ b ∈ ds, Token.isDigitByte b = true := fun b hb => (isDigitByte_iff b).mpr (h.2 b hb)
  have hpoint : Token.isDigitByte Decimal.point = false := rfl
  rw [Token.literalOf, List.takeWhile_append_of_pos hall, List.dropWhile_append_of_pos hall,
    List.takeWhile_cons_of_neg (by simp [hpoint]), List.dropWhile_cons_of_neg (by simp [hpoint]),
    List.append_nil]
  rfl

/-! ### Lexemes and their spelling -/

open Scanned (Spelled)

theorem spelled_symbol {k : Kind} (hk : k ∈ Kind.symbols) :
    ∃ g taken, k.name.glyphs = g :: taken ∧ Spelled g taken k := by
  rw [Text.glyphs_of_low (Kind.low_of_mem_name hk)]
  rcases Kind.name_cases hk with ⟨a, hname, ha⟩ | ⟨a, b, hname, hab⟩
  · rw [hname]
    exact ⟨_, _, rfl, .single ha⟩
  · rw [hname]
    exact ⟨_, _, rfl, .pair hab⟩

theorem spelled_word {w : Text} (h : IsWord w) :
    ∃ g taken, w.glyphs = g :: taken ∧ Spelled g taken (Kind.ofWord w) := by
  rcases (isWord_iff w).mp h with ⟨g, taken, hglyphs, hg, htaken⟩
  have hspelled := Spelled.word hg htaken
  rw [← hglyphs, Text.glyphs_spell] at hspelled
  exact ⟨g, taken, hglyphs, hspelled⟩

theorem spelled_keyword {w : Text} {k : Kind} (h : (w, k) ∈ Kind.keywords) :
    ∃ g taken, w.glyphs = g :: taken ∧ Spelled g taken k := by
  have hspelled := spelled_word (isWord_of_keyword h)
  rw [ofWord_of_keyword h] at hspelled
  exact hspelled

theorem isDigit_of_mem_map {ds : Text} (h : IsDigits ds) :
    ∀ c ∈ ds.map fun b : UInt8 => (⟨b.toNat, [b]⟩ : Glyph), c.code.isDigit = true := by
  intro c hc
  rcases List.mem_map.mp hc with ⟨b, hb, rfl⟩
  exact (isDigitByte_iff b).mpr (h.2 b hb)

theorem spelled_whole {ds : Text} (h : IsDigits ds) :
    ∃ g taken, ds.glyphs = g :: taken ∧ Spelled g taken .number := by
  have hdigits := isDigit_of_mem_map h
  rw [Text.glyphs_of_low h.low]
  cases ds with
  | nil => exact absurd rfl h.1
  | cons d ds =>
      rw [List.map_cons] at hdigits ⊢
      exact ⟨_, _, rfl, .whole (hdigits _ List.mem_cons_self)
        fun c hc => hdigits c (List.mem_cons_of_mem _ hc)⟩

theorem spelled_fraction {ds fs : Text} (h : IsDigits ds) (hf : IsDigits fs) :
    ∃ g taken, (ds ++ Decimal.point :: fs).glyphs = g :: taken ∧ Spelled g taken .number := by
  have hdigits := isDigit_of_mem_map h
  have hcut : Text.CutsClean (Decimal.point :: fs) := Text.cutsClean_cons rfl fs
  rw [Text.glyphs_append ds hcut, Text.glyphs_cons_low rfl, Text.glyphs_of_low h.low,
    Text.glyphs_of_low hf.low]
  cases ds with
  | nil => exact absurd rfl h.1
  | cons d ds =>
      rw [List.map_cons] at hdigits ⊢
      refine ⟨_, _, rfl, .fraction (hdigits _ List.mem_cons_self)
        (fun c hc => hdigits c (List.mem_cons_of_mem _ hc)) rfl (isDigit_of_mem_map hf) ?_⟩
      rw [ne_eq, List.map_eq_nil_iff]
      exact hf.1

/-- A byte that is a character by itself stands among the bytes of a text where
    it stands among the characters. -/
theorem mem_of_code_eq {t : Text} {g : Glyph} (hg : g ∈ t.glyphs) {b : UInt8}
    (hb : Text.isHigh b = false) (hcode : g.code = b.toNat) : b ∈ t := by
  have hlow : b.toNat < 128 := by
    simpa only [Text.isHigh, decide_eq_false_iff_not, Nat.not_le] using hb
  rcases (Text.proper_of_mem_glyphs hg).bytes_of_low (hcode ▸ hlow) with ⟨b', hbytes, hb'⟩
  have hmem : b' ∈ Text.ofGlyphs t.glyphs :=
    List.mem_flatMap.mpr ⟨g, hg, hbytes ▸ List.mem_singleton_self b'⟩
  rw [Text.glyphs_spell] at hmem
  rw [← UInt8.toNat_inj.mp (hb'.trans hcode)]
  exact hmem

theorem spelled_quoted {q : UInt8} {inside : Text} (hq : q = 34 ∨ q = 39) (hin : q ∉ inside) :
    ∃ g taken, Text.glyphs (q :: (inside ++ [q])) = g :: taken ∧ Spelled g taken .string := by
  have hlow : Text.isHigh q = false := by rcases hq with rfl | rfl <;> rfl
  have hquote : Rune.isQuote q.toNat = true := by rcases hq with rfl | rfl <;> rfl
  rw [Text.glyphs_cons_low hlow, Text.glyphs_append inside (Text.cutsClean_cons hlow []),
    Text.glyphs_cons_low hlow, Text.glyphs_nil]
  refine ⟨_, _, rfl, .quoted hquote (fun c hc hcode => hin ?_) rfl⟩
  exact mem_of_code_eq hc hlow hcode

/-- A character with a low code is the byte of that code. -/
theorem bytes_eq_of_low {g : Glyph} (hg : g.Proper) (hlow : g.code < 128) :
    g.bytes = [g.code.toUInt8] := by
  rcases hg.bytes_of_low hlow with ⟨b, hbytes, hb⟩
  rw [hbytes, ← hb, Nat.toUInt8, UInt8.ofNat_toNat]

/-- A run of digits among characters is a run of digits among bytes. -/
theorem isDigits_ofGlyphs {digits : List Glyph} (hproper : ∀ c ∈ digits, c.Proper)
    (hdigits : ∀ c ∈ digits, c.code.isDigit = true) (hne : digits ≠ []) :
    IsDigits (Text.ofGlyphs digits) := by
  refine ⟨?_, fun b hb => (isDigitByte_iff b).mp (isDigitByte_of_mem_ofGlyphs hproper hdigits b hb)⟩
  cases digits with
  | nil => exact absurd rfl hne
  | cons g digits =>
      rw [Text.ofGlyphs_cons, bytes_eq_of_low (hproper g List.mem_cons_self)
        (Rune.lt_of_isDigit (hdigits g List.mem_cons_self))]
      exact List.cons_ne_nil _ _

section Converse

variable {g : Glyph} {taken : List Glyph} {k : Kind}

theorem isLexeme_single (hg : g.Proper) (hk : Kind.ofSingle? g.code = some k) :
    IsLexeme (Text.ofGlyphs [g]) k (Token.literalOf k (Text.ofGlyphs [g])) := by
  rcases Kind.symbol_of_single hk with ⟨hsymbol, hlow, hname⟩
  have htext : Text.ofGlyphs [g] = k.name := by
    rw [Text.ofGlyphs_cons, bytes_eq_of_low hg hlow, hname]
    rfl
  rw [htext, Kind.literalOf_symbol _ k hsymbol]
  exact .symbol hsymbol

theorem isLexeme_pair {h : Glyph} (hg : g.Proper) (hh : h.Proper)
    (hk : Kind.ofPair? g.code h.code = some k) :
    IsLexeme (Text.ofGlyphs [g, h]) k (Token.literalOf k (Text.ofGlyphs [g, h])) := by
  rcases Kind.symbol_of_pair hk with ⟨hsymbol, hlow, hlow', hname⟩
  have htext : Text.ofGlyphs [g, h] = k.name := by
    rw [Text.ofGlyphs_cons, Text.ofGlyphs_cons, bytes_eq_of_low hg hlow, bytes_eq_of_low hh hlow',
      hname]
    rfl
  rw [htext, Kind.literalOf_symbol _ k hsymbol]
  exact .symbol hsymbol

theorem isLexeme_quoted {q : Glyph} {inside : List Glyph}
    (hproper : ∀ c ∈ g :: (inside ++ [q]), c.Proper) (hg : g.code.isQuote = true)
    (hin : ∀ c ∈ inside, c.code ≠ g.code) (hq : q.code = g.code) :
    IsLexeme (Text.ofGlyphs (g :: (inside ++ [q]))) .string
      (Token.literalOf .string (Text.ofGlyphs (g :: (inside ++ [q])))) := by
  have hlow := Rune.lt_of_isQuote hg
  have htext : Text.ofGlyphs (g :: (inside ++ [q])) =
      g.code.toUInt8 :: (Text.ofGlyphs inside ++ [g.code.toUInt8]) := by
    rw [Text.ofGlyphs_cons, Text.ofGlyphs_append, Text.ofGlyphs_cons,
      bytes_eq_of_low (hproper g List.mem_cons_self) hlow,
      bytes_eq_of_low (hproper q (by simp)) (hq ▸ hlow), hq]
    rfl
  have hvalue : Token.literalOf .string (g.code.toUInt8 :: (Text.ofGlyphs inside ++
      [g.code.toUInt8])) = some (.string (Text.ofGlyphs inside)) := by
    rw [Token.literalOf, List.drop_one, List.tail_cons, List.dropLast_concat]
  rw [htext, hvalue]
  refine .quoted ?_ ?_
  · simp only [Rune.isQuote, Bool.or_eq_true, beq_iff_eq] at hg
    rcases hg with hcode | hcode <;> rw [hcode]
    · exact Or.inl rfl
    · exact Or.inr rfl
  · -- A quote among the bytes would be a quote among the characters.
    intro hmem
    rcases List.mem_flatMap.mp hmem with ⟨c, hc, hbyte⟩
    have hcode : g.code.toUInt8.toNat = g.code :=
      Nat.mod_eq_of_lt (Nat.lt_trans hlow (by decide))
    rcases hproper c (by simp [hc]) with ⟨b, _, rfl⟩ | ⟨_, _, hhigh⟩
    · rw [List.mem_singleton] at hbyte
      exact hin _ hc (by rw [← hbyte]; exact hcode)
    · have hb := hhigh _ hbyte
      simp only [Text.isHigh, hcode, decide_eq_true_eq] at hb
      exact absurd hlow (Nat.not_lt.mpr hb)

theorem isLexeme_whole (hproper : ∀ c ∈ g :: taken, c.Proper)
    (hdigits : ∀ c ∈ g :: taken, c.code.isDigit = true) :
    IsLexeme (Text.ofGlyphs (g :: taken)) .number
      (Token.literalOf .number (Text.ofGlyphs (g :: taken))) := by
  have h := isDigits_ofGlyphs hproper hdigits (List.cons_ne_nil _ _)
  have hnearest := nearest_ofDigits (Text.ofGlyphs (g :: taken)) []
  rw [fractionValue, add_zero] at hnearest
  rw [literalOf_whole h]
  exact .whole h hnearest

theorem isLexeme_fraction {p : Glyph} {digits fraction : List Glyph}
    (hproper : ∀ c ∈ g :: (digits ++ p :: fraction), c.Proper)
    (hdigits : ∀ c ∈ g :: digits, c.code.isDigit = true) (hp : p.code = 46)
    (hf : ∀ c ∈ fraction, c.code.isDigit = true) (hne : fraction ≠ []) :
    IsLexeme (Text.ofGlyphs (g :: (digits ++ p :: fraction))) .number
      (Token.literalOf .number (Text.ofGlyphs (g :: (digits ++ p :: fraction)))) := by
  rw [← List.cons_append] at hproper ⊢
  have hwhole := isDigits_ofGlyphs (fun c hc => hproper c (List.mem_append_left _ hc)) hdigits
    (List.cons_ne_nil _ _)
  have hfraction := isDigits_ofGlyphs (fun c hc => hproper c (by simp [hc])) hf hne
  have htext : Text.ofGlyphs (g :: digits ++ p :: fraction) =
      Text.ofGlyphs (g :: digits) ++ Decimal.point :: Text.ofGlyphs fraction := by
    rw [Text.ofGlyphs_append, Text.ofGlyphs_cons p, bytes_eq_of_low (hproper p (by simp))
      (by rw [hp]; decide), hp]
    rfl
  rw [htext, literalOf_fraction hwhole]
  exact .fraction hwhole hfraction (nearest_ofDigits _ _)

end Converse

/-- Lexemes are what is spelled like a token, and the value of a lexeme is in
    its spelling. -/
theorem isLexeme_iff (u : Text) (k : Kind) (l : Option Literal) :
    IsLexeme u k l ↔ l = Token.literalOf k u ∧
      ∃ g taken, u.glyphs = g :: taken ∧ Spelled g taken k := by
  constructor
  · intro h
    cases h with
    | symbol hk => exact ⟨(Kind.literalOf_symbol _ _ hk).symm, spelled_symbol hk⟩
    | name hw hname =>
        have hspelled := spelled_word hw
        rw [ofWord_of_name ((not_mem_keywordNames_iff _).mpr hname)] at hspelled
        exact ⟨rfl, hspelled⟩
    | reserved hmem hk =>
        rw [← mem_keywords_iff] at hmem
        refine ⟨?_, spelled_keyword hmem⟩
        rw [← ofWord_of_keyword hmem, Scanned.literalOf_ofWord, ofWord_of_keyword hmem,
          constant?_of_plain hmem hk]
    | trueWord => exact ⟨rfl, spelled_keyword (by decide)⟩
    | falseWord => exact ⟨rfl, spelled_keyword (by decide)⟩
    | nullWord => exact ⟨rfl, spelled_keyword (by decide)⟩
    | whole hd hx =>
        have hnearest := nearest_ofDigits u []
        rw [fractionValue, add_zero] at hnearest
        rw [hx.unique hnearest]
        exact ⟨(literalOf_whole hd).symm, spelled_whole hd⟩
    | @fraction ds fs x hd hf hx =>
        rw [hx.unique (nearest_ofDigits ds fs)]
        exact ⟨(literalOf_fraction hd _).symm, spelled_fraction hd hf⟩
    | @quoted q inside hq hin =>
        refine ⟨?_, spelled_quoted hq hin⟩
        rw [Token.literalOf, List.drop_one, List.tail_cons, List.dropLast_concat]
  · rintro ⟨rfl, g, taken, hglyphs, h⟩
    have hproper : ∀ c ∈ g :: taken, c.Proper := by
      intro c hc
      rw [← hglyphs] at hc
      exact Text.proper_of_mem_glyphs hc
    have hg := hproper g List.mem_cons_self
    rw [← u.glyphs_spell, hglyphs]
    cases h with
    | single hk => exact isLexeme_single hg hk
    | @pair h' _ hk => exact isLexeme_pair hg (hproper h' (by simp)) hk
    | quoted hq hin hclose => exact isLexeme_quoted hproper hq hin hclose
    | word hw hmore =>
        rw [← hglyphs, u.glyphs_spell]
        exact isLexeme_word ((isWord_iff u).mpr ⟨g, taken, hglyphs, hw, hmore⟩)
    | whole hd hdigits =>
        exact isLexeme_whole hproper (List.forall_mem_cons.mpr ⟨hd, hdigits⟩)
    | fraction hd hdigits hp hf hne =>
        exact isLexeme_fraction hproper (List.forall_mem_cons.mpr ⟨hd, hdigits⟩) hp hf hne

/-- A lexeme is read the same in front of anything. -/
theorem IsLexeme.isWhole {u : Text} {k : Kind} {l : Option Literal} (h : IsLexeme u k l) :
    u.Whole := by
  have hword : ∀ {w : Text} {k : Kind}, (w, k) ∈ Kind.keywords → w.Whole :=
    fun hmem => (isWord_of_keyword hmem).whole
  cases h with
  | symbol hk => exact Text.whole_of_low (Kind.low_of_mem_name hk)
  | name hw _ => exact hw.whole
  | reserved hmem _ => exact hword ((mem_keywords_iff _).mpr hmem)
  | trueWord => exact hword (k := .trueWord) (by decide)
  | falseWord => exact hword (k := .falseWord) (by decide)
  | nullWord => exact hword (k := .nullWord) (by decide)
  | whole hd _ => exact Text.whole_of_low hd.low
  | @fraction ds fs _ hd hf _ =>
      refine (Text.whole_of_low hd.low).append (Text.whole_of_low ?_)
      exact List.forall_mem_cons.mpr ⟨rfl, hf.low⟩
  | @quoted q inside hq _ =>
      have hlow : Text.isHigh q = false := by rcases hq with rfl | rfl <;> rfl
      exact Text.whole_concat (q :: inside) hlow

end Lexicon

end PocketScript
