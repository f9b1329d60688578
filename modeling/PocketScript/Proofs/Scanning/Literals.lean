import PocketScript.Proofs.Program.Moved
import PocketScript.Proofs.Scanning.Gaps
import PocketScript.Proofs.Text.Glyphs

/-!
# Values are in the spelling

A token carries the value of a literal besides its lexeme, and the scanner
computes it from characters before the lexeme is there. The value could be
computed from the lexeme: a string without its quotes, a number from the digits
before and after the point. So a token that was scanned says nothing that its
kind and its lexeme do not say, apart from where it stands.

A lexeme is bytes and the scanner reads characters. Quotes, digits and the point
are characters of one byte (`Glyph.Proper.bytes_of_low`), and only those of them
that the scanner sees are looked for in the bytes.

## Main definitions

* `Token.spelling`: Kind and lexeme of a token.
* `Token.literalOf`: The value that a kind and a lexeme stand for.

## Theorems

* `Scanned.read_literal`: What is read has the value of its lexeme.
* `Scans.literal_eq`: All tokens of a source do.
* `map_unplaced_eq_of_spelling`: Sources with the same kinds and lexemes have
  the same tokens up to positions.
-/

namespace PocketScript

namespace Token

/-- Kind and lexeme of a token. -/
def spelling (t : Token) : Kind × Text := (t.kind, t.lexeme)

/-- A byte that is a digit. -/
def isDigitByte (b : UInt8) : Bool := Rune.isDigit b.toNat

/-- The value that a kind and a lexeme stand for. -/
def literalOf (kind : Kind) (lexeme : Text) : Option Literal :=
  match kind with
  | .string => some (.string (lexeme.drop 1).dropLast)
  | .number =>
    some (.number (Number.ofDigits (lexeme.takeWhile isDigitByte)
      ((lexeme.dropWhile isDigitByte).drop 1)))
  | kind => Scanned.constant? kind

end Token

/-- A character with a low code is one byte. -/
theorem Glyph.Proper.bytes_of_low {g : Glyph} (h : g.Proper) (hlow : g.code < 128) :
    ∃ b : UInt8, g.bytes = [b] ∧ b.toNat = g.code := by
  rcases h with ⟨b, _, rfl⟩ | ⟨hhigh, _⟩
  · exact ⟨b, rfl, rfl⟩
  · exact absurd hlow (Nat.not_lt.mpr hhigh)

theorem Rune.lt_of_isDigit {r : Nat} (h : Rune.isDigit r = true) : r < 128 := by
  simp only [Rune.isDigit, Bool.and_eq_true, decide_eq_true_eq] at h
  exact Nat.lt_of_le_of_lt h.2 (by decide)

theorem Rune.lt_of_isQuote {r : Nat} (h : Rune.isQuote r = true) : r < 128 := by
  simp only [Rune.isQuote, Bool.or_eq_true, beq_iff_eq] at h
  rcases h with rfl | rfl <;> decide

theorem Text.ofGlyphs_cons (g : Glyph) (gs : List Glyph) :
    Text.ofGlyphs (g :: gs) = g.bytes ++ Text.ofGlyphs gs := List.flatMap_cons

theorem Text.ofGlyphs_append (gs hs : List Glyph) :
    Text.ofGlyphs (gs ++ hs) = Text.ofGlyphs gs ++ Text.ofGlyphs hs := List.flatMap_append

/-- A run of digits is spelled with digits. -/
theorem isDigitByte_of_mem_ofGlyphs {digits : List Glyph} (hproper : ∀ c ∈ digits, c.Proper)
    (hdigits : ∀ c ∈ digits, c.code.isDigit = true) :
    ∀ b ∈ Text.ofGlyphs digits, Token.isDigitByte b = true := by
  intro b hb
  rcases List.mem_flatMap.mp hb with ⟨c, hc, hbc⟩
  have hdigit := hdigits c hc
  rcases (hproper c hc).bytes_of_low (Rune.lt_of_isDigit hdigit) with ⟨d, hbytes, hd⟩
  rw [hbytes, List.mem_singleton] at hbc
  rw [hbc, Token.isDigitByte, hd]
  exact hdigit

namespace Scanned

variable {g : Glyph} {rest : List Glyph} {k : Kind} {l : Option Literal} {more : Nat}

/-- Operators have no value. -/
theorem operator?_literal (h : operator? g rest = some (.token k l more)) (t : Text) :
    l = Token.literalOf k t := by
  rw [operator?] at h
  split at h
  · rename_i kind hpair
    rcases Option.bind_eq_some_iff.mp hpair with ⟨c, _, hkind⟩
    rcases Scanned.token.inj (Option.some.inj h) with ⟨rfl, rfl, _⟩
    unfold Kind.ofPair? at hkind
    split at hkind <;> cases hkind <;> rfl
  · rcases Option.map_eq_some_iff.mp h with ⟨kind, hkind, hs⟩
    rcases Scanned.token.inj hs with ⟨rfl, rfl, _⟩
    unfold Kind.ofSingle? at hkind
    split at hkind <;> cases hkind <;> rfl

/-- The value of a string is what stands between its quotes. -/
theorem quoted_literal (hproper : ∀ c ∈ g :: rest, c.Proper) (hq : g.code.isQuote = true)
    (h : quoted g rest = .token k l more) :
    l = Token.literalOf k (Text.ofGlyphs (g :: rest.take more)) := by
  simp only [quoted] at h
  split at h
  case isFalse => cases h
  case isTrue hlt =>
    rcases takeWhile_split hlt with ⟨q, tail, hsplit, hclose⟩
    rcases Scanned.token.inj h with ⟨rfl, rfl, rfl⟩
    generalize rest.takeWhile (fun c => c.code != g.code) = inside at hsplit
    subst hsplit
    have hlow := Rune.lt_of_isQuote hq
    have hqlow : q.code < 128 := by
      have heq : q.code = g.code := by simpa using hclose
      rw [heq]
      exact hlow
    -- Both quotes are one byte, so the lexeme without its first and its last
    -- byte is what stands between them.
    rcases (hproper g List.mem_cons_self).bytes_of_low hlow with ⟨b, hb, _⟩
    rcases (hproper q (by simp)).bytes_of_low hqlow with ⟨b', hb', _⟩
    have htake : (inside ++ q :: tail).take (inside.length + 1) = inside ++ [q] := by
      rw [List.take_length_add_append]
      rfl
    have hlexeme : Text.ofGlyphs (g :: (inside ++ [q])) = b :: (Text.ofGlyphs inside ++ [b']) := by
      rw [Text.ofGlyphs_cons, Text.ofGlyphs_append, Text.ofGlyphs_cons, hb, hb']
      rfl
    rw [htake, hlexeme, Token.literalOf, List.drop_one, List.tail_cons, List.dropLast_concat]

/-- No word is a string or a number, and the value of a word is that of its
    kind. -/
theorem literalOf_ofWord (w t : Text) :
    Token.literalOf (Kind.ofWord w) t = constant? (Kind.ofWord w) := by
  rw [Kind.ofWord]
  cases hlook : Kind.keywords.lookup w with
  | none => rfl
  | some kind =>
      rcases List.lookup_eq_some_iff.mp hlook with ⟨before, after, hsplit, _⟩
      have hall : ∀ entry ∈ Kind.keywords, Token.literalOf entry.2 t = constant? entry.2 := by
        simp [Kind.keywords, Token.literalOf]
      exact hall (w, kind) (by rw [hsplit]; exact List.mem_append_right _ List.mem_cons_self)

/-- The value of a number is that of the digits on both sides of the point. -/
theorem numeral_literal (hproper : ∀ c ∈ g :: rest, c.Proper) (hg : g.code.isDigit = true)
    (h : numeral g rest = .token k l more) :
    l = Token.literalOf k (Text.ofGlyphs (g :: rest.take more)) := by
  -- The bytes before the point are the digits before it.
  have hbytes : ∀ digits : List Glyph, (∀ c ∈ digits, c ∈ rest) →
      (∀ c ∈ digits, c.code.isDigit = true) →
      ∀ b ∈ Text.ofGlyphs (g :: digits), Token.isDigitByte b = true := by
    intro digits hmem hdigits
    refine isDigitByte_of_mem_ofGlyphs ?_ ?_
    · intro c hc
      rcases List.mem_cons.mp hc with rfl | hc
      · exact hproper c List.mem_cons_self
      · exact hproper c (List.mem_cons_of_mem g (hmem c hc))
    · intro c hc
      rcases List.mem_cons.mp hc with rfl | hc
      · exact hg
      · exact hdigits c hc
  rcases numeral_cases rest with
    ⟨digits, tail, rfl, hd, hp⟩ | ⟨digits, p, fraction, tail, rfl, hd, hp, hf, hne⟩
  · rw [numeral_whole hd hp] at h
    rcases Scanned.token.inj h with ⟨rfl, rfl, rfl⟩
    have hall := hbytes digits (fun c hc => List.mem_append_left tail hc) (takeWhile_append_eq hd).1
    rw [List.take_left, Token.literalOf, List.takeWhile_eq_self_iff.mpr hall,
      List.dropWhile_eq_nil_iff.mpr hall]
    rfl
  · rw [numeral_fraction hd hp hf hne] at h
    rcases Scanned.token.inj h with ⟨rfl, rfl, rfl⟩
    have hall := hbytes digits (fun c hc => List.mem_append_left _ hc) hd
    have hplow : p.code < 128 := by
      rw [hp]
      decide
    rcases (hproper p (by simp)).bytes_of_low hplow with ⟨b, hb, hbcode⟩
    -- The point is no digit, so the run of digits ends in front of it.
    have hpoint : Token.isDigitByte b = false := by
      rw [Token.isDigitByte, hbcode, hp]
      rfl
    have htake : (digits ++ p :: (fraction ++ tail)).take (digits.length + 1 + fraction.length) =
        digits ++ p :: fraction := by
      rw [Nat.add_assoc, List.take_length_add_append, Nat.add_comm 1, List.take_succ_cons,
        List.take_left]
    have hlexeme : Text.ofGlyphs (g :: (digits ++ p :: fraction)) =
        Text.ofGlyphs (g :: digits) ++ b :: Text.ofGlyphs fraction := by
      rw [← List.cons_append, Text.ofGlyphs_append, Text.ofGlyphs_cons p, hb]
      rfl
    rw [htake, hlexeme, Token.literalOf, List.takeWhile_append_of_pos hall,
      List.dropWhile_append_of_pos hall, List.takeWhile_cons_of_neg (by simp [hpoint]),
      List.dropWhile_cons_of_neg (by simp [hpoint]), List.append_nil]
    rfl

/-- Whatever is read has the value of its lexeme. -/
theorem read_literal (hproper : ∀ c ∈ g :: rest, c.Proper) (h : read g rest = .token k l more) :
    l = Token.literalOf k (Text.ofGlyphs (g :: rest.take more)) := by
  rw [read] at h
  cases hs : operator? g rest with
  | some s =>
      rw [hs] at h
      subst h
      exact operator?_literal hs _
  | none =>
      rw [hs] at h
      simp only at h
      by_cases hq : g.code.isQuote = true
      · rw [if_pos hq] at h
        exact quoted_literal hproper hq h
      · rw [if_neg hq] at h
        by_cases hw : g.code.startsWord = true
        · rw [if_pos hw] at h
          rcases Scanned.token.inj h with ⟨rfl, rfl, _⟩
          exact (literalOf_ofWord _ _).symm
        · rw [if_neg hw] at h
          by_cases hd : g.code.isDigit = true
          · rw [if_pos hd] at h
            exact numeral_literal hproper hd h
          · rw [if_neg hd] at h
            cases h

end Scanned

/-- All tokens of a source have the values of their lexemes. -/
theorem Scans.literal_eq {p : Position} {gs : List Glyph} {ts : List Token} (h : Scans p gs ts)
    (hproper : ∀ g ∈ gs, g.Proper) : ∀ t ∈ ts, t.literal = Token.literalOf t.kind t.lexeme := by
  induction h with
  | stop _ =>
      intro t ht
      rw [List.mem_singleton] at ht
      rw [ht]
      rfl
  | @token p gap taken rest g kind literal ts _ hread _ ih =>
      intro t ht
      rcases List.mem_cons.mp ht with rfl | ht
      · have hall : ∀ c ∈ g :: (taken ++ rest), c.Proper :=
          fun c hc => hproper c (List.mem_append_right gap hc)
        have hliteral := Scanned.read_literal hall hread
        rw [List.take_left] at hliteral
        exact hliteral
      · refine ih ?_ t ht
        intro c hc
        exact hproper c (by simp [hc])

/-- A scanned token without its position is made of its kind and its lexeme. -/
theorem unplaced_of_scan {source : Text} {ts : List Token} (h : Token.scan source = .ok ts) :
    ts.map (Token.moved unplaced) = (ts.map Token.spelling).map fun entry =>
      ⟨entry.1, entry.2, Token.literalOf entry.1 entry.2, .start⟩ := by
  rw [List.map_map]
  refine List.map_congr_left fun t ht => ?_
  have hliteral := (scans_of_scanFrom_eq h).literal_eq
    (fun g hg => Text.proper_of_mem_glyphs hg) t ht
  rw [Token.moved, Function.comp_apply, Token.spelling]
  simp only [← hliteral]
  rfl

/-- Sources with the same kinds and lexemes have the same tokens up to
    positions. -/
theorem map_unplaced_eq_of_spelling {a b : Text} {ts us : List Token} (ha : Token.scan a = .ok ts)
    (hb : Token.scan b = .ok us) (h : ts.map Token.spelling = us.map Token.spelling) :
    ts.map (Token.moved unplaced) = us.map (Token.moved unplaced) := by
  rw [unplaced_of_scan ha, unplaced_of_scan hb, h]

end PocketScript
