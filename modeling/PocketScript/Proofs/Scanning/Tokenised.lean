import PocketScript.Proofs.Scanning.Longest
import PocketScript.Proofs.Scanning.Position

/-!
# Sources cut into tokens

What scanning gives, said of bytes.

A source is cut from its start. A gap of blanks and comments is left out, the
longest lexeme that stands behind it is a token, and so on until the source is
over or no lexeme stands where a token has to start. `Tokenised` keeps the
account of this: the text up to some place where a token has to start, the
tokens in that text, and the rest. Each token carries the position that the text
in front of it says.

The scanner follows this account step by step (`Tokenised.scan_eq`). Nothing
has to be shown about a scanner that stops elsewhere, because the account can
always be taken to an end (`exists_tokenised`) and the scanner has no choice on
the way.

## Main definitions

* `Lexicon.Gap`: Blanks and comments.
* `Lexicon.GapBefore`: A gap up to where a token has to start.
* `Lexicon.Tokenised`: A text and its tokens, up to where a token has to start.

## Theorems

* `Lexicon.Tokenised.scan_eq`: The scanner goes through every place where a
  token has to start.
* `Lexicon.exists_tokenised`: Some such place is the end, or starts no token.
* `Lexicon.scan_eq_ok_iff`, `Lexicon.scan_eq_error_iff`: When scanning succeeds
  and when it fails.
* `Lexicon.scan_takes_longest_lexemes`: Both in one.
-/

namespace PocketScript

namespace Lexicon

/-- Blanks, line ends and comments. A comment ends with its line; if the source
    is over behind the gap it may end there. -/
inductive Gap (atEnd : Bool) : Text → Prop where
  | nil : Gap atEnd []
  | blank {b : UInt8} {t : Text} : b ∈ [32, 9, 13, 10] → Gap atEnd t → Gap atEnd (b :: t)
  | comment {c t : Text} :
      Text.lineFeed ∉ c → Gap atEnd t → Gap atEnd (35 :: (c ++ Text.lineFeed :: t))
  | cut {c : Text} : Text.lineFeed ∉ c → atEnd = true → Gap atEnd (35 :: c)

/-- A gap that goes on as far as it can: behind it the source is over or a token
    has to start. -/
structure GapBefore (gap rest : Text) : Prop where
  gap : Gap rest.isEmpty gap
  stops : ∀ b more, rest = b :: more → b ∉ [32, 9, 13, 10, 35]

/-- The text `before` is gaps and the lexemes of these tokens in turn, up to a
    place where `rest` is left and a token has to start or the source is over.
    Each token has the longest lexeme that starts where it stands. -/
inductive Tokenised : (before : Text) → List Token → (rest : Text) → Prop where
  | start {gap rest : Text} : GapBefore gap rest → Tokenised gap [] rest
  | token {before gap rest : Text} {ts : List Token} {t : Token} :
      Tokenised before ts (t.lexeme ++ (gap ++ rest)) →
      Longest (t.lexeme ++ (gap ++ rest)) t → t.pos = Position.behind before →
      GapBefore gap rest → Tokenised (before ++ (t.lexeme ++ gap)) (ts ++ [t]) rest

/-! ### Gaps -/

theorem low_of_blank {b : UInt8} (h : b ∈ [32, 9, 13, 10]) :
    Text.isHigh b = false ∧ Rune.isGapBlank b.toNat = true := by
  simp only [List.mem_cons, List.not_mem_nil, or_false] at h
  rcases h with rfl | rfl | rfl | rfl <;> decide

theorem Gap.whole {gap : Text} (h : Gap false gap) : gap.Whole := by
  induction h with
  | nil => exact Text.whole_nil
  | @blank b t hb _ ih => exact (Text.whole_concat [] (low_of_blank hb).1).append ih
  | @comment c t _ _ ih =>
      have hcomment : Text.Whole (35 :: c ++ [Text.lineFeed]) :=
        Text.whole_concat (35 :: c) (by decide)
      have happend := hcomment.append ih
      rwa [List.append_assoc, List.singleton_append] at happend
  | cut _ hend => cases hend

/-- A comment goes on while there is no line feed. -/
theorem gapAfter_comment (gs : List Glyph) (h : ∀ g ∈ gs, g.code ≠ 10) :
    gapAfter true gs = some true := by
  induction gs with
  | nil => rfl
  | cons g gs ih =>
      rw [gapAfter, if_pos rfl, bne_iff_ne.mpr (h g List.mem_cons_self)]
      exact ih fun c hc => h c (List.mem_cons_of_mem g hc)

theorem gapAfter_hash (t : Text) :
    gapAfter false (Text.glyphs (35 :: t)) = gapAfter true t.glyphs := by
  rw [Text.glyphs_cons_low rfl]
  rfl

/-- The scanner passes over the characters of a gap. -/
theorem Gap.gapAfter_eq {atEnd : Bool} {gap : Text} (h : Gap atEnd gap) :
    ∃ c, gapAfter false gap.glyphs = some c ∧ (atEnd = false → c = false) := by
  induction h with
  | nil => exact ⟨false, rfl, fun _ => rfl⟩
  | @blank b t hb _ ih =>
      rcases low_of_blank hb with ⟨hlow, hblank⟩
      rw [Text.glyphs_cons_low hlow, gapAfter, if_neg Bool.false_ne_true, if_pos hblank]
      exact ih
  | @comment c t hc _ ih =>
      rw [gapAfter_hash, Text.glyphs_append_lineFeed, gapAfter_append,
        gapAfter_comment _ fun g hg => Text.code_ne_of_mem_line hc hg]
      exact ih
  | @cut c hc hend =>
      rw [gapAfter_hash, gapAfter_comment _ fun g hg => Text.code_ne_of_mem_line hc hg]
      exact ⟨true, rfl, fun hopen => by rw [hend] at hopen; cases hopen⟩

namespace GapBefore

variable {gap rest : Text} (h : GapBefore gap rest)

include h

/-- In front of a token every comment is closed. -/
theorem closed (hrest : rest ≠ []) : Gap false gap := by
  have hgap := h.gap
  rw [List.isEmpty_eq_false_iff.mpr hrest] at hgap
  exact hgap

theorem whole (hrest : rest ≠ []) : gap.Whole := (h.closed hrest).whole

/-- The scanner passes over the gap. -/
theorem scanFrom_eq (p : Position) :
    scanFrom p (gap ++ rest).glyphs = scanFrom (p.afterAll gap.glyphs) rest.glyphs := by
  rcases h.gap.gapAfter_eq with ⟨c, hc, hclosed⟩
  cases rest with
  | nil =>
      rw [List.append_nil, scanFrom_stop hc]
      exact (scanFrom_stop (gapAfter_nil false)).symm
  | cons b more =>
      rw [hclosed rfl] at hc
      rw [h.whole (List.cons_ne_nil b more), scanFrom_gap hc]

end GapBefore

/-- Every source starts with a gap, if an empty one. -/
theorem exists_gapBefore (t : Text) : ∃ gap rest, t = gap ++ rest ∧ GapBefore gap rest := by
  induction hn : t.length using Nat.strong_induction_on generalizing t with
  | _ n ih =>
    cases t with
    | nil => exact ⟨[], [], rfl, .nil, fun b more h => nomatch h⟩
    | cons b r =>
        rw [List.length_cons] at hn
        by_cases hb : b ∈ [32, 9, 13, 10]
        · rcases ih r.length (by omega) r rfl with ⟨gap, rest, rfl, hgap⟩
          exact ⟨b :: gap, rest, rfl, .blank hb hgap.gap, hgap.stops⟩
        by_cases hhash : b = 35
        · subst hhash
          by_cases hline : Text.lineFeed ∈ r
          · rcases List.eq_append_cons_of_mem hline with ⟨c, more, rfl, hc⟩
            rw [List.length_append, List.length_cons] at hn
            rcases ih more.length (by omega) more rfl with ⟨gap, rest, rfl, hgap⟩
            refine ⟨35 :: (c ++ Text.lineFeed :: gap), rest, ?_, .comment hc hgap.gap, hgap.stops⟩
            simp
          · exact ⟨35 :: r, [], by rw [List.append_nil], .cut hline rfl, fun b more h => nomatch h⟩
        · refine ⟨[], b :: r, rfl, .nil, ?_⟩
          rintro b' more ⟨rfl, rfl⟩ hmem
          have hcases : b ∈ [32, 9, 13, 10] ∨ b = 35 := by
            simpa only [List.mem_cons, List.not_mem_nil, or_false, or_assoc] using hmem
          exact hcases.elim hb hhash

/-! ### Where a token has to start -/

/-- The first character of a text is not one of a low byte that the text does
    not start with. -/
theorem code_ne_of_head {b r : UInt8} {more : Text} {g : Glyph} {gs : List Glyph}
    (h : Text.glyphs (b :: more) = g :: gs) (hr : Text.isHigh r = false) (hne : b ≠ r) :
    g.code ≠ r.toNat := by
  rw [Text.glyphs_cons] at h
  rw [← (List.cons.inj h).1]
  cases hb : Text.isHigh b with
  | false =>
      rw [Glyph.first_low hb]
      exact fun hcode => hne (UInt8.toNat_inj.mp hcode)
  | true =>
      have hspans := (Glyph.first_spans hb more).1
      simp only [Text.isHigh, decide_eq_false_iff_not, Nat.not_le] at hr
      exact fun hcode => absurd hr (Nat.not_lt.mpr (hcode ▸ hspans))

theorem not_gap_of_stops {rest : Text} {g : Glyph} {gs : List Glyph}
    (hstops : ∀ b more, rest = b :: more → b ∉ [32, 9, 13, 10, 35]) (h : rest.glyphs = g :: gs) :
    g.StopsGap := by
  cases rest with
  | nil => cases h
  | cons b more =>
      have hb := hstops b more rfl
      have hlow : ∀ r ∈ [32, 9, 13, 10, 35], Text.isHigh r = false := by
        intro r hr
        simp only [List.mem_cons, List.not_mem_nil, or_false] at hr
        rcases hr with rfl | rfl | rfl | rfl | rfl <;> rfl
      have hcode : ∀ r ∈ [32, 9, 13, 10, 35], g.code ≠ UInt8.toNat r :=
        fun r hr => code_ne_of_head h (hlow r hr) fun hbr => hb (hbr ▸ hr)
      simp only [Glyph.StopsGap, Rune.isGapBlank, Rune.isHash, Bool.or_eq_false_iff,
        beq_eq_false_iff_ne]
      exact ⟨⟨⟨⟨hcode 32 (by decide), hcode 9 (by decide)⟩, hcode 13 (by decide)⟩,
        hcode 10 (by decide)⟩, hcode 35 (by decide)⟩

theorem IsLexeme.ne_nil {u : Text} {k : Kind} {l : Option Literal} (h : IsLexeme u k l) :
    u ≠ [] := by
  rintro rfl
  rcases (isLexeme_iff _ _ _).mp h with ⟨_, g, taken, hglyphs, _⟩
  cases hglyphs

/-- No lexeme is that of the end. -/
theorem IsLexeme.isEnd_eq {t : Token} (h : IsLexeme t.lexeme t.kind t.literal) :
    t.isEnd = false := by
  rcases (isLexeme_iff _ _ _).mp h with ⟨_, g, taken, _, hspelled⟩
  exact beq_eq_false_iff_ne.mpr hspelled.kind_ne_end

/-- The scanner reads the longest lexeme and goes on behind it. -/
theorem Longest.scanFrom_eq {t : Token} {after : Text} (h : Longest (t.lexeme ++ after) t)
    {p : Position} (hp : t.pos = p) : scanFrom p (t.lexeme ++ after).glyphs =
      (scanFrom (p.afterAll t.lexeme.glyphs) after.glyphs).map (t :: ·) := by
  rcases h.read_eq with ⟨g, taken, hglyphs, hread⟩
  rw [h.lexeme.isWhole, hglyphs, List.cons_append, scanFrom_token p hread, ← hglyphs,
    Text.glyphs_spell, ← hp]

/-- Where no lexeme starts, the scanner fails. -/
theorem scanFrom_of_none {rest : Text} {g : Glyph} {gs : List Glyph} (hrest : rest.glyphs = g :: gs)
    (hstops : ∀ b more, rest = b :: more → b ∉ [32, 9, 13, 10, 35])
    (h : ∀ u k l, IsLexeme u k l → ¬ u <+: rest) (p : Position) :
    scanFrom p rest.glyphs = .error (if g.code.isQuote then
      ⟨.unterminatedString, 0, p.afterAll rest.glyphs⟩ else ⟨.unexpectedCharacter, g.code, p⟩) := by
  rcases not_gap_of_stops hstops hrest with ⟨hb, hh⟩
  rw [hrest, scanFrom_of_skipGap (skipGap_stop hb hh p gs), read_of_none hrest h]
  cases g.code.isQuote <;> rfl

namespace Tokenised

variable {before rest : Text} {ts : List Token}

theorem stops (h : Tokenised before ts rest) :
    ∀ b more, rest = b :: more → b ∉ [32, 9, 13, 10, 35] := by
  cases h with
  | start hgap => exact hgap.stops
  | token _ _ _ hgap => exact hgap.stops

theorem whole (h : Tokenised before ts rest) (hrest : rest ≠ []) : before.Whole := by
  induction h with
  | start hgap => exact hgap.whole hrest
  | @token before gap rest ts t _ hlongest _ hgap ih =>
      refine (ih ?_).append (hlongest.lexeme.isWhole.append (hgap.whole hrest))
      exact List.append_ne_nil_of_left_ne_nil hlongest.lexeme.ne_nil _

theorem isLexeme (h : Tokenised before ts rest) :
    ∀ t ∈ ts, IsLexeme t.lexeme t.kind t.literal := by
  induction h with
  | start _ => exact fun t ht => nomatch ht
  | @token before gap rest ts t _ hlongest _ _ ih =>
      intro u hu
      rcases List.mem_append.mp hu with hu | hu
      · exact ih u hu
      · rw [List.mem_singleton.mp hu]
        exact hlongest.lexeme

/-- The scanner goes through every place where a token has to start. It has the
    tokens up to there, and the position that the text up to there says. -/
theorem scan_eq (h : Tokenised before ts rest) :
    Token.scan (before ++ rest) =
      (scanFrom (Position.behind before) rest.glyphs).map (ts ++ ·) := by
  induction h with
  | @start gap rest hgap =>
      rw [Token.scan, hgap.scanFrom_eq, Position.start_afterAll]
      cases scanFrom (Position.behind gap) rest.glyphs <;> rfl
  | @token before gap rest ts t hbefore hlongest hpos hgap ih =>
      have hne : t.lexeme ++ (gap ++ rest) ≠ [] :=
        List.append_ne_nil_of_left_ne_nil hlongest.lexeme.ne_nil _
      have hbehind : Position.behind (before ++ (t.lexeme ++ gap)) =
          ((Position.behind before).afterAll t.lexeme.glyphs).afterAll gap.glyphs := by
        rw [Position.behind_append (hbefore.whole hne), hlongest.lexeme.isWhole,
          Position.afterAll_append]
      rw [List.append_assoc, List.append_assoc, ih, hlongest.scanFrom_eq hpos, hgap.scanFrom_eq,
        ← hbehind]
      cases scanFrom (Position.behind (before ++ (t.lexeme ++ gap))) rest.glyphs with
      | error e => rfl
      | ok us => simp [Except.map]

/-- Behind a place where a token starts there is another one, at the end of the
    source or where no token starts. -/
theorem exists_last (h : Tokenised before ts rest) : ∃ before' ts' rest',
    Tokenised before' ts' rest' ∧ before ++ rest = before' ++ rest' ∧
      (rest' = [] ∨ ∀ u k l, IsLexeme u k l → ¬ u <+: rest') := by
  induction hn : rest.length using Nat.strong_induction_on generalizing before ts rest with
  | _ n ih =>
    by_cases hlexeme : ∃ u k l, IsLexeme u k l ∧ u <+: rest
    · rcases hlexeme with ⟨u, k, l, hu, hstarts⟩
      rcases exists_longest hu hstarts (Position.behind before) with ⟨t, hlongest, hpos⟩
      rcases hlongest.starts with ⟨after, rfl⟩
      rcases exists_gapBefore after with ⟨gap, rest', rfl, hgap⟩
      have hshorter : rest'.length < n := by
        have hpositive := List.length_pos_of_ne_nil hlongest.lexeme.ne_nil
        rw [← hn, List.length_append, List.length_append]
        omega
      rcases ih rest'.length hshorter (.token h hlongest hpos hgap) rfl with
        ⟨before', ts', rest'', hlast, hsplit, hend⟩
      refine ⟨before', ts', rest'', hlast, ?_, hend⟩
      rw [← hsplit, List.append_assoc, List.append_assoc]
    · refine ⟨before, ts, rest, h, rfl, Or.inr fun u k l hu hstarts => ?_⟩
      exact hlexeme ⟨u, k, l, hu, hstarts⟩

end Tokenised

/-- A source can be cut into tokens up to its end or to where no token starts. -/
theorem exists_tokenised (source : Text) : ∃ before ts rest,
    Tokenised before ts rest ∧ source = before ++ rest ∧
      (rest = [] ∨ ∀ u k l, IsLexeme u k l → ¬ u <+: rest) := by
  rcases exists_gapBefore source with ⟨gap, rest, rfl, hgap⟩
  exact (Tokenised.start hgap).exists_last

/-! ### Scanning -/

/-- The fault of a source that is cut into tokens up to `rest`, which starts with
    the character `c` and no lexeme. -/
def faultOf (before rest : Text) (c : Rune) : LexicalFault :=
  if c = 34 ∨ c = 39 then ⟨.unterminatedString, 0, Position.behind (before ++ rest)⟩
  else ⟨.unexpectedCharacter, c, Position.behind before⟩

theorem Tokenised.scan_eq_ok {source : Text} {ts : List Token} (h : Tokenised source ts []) :
    Token.scan source = .ok (ts ++ [Token.endAt (Position.behind source)]) := by
  have hscan := h.scan_eq
  have hend := scanFrom_stop (p := Position.behind source) (gapAfter_nil false)
  rw [List.append_nil] at hscan
  rw [hscan, Text.glyphs_nil, hend]
  rfl

theorem Tokenised.scan_eq_error {before rest : Text} {ts : List Token} {c : Rune}
    (h : Tokenised before ts rest) (hc : rest.runes.head? = some c)
    (hnone : ∀ u k l, IsLexeme u k l → ¬ u <+: rest) :
    Token.scan (before ++ rest) = .error (faultOf before rest c) := by
  cases hglyphs : rest.glyphs with
  | nil => rw [Text.runes, hglyphs] at hc; cases hc
  | cons g gs =>
      rw [Text.runes, hglyphs, List.map_cons, List.head?_cons, Option.some.injEq] at hc
      have hne : rest ≠ [] := by
        rintro rfl
        cases hglyphs
      rw [h.scan_eq, scanFrom_of_none hglyphs h.stops hnone,
        ← Position.behind_append (h.whole hne), hc, faultOf]
      simp only [Rune.isQuote, Bool.or_eq_true, beq_iff_eq]
      rfl

/-- The source starts no lexeme where it starts with `c`, after these tokens. -/
def Stuck (source before rest : Text) (ts : List Token) (c : Rune) : Prop :=
  source = before ++ rest ∧ Tokenised before ts rest ∧ rest.runes.head? = some c ∧
    ∀ u k l, IsLexeme u k l → ¬ u <+: rest

/-- Cutting a source into tokens gets to its end or gets stuck. -/
theorem tokenised_or_stuck (source : Text) :
    (∃ ts, Tokenised source ts []) ∨ ∃ before rest ts c, Stuck source before rest ts c := by
  rcases exists_tokenised source with ⟨before, ts, rest, h, hsource, hend⟩
  cases rest with
  | nil =>
      rw [List.append_nil] at hsource
      exact Or.inl ⟨ts, hsource ▸ h⟩
  | cons b more =>
      refine Or.inr ⟨before, b :: more, ts, (Glyph.first b more).1, hsource, h, ?_, ?_⟩
      · rw [Text.runes, Text.glyphs_cons]
        rfl
      · exact hend.resolve_left (List.cons_ne_nil b more)

theorem Stuck.scan_eq {source before rest : Text} {ts : List Token} {c : Rune}
    (h : Stuck source before rest ts c) :
    Token.scan source = .error (faultOf before rest c) := by
  rcases h with ⟨rfl, htokenised, hc, hnone⟩
  exact htokenised.scan_eq_error hc hnone

/-- Scanning succeeds with the tokens that the source is cut into up to its
    end. -/
theorem scan_eq_ok_iff (source : Text) (ts : List Token) :
    Token.scan source = .ok ts ↔
      ∃ body, Tokenised source body [] ∧ ts = body ++ [Token.endAt (Position.behind source)] := by
  constructor
  · intro h
    rcases tokenised_or_stuck source with ⟨body, hbody⟩ | ⟨before, rest, body, c, hstuck⟩
    · rw [hbody.scan_eq_ok] at h
      exact ⟨body, hbody, (Except.ok.inj h).symm⟩
    · rw [hstuck.scan_eq] at h
      cases h
  · rintro ⟨body, hbody, rfl⟩
    exact hbody.scan_eq_ok

/-- Scanning fails where cutting the source into tokens gets stuck. -/
theorem scan_eq_error_iff (source : Text) (e : LexicalFault) :
    Token.scan source = .error e ↔
      ∃ before rest ts c, Stuck source before rest ts c ∧ e = faultOf before rest c := by
  constructor
  · intro h
    rcases tokenised_or_stuck source with ⟨body, hbody⟩ | ⟨before, rest, body, c, hstuck⟩
    · rw [hbody.scan_eq_ok] at h
      cases h
    · rw [hstuck.scan_eq] at h
      exact ⟨before, rest, body, c, hstuck, (Except.error.inj h).symm⟩
  · rintro ⟨before, rest, body, c, hstuck, rfl⟩
    exact hstuck.scan_eq

/-- Scanning is longest-match tokenisation. It succeeds with the tokens that the
    source is cut into by taking the longest lexeme wherever a token has to
    start, and it fails where none starts: for want of a closing quote if a quote
    stands there, otherwise because of the character that does. -/
theorem scan_takes_longest_lexemes (source : Text) :
    (∀ ts, Token.scan source = .ok ts ↔
      ∃ body, Tokenised source body [] ∧ ts = body ++ [Token.endAt (Position.behind source)]) ∧
    ∀ e, Token.scan source = .error e ↔
      ∃ before rest body c, source = before ++ rest ∧ Tokenised before body rest ∧
        rest.runes.head? = some c ∧ (∀ u k l, IsLexeme u k l → ¬ u <+: rest) ∧
        e = if c = 34 ∨ c = 39 then ⟨.unterminatedString, 0, Position.behind source⟩
          else ⟨.unexpectedCharacter, c, Position.behind before⟩ := by
  refine ⟨scan_eq_ok_iff source, fun e => (scan_eq_error_iff source e).trans ?_⟩
  constructor
  · rintro ⟨before, rest, body, c, ⟨rfl, hbody, hc, hnone⟩, he⟩
    exact ⟨before, rest, body, c, rfl, hbody, hc, hnone, he⟩
  · rintro ⟨before, rest, body, c, rfl, hbody, hc, hnone, he⟩
    exact ⟨before, rest, body, c, ⟨rfl, hbody, hc, hnone⟩, he⟩

/-- A source with a number that is no double. -/
def tenthSource : Text := utf8 "x1 = 0.1;"

/-- The value of the number, as it is computed. -/
def tenth : Float := Number.ofDigits (utf8 "0") (utf8 "1")

theorem nearest_tenth : Binary.Nearest (1 / 10) tenth := by
  have hzero : utf8 "0" = [48] := by decide
  have hone : utf8 "1" = [49] := by decide
  have hdigit : (49 : UInt8).toNat - 48 = 1 := by decide
  have hvalue : wholeValue (utf8 "0") + fractionValue (utf8 "1") = 1 / 10 := by
    norm_num [hzero, hone, hdigit, wholeValue, fractionValue]
  exact hvalue ▸ nearest_ofDigits _ _

theorem literalOf_tenth : Token.literalOf .number (utf8 "0.1") = some (.number tenth) := by
  have hzero : utf8 "0" = [48] := by decide
  have hdigits : IsDigits (utf8 "0") := by
    rw [hzero]
    exact ⟨List.cons_ne_nil _ _, List.forall_mem_singleton.mpr (by decide)⟩
  have hcut : utf8 "0.1" = utf8 "0" ++ Decimal.point :: utf8 "1" := by decide
  rw [hcut, literalOf_fraction hdigits]
  rfl

/-- The source is cut into four tokens, and its number is read as the double nearest to a
    tenth. -/
theorem tenthSource_scans_to_nearest :
    ∃ ts body x, Token.scan tenthSource = .ok ts ∧ Tokenised tenthSource body [] ∧
      ts = body ++ [Token.endAt (Position.behind tenthSource)] ∧
      (body.map fun t => (t.kind, t.lexeme, t.literal)) =
        [(.identifier, utf8 "x1", none), (.assign, utf8 "=", none),
          (.number, utf8 "0.1", some (.number x)), (.semicolon, utf8 ";", none)] ∧
      Binary.Nearest (1 / 10) x ∧ x.toBits = 0x3FB999999999999A := by
  have hspelled : (Token.scan tenthSource).toOption.map (List.map fun t => (t.kind, t.lexeme)) =
      some [(.identifier, utf8 "x1"), (.assign, utf8 "="), (.number, utf8 "0.1"),
        (.semicolon, utf8 ";"), (.endOfInput, [])] := by decide +kernel
  have hbits : tenth.toBits = 0x3FB999999999999A := by decide +kernel
  cases hscan : Token.scan tenthSource with
  | error e =>
      rw [hscan, Except.toOption, Option.map_none] at hspelled
      exact absurd hspelled (Option.some_ne_none _).symm
  | ok ts =>
      rcases ((scan_takes_longest_lexemes tenthSource).1 ts).mp hscan with ⟨body, hbody, hts⟩
      refine ⟨ts, body, tenth, rfl, hbody, hts, ?_, nearest_tenth, hbits⟩
      have hlist : (body.map fun t => (t.kind, t.lexeme)) =
          [(.identifier, utf8 "x1"), (.assign, utf8 "="), (.number, utf8 "0.1"),
            (.semicolon, utf8 ";")] := by
        rw [hscan, hts, Except.toOption, Option.map_some, List.map_append] at hspelled
        exact List.append_inj_left' (Option.some.inj hspelled) rfl
      -- A token has the value of its lexeme, so kinds and lexemes say everything.
      have hvalues : (body.map fun t => (t.kind, t.lexeme, t.literal)) =
          (body.map fun t => (t.kind, t.lexeme)).map fun entry =>
            (entry.1, entry.2, Token.literalOf entry.1 entry.2) := by
        rw [List.map_map]
        refine List.map_congr_left fun t ht => ?_
        rw [Function.comp_apply, ← ((isLexeme_iff _ _ _).mp (hbody.isLexeme t ht)).1]
      rw [hvalues, hlist]
      simp only [List.map_cons, List.map_nil, literalOf_tenth]
      rfl

end Lexicon

end PocketScript
