import PocketScript.Proofs.Scanning.Lossless
import PocketScript.Proofs.Scanning.Neighbours

/-!
# Sources put on one line

What becomes of the tokens of a source when blanks take the place of its line
feeds.

A line feed stands in three sorts of places. Among the blanks of a gap it is as
good as a blank. In a string it is a character of the value, and a blank is
another one. And it ends a comment, which then swallows all that follows.

No other lexeme has a line feed or a blank in it. So the longest lexeme of a
source stays the longest one (`Longest.flattened`), and the source is cut as
before up to the first token with a comment in front of it (`Cut.flattened`). The
rest, whatever it was, is one comment.

## Main definitions

* `Text.flattened`, `Token.flattenedAt`: Blanks for line feeds.
* `Lexicon.KeptUpToComment`: The pieces of a source, parted at the first comment
  in front of a token.

## Theorems

* `Lexicon.IsLexeme.flattened`, `Lexicon.exists_isLexeme_of_flattened`: Lexemes
  stay lexemes, and there are no others.
* `Lexicon.Cut.shorten`: A source cut short is cut as before.
* `Lexicon.Cut.flattened`: A flattened source is cut as before up to a comment.
* `Lexicon.scan_flattened`: What a flattened source scans to.
-/

namespace PocketScript

namespace Text

/-- The text on one line: blanks for its line feeds. -/
def flattened (t : Text) : Text := replaceByte lineFeed 32 t

@[simp] theorem flattened_append (a b : Text) : (a ++ b).flattened = a.flattened ++ b.flattened :=
  List.map_append

theorem flattened_cons_of_ne {b : UInt8} (hb : b ≠ lineFeed) (t : Text) :
    flattened (b :: t) = b :: t.flattened :=
  congrArg (· :: t.flattened) (if_neg hb)

theorem mem_flattened_of_ne {b : UInt8} (hb : b ≠ lineFeed) {t : Text} (h : b ∈ t) :
    b ∈ t.flattened :=
  List.mem_map.mpr ⟨b, h, if_neg hb⟩

theorem not_mem_flattened (t : Text) : lineFeed ∉ t.flattened := by
  intro hmem
  rcases List.mem_map.mp hmem with ⟨b, _, hb⟩
  split at hb
  · cases hb
  · rename_i hne
    exact hne hb

/-- A text is as it was exactly if it has no line feeds. -/
theorem flattened_eq_self_iff (t : Text) : t.flattened = t ↔ lineFeed ∉ t := by
  constructor
  · intro heq
    rw [← heq]
    exact t.not_mem_flattened
  · intro hline
    have hsame : ∀ b ∈ t, (if b = lineFeed then 32 else b) = id b :=
      fun b hb => if_neg (ne_of_mem_of_not_mem hb hline)
    rw [flattened, replaceByte, List.map_congr_left hsame, List.map_id]

/-- The characters of a flattened text. -/
theorem glyphs_flattened (t : Text) :
    t.flattened.glyphs = t.glyphs.map fun g => if g.code = 10 then ⟨32, [32]⟩ else g := by
  induction hn : t.length using Nat.strong_induction_on generalizing t with
  | _ n ih =>
    by_cases hline : lineFeed ∈ t
    · rcases List.eq_append_cons_of_mem hline with ⟨above, below, rfl, habove⟩
      rw [List.length_append, List.length_cons] at hn
      have hflat : flattened (above ++ lineFeed :: below) =
          flattened above ++ 32 :: flattened below := flattened_append _ _
      rw [hflat, glyphs_append _ (cutsClean_cons rfl _), glyphs_cons_low rfl,
        glyphs_append_lineFeed, List.map_append, List.map_cons, ih _ (by omega) above rfl,
        ih _ (by omega) below rfl]
      rfl
    · rw [(flattened_eq_self_iff t).mpr hline]
      have hsame : ∀ g ∈ t.glyphs, (if g.code = 10 then ⟨32, [32]⟩ else g) = id g :=
        fun g hg => if_neg (code_ne_of_mem_line hline hg)
      rw [List.map_congr_left hsame, List.map_id]

end Text

/-- The value of a lexeme that is flattened. -/
def Literal.flattened : Literal → Literal
  | .string s => .string s.flattened
  | l => l

/-- The token that a flattened lexeme spells, at a given position. -/
def Token.flattenedAt (p : Position) (t : Token) : Token :=
  ⟨t.kind, t.lexeme.flattened, t.literal.map Literal.flattened, p⟩

namespace Lexicon

/-! ### Lexemes -/

/-- A text without blanks and line feeds. -/
def BlankFree (u : Text) : Prop := 32 ∉ u ∧ Text.lineFeed ∉ u

theorem BlankFree.append {u v : Text} (hu : BlankFree u) (hv : BlankFree v) : BlankFree (u ++ v) :=
  ⟨fun h => (List.mem_append.mp h).elim hu.1 hv.1, fun h => (List.mem_append.mp h).elim hu.2 hv.2⟩

theorem IsWord.blankFree {w : Text} (h : IsWord w) : BlankFree w :=
  ⟨h.not_mem (by decide) (by decide), h.not_mem (by decide) (by decide)⟩

theorem IsDigits.blankFree {ds : Text} (h : IsDigits ds) : BlankFree ds :=
  ⟨fun hmem => absurd (h.2 _ hmem).1 (by decide), fun hmem => absurd (h.2 _ hmem).1 (by decide)⟩

/-- A lexeme is a string, or has neither blanks nor line feeds in it. -/
theorem IsLexeme.quoted_or_blankFree {u : Text} {k : Kind} {l : Option Literal}
    (h : IsLexeme u k l) :
    (∃ q inside, (q = 34 ∨ q = 39) ∧ q ∉ inside ∧ u = q :: (inside ++ [q]) ∧ k = .string ∧
      l = some (.string inside)) ∨
    BlankFree u ∧ l.map Literal.flattened = l := by
  have hsymbol : ∀ k ∈ Kind.symbols, 32 ∉ k.name ∧ Text.lineFeed ∉ k.name := by decide
  have hkeyword : ∀ {w : Text} {k : Kind}, (w, k) ∈ Kind.keywords → BlankFree w :=
    fun hmem => (isWord_of_keyword hmem).blankFree
  cases h with
  | symbol hk => exact Or.inr ⟨hsymbol _ hk, rfl⟩
  | name hword _ => exact Or.inr ⟨hword.blankFree, rfl⟩
  | reserved hmem _ => exact Or.inr ⟨hkeyword ((mem_keywords_iff _).mpr hmem), rfl⟩
  | trueWord => exact Or.inr ⟨hkeyword (k := .trueWord) (by decide), rfl⟩
  | falseWord => exact Or.inr ⟨hkeyword (k := .falseWord) (by decide), rfl⟩
  | nullWord => exact Or.inr ⟨hkeyword (k := .nullWord) (by decide), rfl⟩
  | whole hd _ => exact Or.inr ⟨hd.blankFree, rfl⟩
  | @fraction ds fs _ hd hf _ =>
      have hpoint : BlankFree [Decimal.point] := ⟨by decide, by decide⟩
      exact Or.inr ⟨hd.blankFree.append (hpoint.append hf.blankFree), rfl⟩
  | @quoted q inside hq hin => exact Or.inl ⟨q, inside, hq, hin, rfl, rfl, rfl⟩

theorem ne_blank_of_quote {q : UInt8} (hq : q = 34 ∨ q = 39) : q ≠ 32 ∧ q ≠ Text.lineFeed := by
  rcases hq with rfl | rfl <;> decide

/-- A byte in the place of a quote was that quote. -/
theorem eq_of_flattened {b q : UInt8} (hq : q = 34 ∨ q = 39)
    (h : (if b = Text.lineFeed then 32 else b) = q) : b = q := by
  split at h
  · exact absurd h.symm (ne_blank_of_quote hq).1
  · exact h

theorem flattened_quoted {q : UInt8} (hq : q = 34 ∨ q = 39) (inside : Text) :
    Text.flattened (q :: (inside ++ [q])) = q :: (inside.flattened ++ [q]) := by
  have hne := (ne_blank_of_quote hq).2
  rw [Text.flattened_cons_of_ne hne, Text.flattened_append, Text.flattened_cons_of_ne hne]
  rfl

/-- A lexeme stays a lexeme of its kind. -/
theorem IsLexeme.flattened {u : Text} {k : Kind} {l : Option Literal} (h : IsLexeme u k l) :
    IsLexeme u.flattened k (l.map Literal.flattened) := by
  rcases h.quoted_or_blankFree with ⟨q, inside, hq, hin, rfl, rfl, rfl⟩ | ⟨hfree, hl⟩
  · rw [flattened_quoted hq]
    refine .quoted hq fun hmem => ?_
    rcases List.mem_map.mp hmem with ⟨b, hb, hbyte⟩
    exact hin (eq_of_flattened hq hbyte ▸ hb)
  · rw [(Text.flattened_eq_self_iff u).mpr hfree.2, hl]
    exact h

/-- No other texts become lexemes. -/
theorem exists_isLexeme_of_flattened {u : Text} {k : Kind} {l : Option Literal}
    (h : IsLexeme u.flattened k l) : ∃ l', IsLexeme u k l' := by
  rcases h.quoted_or_blankFree with ⟨q, inside, hq, hin, hu, rfl, _⟩ | ⟨hfree, _⟩
  · rcases List.map_eq_cons_iff.mp hu with ⟨b, rest, rfl, hb, hrest⟩
    rcases List.map_eq_append_iff.mp hrest with ⟨w, last, rfl, hw, hlast⟩
    rcases List.map_eq_singleton_iff.mp hlast with ⟨c, rfl, hc⟩
    rw [eq_of_flattened hq hb, eq_of_flattened hq hc]
    refine ⟨_, .quoted hq fun hmem => hin ?_⟩
    rw [← hw]
    exact Text.mem_flattened_of_ne (ne_blank_of_quote hq).2 hmem
  · -- A line feed would have left a blank.
    have hline : Text.lineFeed ∉ u := fun hmem =>
      hfree.1 (List.mem_map.mpr ⟨_, hmem, if_pos rfl⟩)
    rw [(Text.flattened_eq_self_iff u).mpr hline] at h
    exact ⟨l, h⟩

/-- The longest lexeme stays the longest one. -/
theorem Longest.flattened {t : Token} {after : Text} (h : Longest (t.lexeme ++ after) t)
    (p : Position) :
    Longest (t.lexeme.flattened ++ after.flattened) (t.flattenedAt p) := by
  refine ⟨h.lexeme.flattened, List.prefix_append _ _, fun u k l hu hstarts => ?_⟩
  rw [← Text.flattened_append] at hstarts
  rcases List.prefix_map_iff.mp hstarts with ⟨w, hw, rfl⟩
  rcases exists_isLexeme_of_flattened hu with ⟨l', hlexeme⟩
  have hle := h.longest w k l' hlexeme hw
  simpa only [Token.flattenedAt, Text.flattened, Text.replaceByte, List.length_map] using hle

/-! ### Gaps -/

/-- A blank is a blank on one line too, and starts no comment. -/
theorem flattened_blank {b : UInt8} (hb : b ∈ [32, 9, 13, 10]) :
    (if b = Text.lineFeed then 32 else b) ∈ [(32 : UInt8), 9, 13, 10] ∧ b ≠ 35 := by
  simp only [List.mem_cons, List.not_mem_nil, or_false] at hb
  rcases hb with rfl | rfl | rfl | rfl <;> decide

/-- A gap without comments is blanks. -/
theorem Gap.flattened {atEnd : Bool} {gap : Text} (h : Gap atEnd gap) (hplain : 35 ∉ gap) :
    Gap false gap.flattened := by
  induction h with
  | nil => exact .nil
  | blank hb _ ih =>
      exact .blank (flattened_blank hb).1 (ih fun hmem => hplain (List.mem_cons_of_mem _ hmem))
  | comment _ _ _ => exact absurd List.mem_cons_self hplain
  | cut _ _ => exact absurd List.mem_cons_self hplain

/-- A gap with a comment swallows all that follows. -/
theorem Gap.swallow {atEnd : Bool} {gap : Text} (h : Gap atEnd gap) (hcomment : 35 ∈ gap)
    (rest : Text) : Gap true (gap ++ rest).flattened := by
  have hhash : ∀ t : Text, Gap true (Text.flattened (35 :: t)) := by
    intro t
    rw [Text.flattened_cons_of_ne (by decide)]
    exact .cut t.not_mem_flattened rfl
  induction h with
  | nil => cases hcomment
  | blank hb _ ih =>
      rcases flattened_blank hb with ⟨hblank, hne⟩
      exact .blank hblank (ih ((List.mem_cons.mp hcomment).resolve_left hne.symm))
  | comment _ _ _ => exact hhash _
  | cut _ _ => exact hhash _

/-- A comment that is closed ends with a line feed, and up to there it is one that
    the source cuts short. -/
theorem Gap.exists_lineFeed {gap : Text} (h : Gap false gap) (hcomment : 35 ∈ gap) :
    ∃ above below, gap = above ++ Text.lineFeed :: below ∧ Gap true above := by
  induction h with
  | nil => cases hcomment
  | @blank b t hb _ ih =>
      rcases ih ((List.mem_cons.mp hcomment).resolve_left (flattened_blank hb).2.symm) with
        ⟨above, below, rfl, habove⟩
      exact ⟨b :: above, below, rfl, .blank hb habove⟩
  | @comment c t hc _ _ => exact ⟨35 :: c, t, rfl, .cut hc rfl⟩
  | cut _ hend => cases hend

/-- A closed gap can stand anywhere. -/
theorem Gap.of_closed {gap : Text} (h : Gap false gap) (atEnd : Bool) : Gap atEnd gap := by
  induction h with
  | nil => exact .nil
  | blank hb _ ih => exact .blank hb ih
  | comment hc _ ih => exact .comment hc ih
  | cut _ hend => cases hend

theorem GapBefore.flattened {gap rest : Text} (h : GapBefore gap rest) (hplain : 35 ∉ gap) :
    GapBefore gap.flattened rest.flattened := by
  refine ⟨(h.gap.flattened hplain).of_closed _, fun b more hrest => ?_⟩
  rcases List.map_eq_cons_iff.mp hrest with ⟨b', more', rfl, hb, _⟩
  have hstop := h.stops b' more' rfl
  have hne : b' ≠ Text.lineFeed := by
    rintro rfl
    exact hstop (by decide)
  rw [if_neg hne] at hb
  exact hb ▸ hstop

theorem gapBefore_end {gap : Text} (h : Gap true gap) : GapBefore gap [] :=
  ⟨h, fun _ _ hnil => nomatch hnil⟩

/-! ### Pieces -/

/-- What stands in front of a token does not depend on what follows its lexeme. -/
theorem GapBefore.of_lexeme {gap u after : Text} (h : GapBefore gap (u ++ after)) (hu : u ≠ [])
    (after' : Text) : GapBefore gap (u ++ after') := by
  have hclosed := h.closed (List.append_ne_nil_of_left_ne_nil hu after)
  refine ⟨hclosed.of_closed _, fun b more hrest => ?_⟩
  cases u with
  | nil => exact absurd rfl hu
  | cons c u =>
      rw [← (List.cons.inj hrest).1]
      exact h.stops c (u ++ after) rfl

/-- The longest lexeme of a source is that of a beginning of the source too. -/
theorem Longest.shorten {t : Token} {after after' : Text} (h : Longest (t.lexeme ++ after) t)
    (hstarts : after' <+: after) : Longest (t.lexeme ++ after') t :=
  ⟨h.lexeme, List.prefix_append _ _, fun u k l hu hu' =>
    h.longest u k l hu (hu'.trans ((List.prefix_append_right_inj _).mpr hstarts))⟩

namespace Cut

variable {pieces : List Piece} {gap rest : Text}

/-- A source that is cut short behind a piece is cut as before. -/
theorem shorten (h : Cut pieces gap rest) {gap' rest' : Text}
    (hstarts : gap' ++ rest' <+: gap ++ rest) (hgap : GapBefore gap' rest') :
    Cut pieces gap' rest' := by
  induction h generalizing gap' rest' with
  | start _ => exact .start hgap
  | piece hcut hlongest hpos _ ih =>
      have hbefore := hcut.gapBefore.of_lexeme hlongest.lexeme.ne_nil (gap' ++ rest')
      refine .piece (ih ?_ hbefore) (hlongest.shorten hstarts) hpos hgap
      rw [List.prefix_append_right_inj, List.prefix_append_right_inj]
      exact hstarts

/-- A flattened source is cut into the flattened tokens as long as no comment
    stands in front of them. Behind the last of them there may be any gap. -/
theorem flattened (h : Cut pieces gap rest) (hplain : ∀ x ∈ pieces, 35 ∉ x.gap)
    {gap' rest' : Text} (hsplit : (gap ++ rest).flattened = gap' ++ rest')
    (hgap : GapBefore gap' rest') :
    ∃ us, Tokenised ((written pieces).flattened ++ gap') us rest' ∧
      us.map (Token.moved unplaced) = pieces.map fun x => x.token.flattenedAt .start := by
  induction h generalizing gap' rest' with
  | start _ => exact ⟨[], .start hgap, rfl⟩
  | @piece pieces last gap rest t hcut hlongest _ _ ih =>
      rcases List.forall_mem_append.mp hplain with ⟨hpieces, hlast⟩
      have hbefore := hcut.gapBefore.flattened (hlast _ List.mem_cons_self)
      have hrest : (t.lexeme ++ (gap ++ rest)).flattened =
          t.lexeme.flattened ++ (gap' ++ rest') := by
        rw [Text.flattened_append, hsplit]
      rw [hrest] at hbefore
      have hwhole : (last ++ (t.lexeme ++ (gap ++ rest))).flattened =
          last.flattened ++ (t.lexeme.flattened ++ (gap' ++ rest')) := by
        rw [Text.flattened_append, hrest]
      rcases ih hpieces hwhole hbefore with ⟨us, hus, hmap⟩
      let p := Position.behind ((written pieces).flattened ++ last.flattened)
      have htoken := hlongest.flattened p
      rw [hsplit] at htoken
      refine ⟨us ++ [t.flattenedAt p], ?_, ?_⟩
      · rw [written_concat, Text.flattened_append, Text.flattened_append, List.append_assoc,
          List.append_assoc, ← List.append_assoc]
        exact .token (t := t.flattenedAt p) hus htoken rfl hgap
      · rw [List.map_append, hmap, List.map_append]
        rfl

/-- So if all that is left is one comment when it is flattened, the source scans
    to the tokens in front. -/
theorem scan_flattened (h : Cut pieces gap rest) (hplain : ∀ x ∈ pieces, 35 ∉ x.gap)
    (hgap : Gap true (gap ++ rest).flattened) :
    ∃ us, Token.scan (written pieces ++ gap ++ rest).flattened = .ok us ∧
      us.map (Token.moved unplaced) =
        (pieces.map fun x => x.token.flattenedAt .start) ++ [Token.endAt .start] := by
  rcases h.flattened hplain (List.append_nil _).symm (gapBefore_end hgap) with ⟨us, hus, hmap⟩
  rw [← Text.flattened_append, ← List.append_assoc] at hus
  refine ⟨_, (scan_eq_ok_iff _ _).mpr ⟨us, hus, rfl⟩, ?_⟩
  rw [List.map_append, hmap]
  rfl

/-- In front of a comment that is closed the source could end. -/
theorem exists_above (h : Cut pieces gap rest) (hclosed : Gap false gap) (hcomment : 35 ∈ gap) :
    ∃ above below, written pieces ++ gap ++ rest = above ++ Text.lineFeed :: below ∧
      Token.scan above =
        .ok (pieces.map Piece.token ++ [Token.endAt (Position.behind above)]) := by
  rcases hclosed.exists_lineFeed hcomment with ⟨above, below, rfl, habove⟩
  have hstarts : above ++ [] <+: above ++ Text.lineFeed :: below ++ rest :=
    ⟨Text.lineFeed :: below ++ rest, by simp⟩
  have hcut := h.shorten hstarts (gapBefore_end habove)
  refine ⟨written pieces ++ above, below ++ rest, by simp, ?_⟩
  exact (scan_eq_ok_iff _ _).mpr ⟨_, hcut.tokenised, rfl⟩

end Cut

/-! ### Scanning -/

/-- The source is written by these pieces. No comment stands in front of a token
    that is kept, and one stands in front of the first that is dropped, if any
    is. -/
structure KeptUpToComment (source : Text) (kept dropped : List Piece) (last : Text) : Prop where
  laid : Laid (kept ++ dropped)
  gap : Gap true last
  source_eq : source = written (kept ++ dropped) ++ last
  plain : ∀ x ∈ kept, 35 ∉ x.gap
  commented : ∀ x ∈ dropped.head?, 35 ∈ x.gap

theorem exists_kept (pieces : List Piece) : ∃ kept dropped, pieces = kept ++ dropped ∧
    (∀ x ∈ kept, 35 ∉ x.gap) ∧ ∀ x ∈ dropped.head?, 35 ∈ x.gap := by
  induction pieces with
  | nil => exact ⟨[], [], rfl, List.forall_mem_nil _, fun x hx => nomatch hx⟩
  | cons x pieces ih =>
      by_cases hcomment : 35 ∈ x.gap
      · refine ⟨[], x :: pieces, rfl, List.forall_mem_nil _, fun y hy => ?_⟩
        rw [← Option.some.inj hy]
        exact hcomment
      · rcases ih with ⟨kept, dropped, rfl, hplain, hcommented⟩
        exact ⟨x :: kept, dropped, rfl, List.forall_mem_cons.mpr ⟨hcomment, hplain⟩, hcommented⟩

/-- A flattened source scans to the flattened tokens up to the first comment in
    front of a token. That comment was closed, and the source could end in it. -/
theorem scan_flattened {source : Text} {ts : List Token} (h : Token.scan source = .ok ts) :
    ∃ kept dropped last us, KeptUpToComment source kept dropped last ∧
      ts = (kept ++ dropped).map Piece.token ++ [Token.endAt (Position.behind source)] ∧
      Token.scan source.flattened = .ok us ∧
      us.map (Token.moved unplaced) =
        (kept.map fun x => x.token.flattenedAt .start) ++ [Token.endAt .start] ∧
      (dropped ≠ [] → ∃ above below, source = above ++ Text.lineFeed :: below ∧
        Token.scan above =
          .ok (kept.map Piece.token ++ [Token.endAt (Position.behind above)])) := by
  rcases (scan_eq_ok_iff source ts).mp h with ⟨body, hbody, rfl⟩
  rcases hbody.exists_cut with ⟨pieces, last, hcut, hsource, rfl⟩
  have hgap := hcut.gapBefore.gap
  rcases exists_kept pieces with ⟨kept, dropped, rfl, hplain, hcommented⟩
  have hparted : KeptUpToComment source kept dropped last :=
    ⟨hcut.laid, hgap, hsource, hplain, hcommented⟩
  cases dropped with
  | nil =>
      rw [List.append_nil] at hcut hsource
      have hswallowed : Gap true (last ++ []).flattened := by
        by_cases hcomment : 35 ∈ last
        · exact hgap.swallow hcomment []
        · rw [List.append_nil]
          exact (hgap.flattened hcomment).of_closed true
      rcases hcut.scan_flattened hplain hswallowed with ⟨us, hscan, hmap⟩
      rw [List.append_nil, ← hsource] at hscan
      exact ⟨kept, [], last, us, hparted, rfl, hscan, hmap, fun hne => absurd rfl hne⟩
  | cons x more =>
      rcases hcut.split with ⟨after, hcut', hlongest, _, hwhole⟩
      rw [List.append_nil, ← hsource] at hwhole
      have hcomment := hcommented x rfl
      have hclosed := hcut'.gapBefore.closed
        (List.append_ne_nil_of_left_ne_nil hlongest.lexeme.ne_nil after)
      rcases hcut'.scan_flattened hplain (hclosed.swallow hcomment _) with ⟨us, hscan, hmap⟩
      rcases hcut'.exists_above hclosed hcomment with ⟨above, below, habove, hscan'⟩
      rw [← hwhole] at hscan habove
      exact ⟨kept, x :: more, last, us, hparted, rfl, hscan, hmap,
        fun _ => ⟨above, below, habove, hscan'⟩⟩

end Lexicon

end PocketScript
