import PocketScript.Proofs.Scanning.Lines
import PocketScript.Proofs.Scanning.Tokenised

/-!
# Places of tokens

Every token of a source, and every fault in its characters, has a place among
the bytes of the source, and its position is that of the text in front of the
place.

`Tokenised` cuts a source from the front, so that the place of a token is a step
of the cutting (`Tokenised.exists_place`). A place is always between two
characters, and what stands there is visible: a source is over there, or goes on
with a character that is no blank. That is why reports can point at it. The line
that a place is on, cut out of the source and without the carriage returns at its
end, still has the character at the column of the place (`Place.shown`).

## Main definitions

* `Lexicon.Place`: A place that can be pointed at.
* `Lexicon.Place.Of`: The place of a token.

## Theorems

* `Lexicon.Tokenised.exists_place`: Each token is a step of the cutting.
* `Lexicon.place_of_scan`: Each token of a scan has its place.
* `Lexicon.place_of_scan_error`: So has each fault in the characters.
* `Lexicon.Place.line`, `Lexicon.Place.shown`: What can be seen of a place in
  its line.
-/

namespace PocketScript

namespace Lexicon

/-- A place of a source, between the texts before and behind it, that can be
    pointed at. -/
structure Place (source before rest : Text) : Prop where
  source_eq : source = before ++ rest
  splits : before.Splits rest
  visible : ∀ c, rest.runes.head? = some c → Rune.isGapBlank c = false

namespace Place

variable {source before rest : Text}

/-- The end of a source is a place. -/
theorem end_of (source : Text) : Place source source [] :=
  ⟨(List.append_nil source).symm, Text.splits_nil source, fun _ h => nomatch h⟩

theorem of_tokenised {ts : List Token} (h : Tokenised before ts rest) :
    Place (before ++ rest) before rest := by
  refine ⟨rfl, ?_, ?_⟩
  · by_cases hrest : rest = []
    · rw [hrest]
      exact Text.splits_nil before
    · exact (h.whole hrest).splits rest
  · intro c hc
    cases hglyphs : rest.glyphs with
    | nil =>
        rw [Text.runes, hglyphs] at hc
        cases hc
    | cons g gs =>
        rw [Text.runes, hglyphs, List.map_cons, List.head?_cons, Option.some.injEq] at hc
        rw [← hc]
        exact (not_gap_of_stops h.stops hglyphs).1

variable (h : Place source before rest)

include h

/-- The line that a place is on, and what of it is in front of the place. -/
theorem line : ∃ line, source.lines[before.count Text.lineFeed]? = some line ∧
    line.runes = before.lastLine.runes ++ rest.firstLine.runes := by
  refine ⟨_, ?_, h.splits.runes_line⟩
  rw [h.source_eq]
  exact Text.getElem?_lines_count before rest

/-- A visible character is on the line, also if the line is shown without the
    carriage returns at its end. -/
theorem shown {c : Rune} (hc : rest.runes.head? = some c) :
    ∃ line, source.lines[before.count Text.lineFeed]? = some line ∧
      ∃ more, line.dropTrailingReturns.runes = before.lastLine.runes ++ c :: more := by
  have hvisible := h.visible c hc
  rcases h.line with ⟨line, hline, hrunes⟩
  refine ⟨line, hline, ?_⟩
  have hfirst : rest.firstLine.runes.head? = some c := by
    refine Text.head?_runes_firstLine hc ?_
    rintro rfl
    cases hvisible
  rcases List.head?_eq_some_iff.mp hfirst with ⟨more, hmore⟩
  have hrunes' : line.runes = before.lastLine.runes ++ [c] ++ more := by
    rw [hrunes, hmore, List.append_assoc]
    rfl
  have hreturn : 13 ∉ [c] := by
    rw [List.mem_singleton]
    rintro rfl
    cases hvisible
  rcases Text.dropTrailingReturns_of_append hrunes' (List.cons_ne_nil c []) hreturn with
    ⟨more', _, hshown, _⟩
  exact ⟨more', by rw [hshown, List.append_assoc]; rfl⟩

end Place

/-- Each token is a step of cutting the source. -/
theorem Tokenised.exists_place {before rest : Text} {ts : List Token} (h : Tokenised before ts rest)
    {t : Token} (ht : t ∈ ts) : ∃ above us after, Tokenised above us (t.lexeme ++ after) ∧
      Longest (t.lexeme ++ after) t ∧ t.pos = Position.behind above ∧
      before ++ rest = above ++ (t.lexeme ++ after) ∧ us ++ [t] <+: ts := by
  induction h with
  | start _ => cases ht
  | @token before gap rest ts u hbefore hlongest hpos hgap ih =>
      have hsource :
          before ++ (u.lexeme ++ gap) ++ rest = before ++ (u.lexeme ++ (gap ++ rest)) := by
        rw [List.append_assoc, List.append_assoc]
      rw [hsource]
      rcases List.mem_append.mp ht with ht | ht
      · rcases ih ht with ⟨above, us, after, habove, hlongest', hpos', hsplit, hprefix⟩
        exact ⟨above, us, after, habove, hlongest', hpos', hsplit,
          hprefix.trans (List.prefix_append ts [u])⟩
      · rw [List.mem_singleton.mp ht]
        exact ⟨before, ts, gap ++ rest, hbefore, hlongest, hpos, rfl, List.prefix_rfl⟩

/-- The place between `before` and `rest` is that of the token. -/
structure Place.Of (t : Token) (before rest : Text) : Prop where
  pos : t.pos = Position.behind before
  starts : t.lexeme <+: rest
  ended : t.isEnd = true → rest = []
  filled : t.isEnd = false → ∃ c, t.lexeme.runes.head? = some c ∧ rest.runes.head? = some c

/-- Each token of a scan has its place. -/
theorem place_of_scan {source : Text} {ts : List Token} (h : Token.scan source = .ok ts)
    {t : Token} (ht : t ∈ ts) :
    ∃ before rest, Place source before rest ∧ Place.Of t before rest := by
  rcases (scan_eq_ok_iff source ts).mp h with ⟨body, hbody, rfl⟩
  rcases List.mem_append.mp ht with ht | ht
  · rcases hbody.exists_place ht with ⟨above, us, after, habove, hlongest, hpos, hsource, _⟩
    rw [List.append_nil] at hsource
    refine ⟨above, t.lexeme ++ after, ?_, hpos, List.prefix_append _ _, ?_, ?_⟩
    · rw [hsource]
      exact .of_tokenised habove
    · intro hend
      rw [(hbody.isLexeme t ht).isEnd_eq] at hend
      cases hend
    · intro _
      rcases (isLexeme_iff _ _ _).mp hlongest.lexeme with ⟨_, g, taken, hglyphs, _⟩
      have hrunes : t.lexeme.runes = g.code :: taken.map Glyph.code := by
        rw [Text.runes, hglyphs, List.map_cons]
      refine ⟨g.code, by rw [hrunes]; rfl, ?_⟩
      rw [Text.runes, hlongest.lexeme.isWhole, List.map_append, ← Text.runes, hrunes]
      rfl
  · rw [List.mem_singleton.mp ht]
    refine ⟨source, [], .end_of source, rfl, List.prefix_rfl, fun _ => rfl, fun hend => ?_⟩
    cases hend

/-- A scan has a token that ends it. -/
theorem exists_isEnd_of_scan {source : Text} {ts : List Token} (h : Token.scan source = .ok ts) :
    ∃ t ∈ ts, t.isEnd = true := by
  rcases (scan_eq_ok_iff source ts).mp h with ⟨body, _, rfl⟩
  exact ⟨_, List.mem_append_right body (List.mem_singleton.mpr rfl), rfl⟩

/-- A fault in the characters has its place: that of the character, or the end
    of the source. -/
theorem place_of_scan_error {source : Text} {e : LexicalFault} (h : Token.scan source = .error e) :
    ∃ before rest, Place source before rest ∧ e.pos = Position.behind before ∧
      (e.cause = .unexpectedCharacter ∧
          (∃ c : Rune, rest.runes.head? = some c ∧ e.character = (c : Int)) ∨
        e.cause = .unterminatedString ∧ rest = []) := by
  rcases (scan_eq_error_iff source e).mp h with ⟨before, rest, ts, c, ⟨hsource, hts, hc, _⟩, rfl⟩
  rw [hsource, faultOf]
  split
  · exact ⟨before ++ rest, [], .end_of _, rfl, .inr ⟨rfl, rfl⟩⟩
  · exact ⟨before, rest, .of_tokenised hts, rfl, .inl ⟨rfl, c, hc, rfl⟩⟩

end Lexicon

end PocketScript
