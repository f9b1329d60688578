import Mathlib
import PocketScript.Proofs.Scanning.Tokenised

/-!
# Nothing is lost in scanning

A source can be put together again from what was scanned. Its tokens, each with
the gap in front of it, are written one after the other and a last gap closes
the text.

Tokens do not carry their gaps, so the gaps have to be found: they are the ones
that `Tokenised` passes over when it cuts the source. What it says about a place
where a token starts is said here about the bytes written so far, so that the
position of every token can be read off the pieces in front of it.

A source that does not scan is written the same way up to the place where the
scanner gives up.

## Main definitions

* `Lexicon.Piece`: A token with the gap in front of it.
* `Lexicon.written`: The bytes of pieces.
* `Lexicon.Laid`: Pieces that stand where their tokens say.
* `Lexicon.Cut`: A source is cut into pieces.

## Theorems

* `Lexicon.Tokenised.exists_cut`, `Lexicon.Cut.tokenised`: Cut into tokens is cut
  into pieces.
* `Lexicon.Cut.split`: Up to a piece the source is cut as well.
* `Lexicon.Cut.laid`: So the pieces stand where their tokens say.
* `Lexicon.scan_loses_nothing`: Scanning keeps the source and its positions.
-/

namespace PocketScript

namespace Lexicon

/-- A token with the gap in front of it. -/
structure Piece where
  gap : Text
  token : Token
deriving Repr

/-- The bytes of a list of pieces. -/
def written (pieces : List Piece) : Text := pieces.flatMap fun x => x.gap ++ x.token.lexeme

/-- The piece stands behind the text `above`: its gap is closed, and its token
    takes up some bytes and has the position they start at. No character of the
    source reaches across that place. -/
structure Piece.StandsBehind (above : Text) (x : Piece) : Prop where
  gap : Gap false x.gap
  lexeme : x.token.lexeme ≠ []
  notEnd : x.token.isEnd = false
  boundary : (above ++ x.gap).Whole
  pos : x.token.pos = Position.behind (above ++ x.gap)

/-- Every piece stands behind the ones before it. -/
def Laid (pieces : List Piece) : Prop :=
  ∀ above x below, pieces = above ++ x :: below → x.StandsBehind (written above)

theorem written_concat (pieces : List Piece) (x : Piece) :
    written (pieces ++ [x]) = written pieces ++ (x.gap ++ x.token.lexeme) := by
  simp [written]

/-- A source is cut into pieces up to a gap, with `rest` behind it. This is
    `Tokenised` with the gaps in view: each token has the longest lexeme that
    starts where it stands. -/
inductive Cut : List Piece → (gap rest : Text) → Prop where
  | start {gap rest : Text} : GapBefore gap rest → Cut [] gap rest
  | piece {pieces : List Piece} {last gap rest : Text} {t : Token} :
      Cut pieces last (t.lexeme ++ (gap ++ rest)) → Longest (t.lexeme ++ (gap ++ rest)) t →
      t.pos = Position.behind (written pieces ++ last) → GapBefore gap rest →
      Cut (pieces ++ [⟨last, t⟩]) gap rest

/-- The gap in front of a token is the one that stood last when the token was
    read. -/
theorem Tokenised.exists_cut {before rest : Text} {ts : List Token}
    (h : Tokenised before ts rest) : ∃ pieces gap, Cut pieces gap rest ∧
      before = written pieces ++ gap ∧ ts = pieces.map Piece.token := by
  induction h with
  | @start gap rest hgap => exact ⟨[], gap, .start hgap, rfl, rfl⟩
  | @token before gap rest ts t _ hlongest hpos hgap ih =>
      rcases ih with ⟨pieces, last, hcut, rfl, rfl⟩
      refine ⟨pieces ++ [⟨last, t⟩], gap, .piece hcut hlongest hpos hgap, ?_, ?_⟩
      · rw [written_concat]
        simp only [List.append_assoc]
      · rw [List.map_append]
        rfl

namespace Cut

variable {pieces : List Piece} {gap rest : Text}

theorem gapBefore (h : Cut pieces gap rest) : GapBefore gap rest := by
  cases h with
  | start hgap => exact hgap
  | piece _ _ _ hgap => exact hgap

theorem tokenised (h : Cut pieces gap rest) :
    Tokenised (written pieces ++ gap) (pieces.map Piece.token) rest := by
  induction h with
  | start hgap => exact .start hgap
  | @piece pieces last gap rest t _ hlongest hpos hgap ih =>
      rw [written_concat, List.map_append, List.append_assoc, List.append_assoc,
        ← List.append_assoc]
      exact .token ih hlongest hpos hgap

/-- Up to a piece the source is cut into the pieces in front of it. -/
theorem split {above below : List Piece} {x : Piece} (h : Cut (above ++ x :: below) gap rest) :
    ∃ after, Cut above x.gap (x.token.lexeme ++ after) ∧
      Longest (x.token.lexeme ++ after) x.token ∧
      x.token.pos = Position.behind (written above ++ x.gap) ∧
      written (above ++ x :: below) ++ gap ++ rest =
        written above ++ x.gap ++ (x.token.lexeme ++ after) := by
  generalize hpieces : above ++ x :: below = pieces at h
  induction h generalizing below with
  | start _ => exact absurd hpieces (by simp)
  | @piece pieces last gap rest t hcut hlongest hpos _ ih =>
      -- The piece in question is the last one or stands among the others.
      rcases List.eq_nil_or_concat below with rfl | ⟨between, z, rfl⟩
      · rcases List.append_inj' hpieces rfl with ⟨rfl, hlast⟩
        rw [(List.cons.inj hlast).1]
        refine ⟨gap ++ rest, hcut, hlongest, hpos, ?_⟩
        rw [written_concat]
        simp only [List.append_assoc]
      · rw [List.concat_eq_append, ← List.cons_append, ← List.append_assoc] at hpieces
        rcases ih (List.append_inj' hpieces rfl).1 with ⟨after, hcut', hlongest', hpos', hsource⟩
        refine ⟨after, hcut', hlongest', hpos', ?_⟩
        rw [← hsource, written_concat]
        simp only [List.append_assoc]

theorem laid (h : Cut pieces gap rest) : Laid pieces := by
  rintro above x below rfl
  rcases h.split with ⟨after, hcut, hlongest, hpos, _⟩
  have hne : x.token.lexeme ++ after ≠ [] :=
    List.append_ne_nil_of_left_ne_nil hlongest.lexeme.ne_nil _
  exact ⟨hcut.gapBefore.closed hne, hlongest.lexeme.ne_nil, hlongest.lexeme.isEnd_eq,
    hcut.tokenised.whole hne, hpos⟩

end Cut

/-- A text that is cut into tokens is written by pieces and a gap. -/
theorem Tokenised.exists_laid {before rest : Text} {ts : List Token}
    (h : Tokenised before ts rest) : ∃ pieces gap, Laid pieces ∧ GapBefore gap rest ∧
      before = written pieces ++ gap ∧ ts = pieces.map Piece.token := by
  rcases h.exists_cut with ⟨pieces, gap, hcut, hbefore, hts⟩
  exact ⟨pieces, gap, hcut.laid, hcut.gapBefore, hbefore, hts⟩

/-- Scanning loses nothing and every position is exact. A source that scans is
    its tokens with the gaps in front of them and a last gap, and the end stands
    behind the whole of it. One that does not is such pieces up to a character
    that starts no token, and the fault stands at that character or, if a string
    was opened there, at the end of the source. -/
theorem scan_loses_nothing (source : Text) :
    (∀ ts, Token.scan source = .ok ts → ∃ pieces last, Laid pieces ∧ Gap true last ∧
      source = written pieces ++ last ∧
      ts = pieces.map Piece.token ++ [Token.endAt (Position.behind source)]) ∧
    ∀ e, Token.scan source = .error e → ∃ pieces gap rest c, Laid pieces ∧ Gap false gap ∧
      source = written pieces ++ gap ++ rest ∧ (written pieces ++ gap).Whole ∧
      rest.runes.head? = some c ∧ (∀ u k l, IsLexeme u k l → ¬ u <+: rest) ∧
      (e.cause = .unexpectedCharacter ∧ e.character = c ∧
          e.pos = Position.behind (written pieces ++ gap) ∨
        e.cause = .unterminatedString ∧ (c = 34 ∨ c = 39) ∧ e.pos = Position.behind source) := by
  constructor
  · intro ts h
    rcases (scan_eq_ok_iff source ts).mp h with ⟨body, hbody, rfl⟩
    rcases hbody.exists_laid with ⟨pieces, last, hlaid, hlast, hsource, rfl⟩
    exact ⟨pieces, last, hlaid, hlast.gap, hsource, rfl⟩
  · intro e h
    rcases (scan_eq_error_iff source e).mp h with
      ⟨before, rest, body, c, ⟨rfl, hbody, hc, hnone⟩, rfl⟩
    -- Something is left, so the gap in front of it is closed.
    have hne : rest ≠ [] := by
      rintro rfl
      cases hc
    have hwhole := hbody.whole hne
    rcases hbody.exists_laid with ⟨pieces, gap, hlaid, hgap, rfl, _⟩
    refine ⟨pieces, gap, rest, c, hlaid, hgap.closed hne, rfl, hwhole, hc, hnone, ?_⟩
    by_cases hquote : c = 34 ∨ c = 39
    · rw [faultOf, if_pos hquote]
      exact Or.inr ⟨rfl, hquote, rfl⟩
    · rw [faultOf, if_neg hquote]
      exact Or.inl ⟨rfl, rfl, rfl⟩

/-- A word of two bytes, a string over two lines, and a comment that the source
    cuts short in the middle of a character. -/
def accentedSource : Text := utf8 "é='x\ny' #" ++ [226]

def accentedTokens : List Token :=
  [⟨.identifier, "é", none, ⟨1, 1⟩⟩, ⟨.assign, "=", none, ⟨1, 2⟩⟩,
    ⟨.string, "'x\ny'", some (.string "x\ny"), ⟨1, 3⟩⟩,
    Token.endAt ⟨2, 6⟩]

/-- The same with an ampersand that has no partner instead of the comment. -/
def partnerlessSource : Text := utf8 "é='x\ny' &" ++ [226]

set_option maxRecDepth 4000 in
theorem accentedSource_is_kept :
    (Token.scan accentedSource = .ok accentedTokens ∧ ∃ pieces last, Laid pieces ∧ Gap true last ∧
      accentedSource = written pieces ++ last ∧
      accentedTokens = pieces.map Piece.token ++ [Token.endAt (Position.behind accentedSource)]) ∧
    Token.scan partnerlessSource = .error ⟨.unexpectedCharacter, 38, ⟨2, 4⟩⟩ ∧
      ∃ pieces gap rest, Laid pieces ∧ Gap false gap ∧
        partnerlessSource = written pieces ++ gap ++ rest ∧
        Position.behind (written pieces ++ gap) = ⟨2, 4⟩ := by
  have hscan : Token.scan accentedSource = .ok accentedTokens := by cbv
  have hfail : Token.scan partnerlessSource = .error ⟨.unexpectedCharacter, 38, ⟨2, 4⟩⟩ := by cbv
  refine ⟨⟨hscan, (scan_loses_nothing accentedSource).1 _ hscan⟩, hfail, ?_⟩
  rcases (scan_loses_nothing partnerlessSource).2 _ hfail with
    ⟨pieces, gap, rest, c, hlaid, hgap, hsource, _, _, _, ⟨_, _, hpos⟩ | ⟨hcause, _⟩⟩
  · exact ⟨pieces, gap, rest, hlaid, hgap, hsource, hpos.symm⟩
  · cases hcause

end Lexicon

end PocketScript
