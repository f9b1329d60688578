import Mathlib
import PocketScript.Proofs.Scanning.Tokenised

/-!
# Tokens written out

Tokens that are written one blank apart read back as the same tokens.

Two tokens that stand side by side in a source need nothing between them, as in
`3abc` or `a===b`, and what parts them there is that each goes on as far as it
can. A blank parts any two tokens. It ends the one in front of it, because a
blank goes on with no token, and it starts nothing itself. So it is enough to
look at one token at a time: a lexeme that has a blank behind it, or nothing, is
read as itself (`Lexicon.IsLexeme.scanFrom_eq`).

What a lexeme holds does not matter for this. A string may have blanks, line
feeds, the sign that starts a comment and bytes that spell no character inside,
and it is still read up to its closing quote.

## Theorems

* `Lexicon.IsLexeme.scanFrom_eq`: A lexeme with a pause behind it.
* `Lexicon.scanFrom_join`: Lexemes one blank apart.
* `Token.render_map_moved`: Writing tokens out asks for no positions.
* `scan_render`: Tokens written out read back as themselves.
-/

namespace PocketScript

/-- Writing tokens out asks for no positions. -/
theorem Token.render_map_moved (f : Position → Position) (ts : List Token) :
    Token.render (ts.map (Token.moved f)) = Token.render ts := by
  rw [Token.render, Token.render, List.filter_map, List.map_map]
  rfl

/-- A blank is a character by itself. -/
theorem Text.glyphs_blank (t : Text) : (utf8 " " ++ t).glyphs = ⟨32, [32]⟩ :: t.glyphs :=
  Text.glyphs_cons_low rfl t

namespace Lexicon

/-- A lexeme with a pause behind it is read as itself. -/
theorem IsLexeme.scanFrom_eq {t : Token} (h : IsLexeme t.lexeme t.kind t.literal) (tail : Text)
    (hpause : Pauses tail.glyphs) (p : Position) : scanFrom p (t.lexeme ++ tail).glyphs =
      (scanFrom (p.afterAll t.lexeme.glyphs) tail.glyphs).map (t.moved (fun _ => p) :: ·) := by
  -- With nothing behind it the lexeme is the longest there is, so it is read
  -- there, and a pause ends it no later.
  have halone := h.longest
  rw [← List.append_nil t.lexeme] at halone
  rcases halone.read_eq with ⟨g, taken, hglyphs, hread⟩
  rw [h.isWhole, hglyphs, List.cons_append,
    scanFrom_token p (Scanned.read_eases hread (Or.inl hpause)), ← hglyphs, Text.glyphs_spell]
  rfl

/-- Lexemes one blank apart are read as themselves. -/
theorem scanFrom_join (ts : List Token) : ∀ p : Position,
    (∀ t ∈ ts, IsLexeme t.lexeme t.kind t.literal) →
    ∃ us, scanFrom p (Text.join " " (ts.map Token.lexeme)).glyphs = .ok us ∧
      us.map (Token.moved unplaced) = ts.map (Token.moved unplaced) ++ [Token.endAt .start] := by
  induction ts with
  | nil =>
      intro p _
      exact ⟨_, scanFrom_stop (gapAfter_nil false), rfl⟩
  | cons t ts ih =>
      intro p h
      have ht := h t List.mem_cons_self
      cases ts with
      | nil =>
          have halone := ht.scanFrom_eq [] pauses_nil p
          rw [List.append_nil, Text.glyphs_nil, scanFrom_stop (gapAfter_nil false)] at halone
          exact ⟨_, halone, rfl⟩
      | cons t' ts =>
          let rest := Text.join " " ((t' :: ts).map Token.lexeme)
          have hpause : Pauses (utf8 " " ++ rest).glyphs := by
            rw [Text.glyphs_blank]
            exact pauses_cons rfl rest.glyphs
          have hscan := ht.scanFrom_eq (utf8 " " ++ rest) hpause p
          -- The blank is a gap, and the tokens behind it are read from there.
          rw [Text.glyphs_blank, ← List.singleton_append, scanFrom_gap rfl] at hscan
          rcases ih _ fun u hu => h u (List.mem_cons_of_mem t hu) with ⟨us, hus, hsame⟩
          rw [hus, ← List.append_assoc] at hscan
          refine ⟨_, hscan, ?_⟩
          rw [List.map_cons, hsame]
          rfl

end Lexicon

/-- Tokens written out one blank apart read back as the same tokens, positions
    aside, and are written out the same again. -/
theorem scan_render {source : Text} {ts : List Token} (h : Token.scan source = .ok ts) :
    ∃ us, Token.scan (Token.render ts) = .ok us ∧
      us.map (Token.moved unplaced) = ts.map (Token.moved unplaced) ∧
      Token.render us = Token.render ts := by
  rcases (Lexicon.scan_eq_ok_iff source ts).mp h with ⟨body, hbody, rfl⟩
  have hlexemes := hbody.isLexeme
  -- The token that ends the input is not written, and comes back by itself.
  have hrender : Token.render (body ++ [Token.endAt (Position.behind source)]) =
      Text.join " " (body.map Token.lexeme) := by
    rw [Token.render, filter_concat fun t ht => (hlexemes t ht).isEnd_eq]
  rcases Lexicon.scanFrom_join body Position.start hlexemes with ⟨us, hus, hsame⟩
  have hunplaced : us.map (Token.moved unplaced) =
      (body ++ [Token.endAt (Position.behind source)]).map (Token.moved unplaced) := by
    rw [hsame, List.map_append]
    rfl
  refine ⟨us, ?_, hunplaced, ?_⟩
  · rw [hrender]
    exact hus
  · rw [← Token.render_map_moved unplaced us, hunplaced, Token.render_map_moved]

/-- Tokens with nothing between them: `a===---b` and a string that holds a
    comment sign, a line feed and a stray byte. -/
def crowdedSource : Text := utf8 "a===---b'#\n" ++ [255] ++ utf8 "'"

def crowdedTokens : List Token :=
  [⟨.identifier, "a", none, ⟨1, 1⟩⟩, ⟨.equal, "==", none, ⟨1, 2⟩⟩,
    ⟨.assign, "=", none, ⟨1, 4⟩⟩, ⟨.decrement, "--", none, ⟨1, 5⟩⟩,
    ⟨.minus, "-", none, ⟨1, 7⟩⟩, ⟨.identifier, "b", none, ⟨1, 8⟩⟩,
    ⟨.string, utf8 "'#\n" ++ [255] ++ utf8 "'", some (.string (utf8 "#\n" ++ [255])), ⟨1, 9⟩⟩,
    .endAt ⟨2, 3⟩]

set_option maxRecDepth 4000 in
theorem crowdedTokens_read_back :
    Token.scan crowdedSource = .ok crowdedTokens ∧
    ∃ us, Token.scan (utf8 "a == = -- - b '#\n" ++ [255] ++ utf8 "'") = .ok us ∧
      us.map (Token.moved unplaced) = crowdedTokens.map (Token.moved unplaced) := by
  have hscan : Token.scan crowdedSource = .ok crowdedTokens := by cbv
  rcases scan_render hscan with ⟨us, hus, hsame, _⟩
  exact ⟨hscan, us, hus, hsame⟩

end PocketScript
