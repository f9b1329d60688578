import Mathlib
import PocketScript.Proofs.Program.Moved
import PocketScript.Proofs.Scanning.Longest
import PocketScript.Proofs.Scanning.Position

/-!
# Scanning one source below another

Two sources with a line feed between them scan as the first does, and from the
line feed on as the second does, moved down.

The line feed does three things at once. It cuts the bytes clean, so that
neither source changes how the other is read as characters. It ends every
token and comment of the first. And it is a gap of its own, after which the
second source starts in the first column.

Moving down is the only change to the second source, because the scanner looks
at positions nowhere. The tokens and faults it gives are stamped with them and
that is all, so starting lower moves every stamp by as much (`scanFrom_below`).

A first source that fails decides the outcome where it fails at a character that
starts no token, since the line feed behind it is no help. A string that lacks
its closing quote is different. It goes on across the line feed and may find one
in the second source.

## Main definitions

* `Position.below`: A position moved down.
* `LexicalFault.moved`: A fault at another position.

## Theorems

* `scanFrom_below`: The same characters scan the same further down.
* `scanFrom_append_lineFeed`: A source that scans, a line feed and whatever
  follows.
* `scanFrom_append_lineFeed_of_unexpected`: A source that fails at a character,
  a line feed and whatever follows.
* `scan_append_lineFeed`, `scan_join`: The same for texts.
* `scan_composes_at_line_feed`: Two texts that scan or fail.
-/

namespace PocketScript

/-- A position some lines further down. -/
def Position.below (k : Int) (p : Position) : Position := ⟨p.line + k, p.column⟩

theorem Position.after_below (k : Int) (p : Position) (g : Glyph) :
    (p.below k).after g = (p.after g).below k := by
  by_cases hg : g.code = 10
  · simp only [Position.after, Position.below, if_pos hg, Position.mk.injEq, and_true]
    omega
  · simp only [Position.after, Position.below, if_neg hg]

theorem Position.afterAll_below (k : Int) (gs : List Glyph) : ∀ p : Position,
    (p.below k).afterAll gs = (p.afterAll gs).below k := by
  induction gs with
  | nil => intro p; rfl
  | cons g gs ih =>
      intro p
      have hstep := ih (p.after g)
      rw [← Position.after_below] at hstep
      exact hstep

/-- A fault at another position. -/
def LexicalFault.moved (f : Position → Position) (e : LexicalFault) : LexicalFault :=
  { e with pos := f e.pos }

/-- Starting lower moves every token down by as much, and the fault if there is
    one. -/
theorem scanFrom_below (k : Int) (gs : List Glyph) : ∀ p : Position,
    scanFrom (p.below k) gs =
      ((scanFrom p gs).map (List.map (Token.moved (Position.below k)))).mapError
        (LexicalFault.moved (Position.below k)) := by
  induction gs using scan_induction with
  | stop gap c hgap =>
      intro p
      rw [scanFrom_stop hgap, scanFrom_stop hgap, Position.afterAll_below]
      rfl
  | unexpected gap g rest hgap hg hread =>
      intro p
      rw [scanFrom_unexpected hgap hg hread, scanFrom_unexpected hgap hg hread,
        Position.afterAll_below]
      rfl
  | unterminated gap g rest hgap hg hread =>
      intro p
      rw [scanFrom_unterminated hgap hg hread, scanFrom_unterminated hgap hg hread,
        Position.afterAll_below]
      rfl
  | token gap g taken rest kind literal hgap hread ih =>
      intro p
      rw [scanFrom_gap hgap, scanFrom_token _ hread, scanFrom_gap hgap, scanFrom_token _ hread,
        Position.afterAll_below, Position.afterAll_below, ih]
      cases scanFrom ((p.afterAll gap).afterAll (g :: taken)) rest <;> rfl

/-! ### The line feed -/

/-- A line feed after a gap ends the comment that may be under way. -/
theorem gapAfter_lineFeed {gap : List Glyph} {c : Bool} {g : Glyph}
    (hgap : gapAfter false gap = some c) (hg : g.code = 10) :
    gapAfter false (gap ++ [g]) = some false := by
  rw [gapAfter_append, hgap, Option.bind_some, gapAfter, hg]
  cases c <;> rfl

/-- A line feed at the very end ends no token later than the end itself
    did. -/
theorem eases_append_lineFeed (rest hs : List Glyph) {g : Glyph} (hg : g.code = 10) :
    Eases rest (rest ++ g :: hs) := by
  have hpause : Pauses (g :: hs) := pauses_cons (by rw [hg]; rfl) hs
  rcases rest with _ | ⟨c, _ | ⟨d, rest⟩⟩
  · exact Or.inl hpause
  · exact Or.inr ⟨c, [], g :: hs, rfl, rfl, Or.inl hpause⟩
  · exact Or.inr ⟨c, d :: rest, d :: rest ++ g :: hs, rfl, rfl, Or.inr rfl⟩

/-- A blank is not the second character of an operator. -/
theorem Scanned.operator?_append_blank {g : Glyph} (f : Glyph) (rest hs : List Glyph)
    (hg : g.code.isGapBlank = true) : operator? f (rest ++ g :: hs) = operator? f rest := by
  cases rest with
  | nil => simp [operator?, Kind.ofPair?_blank f.code hg]
  | cons c rest => rfl

/-- A character that starts no token starts none in front of a blank. It is no
    operator together with the blank, and starts nothing else by itself. -/
theorem Scanned.read_unexpected_append_blank {f g : Glyph} {rest : List Glyph}
    (h : read f rest = .unexpected) (hs : List Glyph) (hg : g.code.isGapBlank = true) :
    read f (rest ++ g :: hs) = .unexpected := by
  have hquote := not_quote_of_unexpected h
  have hword : ¬ f.code.startsWord = true := by
    intro hw
    rw [read_word hw, word] at h
    cases h
  have hdigit : ¬ f.code.isDigit = true := by
    intro hd
    rcases numeral_ge (g := f) rest with ⟨l, more, hnumeral⟩
    rw [read_digit hd, hnumeral] at h
    cases h
  rw [read] at h ⊢
  rw [operator?_append_blank f rest hs hg]
  cases hop : operator? f rest with
  | some s =>
      rw [hop] at h
      exact h
  | none => simp only [hquote, hword, hdigit, Bool.false_eq_true, if_false]

theorem Scans.ne_nil {p : Position} {gs : List Glyph} {ts : List Token} (h : Scans p gs ts) :
    ts ≠ [] := by
  cases h <;> exact List.cons_ne_nil _ _

/-- A source that scans, a line feed, and whatever follows. Only the token that
    ends the first source is gone. -/
theorem scanFrom_append_lineFeed {p : Position} {gs : List Glyph} {ts : List Token}
    (h : Scans p gs ts) (hs : List Glyph) {g : Glyph} (hg : g.code = 10) :
    scanFrom p (gs ++ g :: hs) = (scanFrom (p.afterAll (gs ++ [g])) hs).map (ts.dropLast ++ ·) := by
  induction h with
  | @stop p gap c hgap =>
      -- The last gap takes the line feed in and is closed by it.
      rw [← List.singleton_append, ← List.append_assoc, scanFrom_gap (gapAfter_lineFeed hgap hg)]
      cases scanFrom (p.afterAll (gap ++ [g])) hs <;> rfl
  | @token p gap taken rest f kind literal ts hgap hread hrest ih =>
      -- The gap and the token in front stay as they are; what follows the
      -- token is eased.
      have hread' := Scanned.read_eases hread (eases_append_lineFeed rest hs hg)
      have hafter : p.afterAll (gap ++ f :: (taken ++ rest) ++ [g]) =
          ((p.afterAll gap).afterAll (f :: taken)).afterAll (rest ++ [g]) := by
        rw [← Position.afterAll_append, ← Position.afterAll_append]
        simp only [List.append_assoc, List.cons_append]
      rw [List.append_assoc, List.cons_append, List.append_assoc, scanFrom_gap hgap,
        scanFrom_token _ hread', ih, hafter, List.dropLast_cons_of_ne_nil hrest.ne_nil]
      cases scanFrom (((p.afterAll gap).afterAll (f :: taken)).afterAll (rest ++ [g])) hs <;> rfl

theorem Scans.join {p : Position} {gs hs : List Glyph} {ts us : List Token} {g : Glyph}
    (hg : g.code = 10) (h : Scans p gs ts) (hnext : Scans (p.afterAll (gs ++ [g])) hs us) :
    Scans p (gs ++ g :: hs) (ts.dropLast ++ us) := by
  refine scans_of_scanFrom_eq ?_
  rw [scanFrom_append_lineFeed h hs hg, hnext.scanFrom_eq]
  rfl

/-- A source that fails at a character, a line feed, and whatever follows. -/
theorem scanFrom_append_lineFeed_of_unexpected {p : Position} {gs : List Glyph} {e : LexicalFault}
    (h : scanFrom p gs = .error e) (hcause : e.cause = .unexpectedCharacter) (hs : List Glyph)
    {g : Glyph} (hg : g.code = 10) : scanFrom p (gs ++ g :: hs) = .error e := by
  have hblank : g.code.isGapBlank = true := by rw [hg]; rfl
  induction gs using scan_induction generalizing p with
  | stop gap c hgap =>
      rw [scanFrom_stop hgap] at h
      cases h
  | unexpected gap f rest hgap hf hread =>
      rw [scanFrom_unexpected hgap hf hread] at h
      rw [List.append_assoc, List.cons_append, scanFrom_unexpected hgap hf
        (Scanned.read_unexpected_append_blank hread hs hblank), h]
  | unterminated gap f rest hgap hf hread =>
      -- Here the line feed would be part of the string.
      rw [scanFrom_unterminated hgap hf hread] at h
      rw [← Except.error.inj h] at hcause
      cases hcause
  | token gap f taken rest kind literal hgap hread ih =>
      rw [scanFrom_gap hgap, scanFrom_token _ hread] at h
      have hread' := Scanned.read_eases hread (eases_append_lineFeed rest hs hg)
      rw [List.append_assoc, List.cons_append, List.append_assoc, scanFrom_gap hgap,
        scanFrom_token _ hread']
      cases hscan : scanFrom ((p.afterAll gap).afterAll (f :: taken)) rest with
      | ok ts => rw [hscan] at h; cases h
      | error e' =>
          rw [hscan] at h
          rw [Except.error.inj h] at hscan
          rw [ih hscan]
          rfl

/-! ### Texts -/

/-- A text that scans, a line feed, and another text. -/
theorem scan_append_lineFeed {a : Text} {ts : List Token} (ha : Token.scan a = .ok ts) (b : Text) :
    Token.scan (a ++ Text.lineFeed :: b) =
      ((Token.scan b).map fun us => ts.dropLast ++
        us.map (Token.moved (Position.below (Position.start.afterAll a.glyphs).line))).mapError
      (LexicalFault.moved (Position.below (Position.start.afterAll a.glyphs).line)) := by
  have hstart : Position.start.afterAll (a.glyphs ++ [⟨10, [Text.lineFeed]⟩]) =
      Position.start.below (Position.start.afterAll a.glyphs).line := by
    rw [Position.afterAll_append]
    simp only [Position.afterAll, List.foldl_cons, List.foldl_nil, Position.after, if_true,
      Position.below, Position.start, Position.mk.injEq, and_true]
    omega
  rw [Token.scan, Text.glyphs_append_lineFeed,
    scanFrom_append_lineFeed (scans_of_scanFrom_eq ha) b.glyphs rfl, hstart, scanFrom_below,
    Token.scan]
  cases scanFrom Position.start b.glyphs <;> rfl

/-- Two texts with a line feed between them scan to the tokens of both. -/
theorem scan_join {a b : Text} {ts us : List Token} (ha : Token.scan a = .ok ts)
    (hb : Token.scan b = .ok us) :
    Token.scan (a ++ Text.lineFeed :: b) = .ok (ts.dropLast ++
      us.map (Token.moved (Position.below (Position.start.afterAll a.glyphs).line))) := by
  rw [scan_append_lineFeed ha, hb]
  rfl

/-- The token that ends a source is the last one and no other. -/
theorem dropLast_of_scan {source : Text} {ts : List Token} (h : Token.scan source = .ok ts) :
    ts.dropLast = ts.filter fun t => !t.isEnd := by
  rcases (scans_of_scanFrom_eq h).split_end with ⟨us, rfl, hus⟩
  rw [List.dropLast_concat, filter_concat hus]

/-- Scanning is compositional at line feeds. If the first text scans, what comes
    of both is what comes of the second, below the tokens of the first and as
    many lines further down as the first takes. If the first fails at a character
    that starts no token, both together fail there. -/
theorem scan_composes_at_line_feed (a b : Text) :
    (∀ ts, Token.scan a = .ok ts →
      ((∃ vs, Token.scan (a ++ Text.lineFeed :: b) = .ok vs) ↔ ∃ us, Token.scan b = .ok us) ∧
      (∀ us, Token.scan b = .ok us → Token.scan (a ++ Text.lineFeed :: b) =
        .ok ((ts.filter fun t => !t.isEnd) ++
          us.map (Token.moved (Position.below (a.count Text.lineFeed + 1))))) ∧
      ∀ e, Token.scan b = .error e → Token.scan (a ++ Text.lineFeed :: b) =
        .error (e.moved (Position.below (a.count Text.lineFeed + 1)))) ∧
    ∀ e, Token.scan a = .error e → e.cause = .unexpectedCharacter →
      Token.scan (a ++ Text.lineFeed :: b) = .error e := by
  constructor
  · intro ts ha
    have hline : (Position.start.afterAll a.glyphs).line = a.count Text.lineFeed + 1 := by
      rw [Position.start_afterAll, Position.behind]
      exact Int.add_comm _ _
    have hjoined := scan_append_lineFeed ha b
    rw [hline, dropLast_of_scan ha] at hjoined
    cases hb : Token.scan b with
    | ok us =>
        rw [hb] at hjoined
        refine ⟨⟨fun _ => ⟨us, rfl⟩, fun _ => ⟨_, hjoined⟩⟩, ?_, ?_⟩
        · intro us' hus
          rw [← Except.ok.inj hus]
          exact hjoined
        · intro e he
          cases he
    | error e =>
        rw [hb] at hjoined
        refine ⟨⟨?_, ?_⟩, ?_, ?_⟩
        · rintro ⟨vs, hvs⟩
          rw [hjoined] at hvs
          cases hvs
        · rintro ⟨us, hus⟩
          cases hus
        · intro us hus
          cases hus
        · intro e' he
          rw [← Except.error.inj he]
          exact hjoined
  · -- Nothing is asked of the second text.
    intro e ha hcause
    rw [Token.scan, Text.glyphs_append_lineFeed]
    exact scanFrom_append_lineFeed_of_unexpected ha hcause b.glyphs rfl

/-- A comment that is cut short in the middle of a character. -/
def upperSource : Text := utf8 "a\n=#" ++ [195]

def upperTokens : List Token :=
  [⟨.identifier, "a", none, ⟨1, 1⟩⟩, ⟨.assign, "=", none, ⟨2, 1⟩⟩, .endAt ⟨2, 4⟩]

/-- A string over two lines. -/
def lowerSource : Text := utf8 "b'x\ny'"

def lowerTokens : List Token :=
  [⟨.identifier, "b", none, ⟨1, 1⟩⟩,
    ⟨.string, "'x\ny'", some (.string "x\ny"), ⟨1, 2⟩⟩, .endAt ⟨2, 3⟩]

/-- An ampersand without its partner. -/
def faultySource : Text := utf8 "b &"

set_option maxRecDepth 4000 in
theorem upperSource_above_others :
    Token.scan (upperSource ++ Text.lineFeed :: lowerSource) =
      .ok [⟨.identifier, "a", none, ⟨1, 1⟩⟩, ⟨.assign, "=", none, ⟨2, 1⟩⟩,
        ⟨.identifier, "b", none, ⟨3, 1⟩⟩,
        ⟨.string, "'x\ny'", some (.string "x\ny"), ⟨3, 2⟩⟩,
        .endAt ⟨4, 3⟩] ∧
    Token.scan (upperSource ++ Text.lineFeed :: faultySource) =
      .error ⟨.unexpectedCharacter, 38, ⟨3, 3⟩⟩ ∧
    Token.scan (faultySource ++ Text.lineFeed :: lowerSource) =
      .error ⟨.unexpectedCharacter, 38, ⟨1, 3⟩⟩ := by
  have hupper : Token.scan upperSource = .ok upperTokens := by cbv
  have hlower : Token.scan lowerSource = .ok lowerTokens := by cbv
  have hfaulty : Token.scan faultySource = .error ⟨.unexpectedCharacter, 38, ⟨1, 3⟩⟩ := by cbv
  refine ⟨?_, ?_, ?_⟩
  · exact ((scan_composes_at_line_feed upperSource lowerSource).1 _ hupper).2.1 _ hlower
  · exact ((scan_composes_at_line_feed upperSource faultySource).1 _ hupper).2.2 _ hfaulty
  · exact (scan_composes_at_line_feed faultySource lowerSource).2 _ hfaulty rfl

end PocketScript
