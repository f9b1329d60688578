import PocketScript.Proofs.Scanning.Spelling

/-!
# Gaps and tokens

A source that scans is gaps and tokens in turn.

The scanner passes over a gap without saying what the gap was. `gapAfter`
says it: it follows the characters of a gap with the one bit of state there
is, whether a comment is under way, and fails on a character that belongs to
no gap. `Scans` then puts the pieces in order. Each token stands behind a gap
that has left its last comment, at the position that the characters before it
add up to, and the last gap may end in a comment.

The scanner is a recursion on what is left of the source, and every fact about
sources would have to repeat it. `scan_induction` goes along it once and for all,
for sources that scan and for sources that do not. For those that do,
`scanFrom_eq_ok_iff` trades it for an induction on `Scans`, where a source is
taken apart into a gap, a token and the rest.

## Main definitions

* `gapAfter`: Is a comment under way after these characters of a gap?
* `Glyph.StopsGap`: A character that starts no gap.
* `Scans`: A source is gaps and tokens in turn.

## Theorems

* `skipGap_append`: Passing over a gap.
* `scanFrom_gap`, `scanFrom_token`: What scanning does with a gap and with a
  token in front.
* `scan_induction`: Induction along the scanner.
* `scanFrom_eq_ok_iff`: Scanning succeeds exactly on gaps and tokens in turn.
* `Scans.split_end`: The last token ends the input, and no other does.
-/

namespace PocketScript

/-- Is a comment under way after these characters of a gap, given whether one
    was before? There is no answer if one of them belongs to no gap. -/
def gapAfter : (inComment : Bool) → List Glyph → Option Bool
  | c, [] => some c
  | c, g :: rest =>
    if c then gapAfter (g.code != 10) rest
    else if g.code.isGapBlank then gapAfter false rest
    else if g.code.isHash then gapAfter true rest
    else none

@[simp] theorem gapAfter_nil (c : Bool) : gapAfter c [] = some c := rfl

theorem gapAfter_append (gap rest : List Glyph) : ∀ c,
    gapAfter c (gap ++ rest) = (gapAfter c gap).bind fun c' => gapAfter c' rest := by
  induction gap with
  | nil => intro c; rfl
  | cons g gap ih =>
      intro c
      rw [List.cons_append, gapAfter, gapAfter]
      split
      · exact ih _
      · split
        · exact ih _
        · split
          · exact ih _
          · rfl

theorem Position.afterAll_append (p : Position) (gs hs : List Glyph) :
    p.afterAll (gs ++ hs) = (p.afterAll gs).afterAll hs := List.foldl_append

/-- The scanner passes over the characters of a gap. -/
theorem skipGap_append {gap : List Glyph} (rest : List Glyph) : ∀ {c c' : Bool} (p : Position),
    gapAfter c gap = some c' → skipGap c p (gap ++ rest) = skipGap c' (p.afterAll gap) rest := by
  induction gap with
  | nil =>
      intro c c' p h
      rw [gapAfter_nil, Option.some.injEq] at h
      rw [h]
      rfl
  | cons g gap ih =>
      intro c c' p h
      rw [gapAfter] at h
      rw [List.cons_append, skipGap]
      split at h
      · rename_i hc
        rw [if_pos hc]
        exact ih (p.after g) h
      · rename_i hc
        rw [if_neg hc]
        split at h
        · rename_i hb
          rw [if_pos hb]
          exact ih (p.after g) h
        · rename_i hb
          rw [if_neg hb]
          split at h
          · rename_i hh
            rw [if_pos hh]
            exact ih (p.after g) h
          · cases h

/-- The scanner stops a gap at the first character that belongs to none. -/
theorem skipGap_stop {g : Glyph} (hb : g.code.isGapBlank = false) (hh : g.code.isHash = false)
    (p : Position) (rest : List Glyph) : skipGap false p (g :: rest) = (p, g :: rest) := by
  simp only [skipGap, hb, hh, Bool.false_eq_true, if_false]

/-- What the scanner passes over is a gap, and after it the source is over or
    a token has to start. -/
theorem skipGap_split (gs : List Glyph) : ∀ (c : Bool) (p : Position), ∃ gap rest c',
    gs = gap ++ rest ∧ gapAfter c gap = some c' ∧ skipGap c p gs = (p.afterAll gap, rest) ∧
      (rest = [] ∨ c' = false) := by
  induction gs with
  | nil => intro c p; exact ⟨[], [], c, rfl, rfl, rfl, Or.inl rfl⟩
  | cons g gs ih =>
      intro c p
      -- All three ways of staying inside a gap differ only in the state they
      -- leave behind.
      have hstay : ∀ c₁, (∀ gap c', gapAfter c₁ gap = some c' → gapAfter c (g :: gap) = some c') →
          skipGap c p (g :: gs) = skipGap c₁ (p.after g) gs →
          ∃ gap rest c', g :: gs = gap ++ rest ∧ gapAfter c gap = some c' ∧
            skipGap c p (g :: gs) = (p.afterAll gap, rest) ∧ (rest = [] ∨ c' = false) := by
        intro c₁ hgap hskip
        rcases ih c₁ (p.after g) with ⟨gap, rest, c', hgs, hc', hs, hend⟩
        exact ⟨g :: gap, rest, c', by rw [hgs]; rfl, hgap gap c' hc', by rw [hskip, hs]; rfl, hend⟩
      by_cases hc : c = true
      · exact hstay (g.code != 10) (fun gap c' h => by rw [gapAfter, if_pos hc]; exact h)
          (by rw [skipGap, if_pos hc])
      · by_cases hb : g.code.isGapBlank = true
        · exact hstay false (fun gap c' h => by rw [gapAfter, if_neg hc, if_pos hb]; exact h)
            (by rw [skipGap, if_neg hc, if_pos hb])
        · by_cases hh : g.code.isHash = true
          · exact hstay true
              (fun gap c' h => by rw [gapAfter, if_neg hc, if_neg hb, if_pos hh]; exact h)
              (by rw [skipGap, if_neg hc, if_neg hb, if_pos hh])
          · refine ⟨[], g :: gs, c, rfl, rfl, ?_, Or.inr (Bool.not_eq_true c ▸ hc)⟩
            rw [skipGap, if_neg hc, if_neg hb, if_neg hh]
            rfl

/-- A character that starts no gap: no blank, and not the one that starts a
    comment. -/
def Glyph.StopsGap (g : Glyph) : Prop := g.code.isGapBlank = false ∧ g.code.isHash = false

/-- What the scanner finds behind a gap starts none. -/
theorem skipGap_stops {gs rest : List Glyph} {g : Glyph} : ∀ {c : Bool} {p here : Position},
    skipGap c p gs = (here, g :: rest) → g.StopsGap := by
  induction gs with
  | nil => intro c p here h; cases h
  | cons f gs ih =>
      intro c p here h
      rw [skipGap] at h
      split at h
      · exact ih h
      · split at h
        · exact ih h
        · split at h
          · exact ih h
          · rename_i hb hh
            rw [← (List.cons.inj (Prod.mk.inj h).2).1]
            exact ⟨Bool.not_eq_true _ ▸ hb, Bool.not_eq_true _ ▸ hh⟩

/-- From position `p` on the source is gaps and tokens in turn. -/
inductive Scans : Position → List Glyph → List Token → Prop where
  | stop {p : Position} {gap : List Glyph} {c : Bool} :
      gapAfter false gap = some c → Scans p gap [Token.endAt (p.afterAll gap)]
  | token {p : Position} {gap taken rest : List Glyph} {g : Glyph} {kind : Kind}
      {literal : Option Literal} {ts : List Token} :
      gapAfter false gap = some false →
      Scanned.read g (taken ++ rest) = .token kind literal taken.length →
      Scans ((p.afterAll gap).afterAll (g :: taken)) rest ts →
      Scans p (gap ++ g :: (taken ++ rest))
        (⟨kind, Text.ofGlyphs (g :: taken), literal, p.afterAll gap⟩ :: ts)

/-- After a gap the scanner reads a token, whatever comes of that. -/
theorem scanFrom_of_skipGap {p here : Position} {gs rest : List Glyph} {g : Glyph}
    (hskip : skipGap false p gs = (here, g :: rest)) :
    scanFrom p gs =
      match Scanned.read g rest with
      | .unexpected => .error ⟨.unexpectedCharacter, g.code, here⟩
      | .unterminated => .error ⟨.unterminatedString, 0, here.afterAll (g :: rest)⟩
      | .token kind literal more =>
        (scanFrom (here.afterAll (g :: rest.take more)) (rest.drop more)).map
          (⟨kind, Text.ofGlyphs (g :: rest.take more), literal, here⟩ :: ·) := by
  rw [scanFrom]
  split
  · rename_i hnil
    rw [hskip] at hnil
    cases hnil
  · rename_i here' g' rest' hcons
    rw [hskip] at hcons
    rcases Prod.mk.inj hcons with ⟨rfl, hg⟩
    rcases List.cons.inj hg with ⟨rfl, rfl⟩
    cases Scanned.read g rest with
    | unexpected => rfl
    | unterminated => rfl
    | token kind literal more =>
        dsimp only
        cases scanFrom (here.afterAll (g :: rest.take more)) (rest.drop more) <;> rfl

/-- A gap up to the end of the source is followed by the end. -/
theorem scanFrom_stop {p : Position} {gap : List Glyph} {c : Bool}
    (hgap : gapAfter false gap = some c) :
    scanFrom p gap = .ok [Token.endAt (p.afterAll gap)] := by
  have hskip : skipGap false p gap = (p.afterAll gap, []) := by
    have h := skipGap_append [] p hgap
    rw [List.append_nil] at h
    rw [h]
    cases c <;> rfl
  rw [scanFrom]
  split
  · rename_i here hnil
    rw [hskip] at hnil
    rw [(Prod.mk.inj hnil).1]
  · rename_i hcons
    rw [hskip] at hcons
    cases hcons

/-- A gap in front is passed over, whatever comes of the rest. -/
theorem scanFrom_gap {gap : List Glyph} (hgap : gapAfter false gap = some false) (p : Position)
    (gs : List Glyph) : scanFrom p (gap ++ gs) = scanFrom (p.afterAll gap) gs := by
  rcases skipGap_split gs false (p.afterAll gap) with ⟨gap', rest, c, rfl, hgap', hskip, _⟩
  cases rest with
  | nil =>
      rw [List.append_nil, scanFrom_stop hgap', ← Position.afterAll_append]
      exact scanFrom_stop (by rw [gapAfter_append, hgap]; exact hgap')
  | cons g rest =>
      have hskip' := skipGap_append (gap' ++ g :: rest) p hgap
      rw [hskip] at hskip'
      rw [scanFrom_of_skipGap hskip', scanFrom_of_skipGap hskip]

/-- A token in front is read and the scanner goes on behind it. -/
theorem scanFrom_token {g : Glyph} {taken rest : List Glyph} {kind : Kind}
    {literal : Option Literal} (p : Position)
    (hread : Scanned.read g (taken ++ rest) = .token kind literal taken.length) :
    scanFrom p (g :: (taken ++ rest)) = (scanFrom (p.afterAll (g :: taken)) rest).map
      (⟨kind, Text.ofGlyphs (g :: taken), literal, p⟩ :: ·) := by
  rcases (Scanned.spelled_of_read hread).not_gap with ⟨hb, hh⟩
  rw [scanFrom_of_skipGap (skipGap_stop hb hh p (taken ++ rest)), hread]
  simp only [List.take_left, List.drop_left]

/-- The scanner gives up at a character that starts no token. -/
theorem scanFrom_unexpected {gap rest : List Glyph} {g : Glyph}
    (hgap : gapAfter false gap = some false) (hg : g.StopsGap)
    (hread : Scanned.read g rest = .unexpected) (p : Position) :
    scanFrom p (gap ++ g :: rest) = .error ⟨.unexpectedCharacter, g.code, p.afterAll gap⟩ := by
  rw [scanFrom_gap hgap, scanFrom_of_skipGap (skipGap_stop hg.1 hg.2 _ rest), hread]

/-- A string that is not closed is missed at the end of the source. -/
theorem scanFrom_unterminated {gap rest : List Glyph} {g : Glyph}
    (hgap : gapAfter false gap = some false) (hg : g.StopsGap)
    (hread : Scanned.read g rest = .unterminated) (p : Position) :
    scanFrom p (gap ++ g :: rest) =
      .error ⟨.unterminatedString, 0, p.afterAll (gap ++ g :: rest)⟩ := by
  rw [scanFrom_gap hgap, scanFrom_of_skipGap (skipGap_stop hg.1 hg.2 _ rest), hread,
    Position.afterAll_append]

/-- Induction along the scanner. Behind a gap the source is over, no token can
    be read, or there is a token and the scanner goes on with less than it had. -/
@[elab_as_elim]
theorem scan_induction {motive : List Glyph → Prop}
    (stop : ∀ gap c, gapAfter false gap = some c → motive gap)
    (unexpected : ∀ gap g rest, gapAfter false gap = some false → g.StopsGap →
      Scanned.read g rest = .unexpected → motive (gap ++ g :: rest))
    (unterminated : ∀ gap g rest, gapAfter false gap = some false → g.StopsGap →
      Scanned.read g rest = .unterminated → motive (gap ++ g :: rest))
    (token : ∀ gap g taken rest kind literal, gapAfter false gap = some false →
      Scanned.read g (taken ++ rest) = .token kind literal taken.length → motive rest →
      motive (gap ++ g :: (taken ++ rest)))
    (gs : List Glyph) : motive gs := by
  induction hn : gs.length using Nat.strong_induction_on generalizing gs with
  | _ n ih =>
    rcases skipGap_split gs false .start with ⟨gap, rest, c, rfl, hgap, hskip, hend⟩
    cases rest with
    | nil =>
        rw [List.append_nil]
        exact stop gap c hgap
    | cons g rest =>
        -- A comment would have gone on to the end of the source.
        have hc : c = false := hend.resolve_left (List.cons_ne_nil g rest)
        subst hc
        cases hread : Scanned.read g rest with
        | unexpected => exact unexpected gap g rest hgap (skipGap_stops hskip) hread
        | unterminated => exact unterminated gap g rest hgap (skipGap_stops hskip) hread
        | token kind literal more =>
            rcases Scanned.read_spelled hread with ⟨taken, tail, rfl, rfl, _⟩
            refine token gap g taken tail kind literal hgap hread (ih tail.length ?_ tail rfl)
            rw [← hn]
            simp only [List.length_append, List.length_cons]
            omega

theorem Scans.scanFrom_eq {p : Position} {gs : List Glyph} {ts : List Token}
    (h : Scans p gs ts) : scanFrom p gs = .ok ts := by
  induction h with
  | stop hgap => exact scanFrom_stop hgap
  | token hgap hread _ ih =>
      rw [scanFrom_gap hgap, scanFrom_token _ hread, ih]
      rfl

theorem scans_of_scanFrom_eq {p : Position} {gs : List Glyph} {ts : List Token}
    (h : scanFrom p gs = .ok ts) : Scans p gs ts := by
  induction gs using scan_induction generalizing p ts with
  | stop gap c hgap =>
      rw [scanFrom_stop hgap] at h
      rw [← Except.ok.inj h]
      exact .stop hgap
  | unexpected gap g rest hgap hg hread =>
      rw [scanFrom_unexpected hgap hg hread] at h
      cases h
  | unterminated gap g rest hgap hg hread =>
      rw [scanFrom_unterminated hgap hg hread] at h
      cases h
  | token gap g taken rest kind literal hgap hread ih =>
      rw [scanFrom_gap hgap, scanFrom_token _ hread] at h
      cases hscan : scanFrom ((p.afterAll gap).afterAll (g :: taken)) rest with
      | error e => rw [hscan] at h; cases h
      | ok us =>
          rw [hscan] at h
          rw [← Except.ok.inj h]
          exact .token hgap hread (ih hscan)

/-- Scanning succeeds exactly on gaps and tokens in turn. -/
theorem scanFrom_eq_ok_iff (p : Position) (gs : List Glyph) (ts : List Token) :
    scanFrom p gs = .ok ts ↔ Scans p gs ts :=
  ⟨scans_of_scanFrom_eq, Scans.scanFrom_eq⟩

/-- A scan ends with the one token that ends the input, where the source
    ends. -/
theorem Scans.split_end {p : Position} {gs : List Glyph} {ts : List Token} (h : Scans p gs ts) :
    ∃ us, ts = us ++ [Token.endAt (p.afterAll gs)] ∧ ∀ u ∈ us, u.isEnd = false := by
  induction h with
  | stop _ => exact ⟨[], rfl, fun u hu => nomatch hu⟩
  | @token p gap taken rest g kind literal ts _ hread _ ih =>
      rcases ih with ⟨us, rfl, hus⟩
      refine ⟨⟨kind, Text.ofGlyphs (g :: taken), literal, p.afterAll gap⟩ :: us, ?_, ?_⟩
      · have hend : p.afterAll (gap ++ g :: (taken ++ rest)) =
            ((p.afterAll gap).afterAll (g :: taken)).afterAll rest := by
          rw [← Position.afterAll_append, ← Position.afterAll_append]
          rfl
        rw [hend]
        rfl
      · intro u hu
        rcases List.mem_cons.mp hu with rfl | hu
        · exact beq_eq_false_iff_ne.mpr (Scanned.spelled_of_read hread).kind_ne_end
        · exact hus u hu

/-- The token that ends the input is left out. -/
theorem filter_concat {body : List Token} (h : ∀ t ∈ body, t.isEnd = false) (q : Position) :
    (body ++ [Token.endAt q]).filter (fun t => !t.isEnd) = body := by
  rw [List.filter_append, List.filter_eq_self.mpr (fun t ht => by rw [h t ht]; rfl)]
  exact List.append_nil body

end PocketScript
