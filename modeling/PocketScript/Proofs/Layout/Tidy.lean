import Mathlib
import PocketScript.Proofs.Layout.Trimming
import PocketScript.Proofs.Parser.Exact
import PocketScript.Proofs.Scanning.Join

/-!
# Tidying keeps the program

Tidying changes no token of a source, not even its position, and tidying a
second time changes nothing at all.

A blank that goes stands at the end of a line and outside every token. Three
facts make it invisible to the scanner. A gap without it is a gap in the same
state, since a blank neither starts nor ends a comment. A token in front of it
is followed by a line feed or by nothing, which ends tokens just as well. And
positions behind it start over at the line feed that follows it. A token keeps
all its blanks: it does not end with one, and the lines that end inside it are
open.

The open lines are computed from line feeds counted in lexemes.
`Token.HoldsEnd` says what they are meant to be, from the positions where a
token starts and ends, and `mem_openLines_iff` that the count is right.

## Main definitions

* `Token.HoldsEnd`: A line ends inside a string token.

## Theorems

* `mem_openLines_iff`: The open lines of a token are those that end inside it.
* `Scans.trim`: A trimmed source scans to the same tokens.
* `Scans.closed`: So does one whose last line feeds are replaced by one.
* `closed_closed`, `trimmed_closed`: Tidying is done once.
* `tidy_preserves_and_normalises`: What tidying does to every source.
-/

namespace PocketScript

/-- The line with number `n` ends inside the token, which is a string: the
    token starts on that line or above and ends on a line below. -/
def Token.HoldsEnd (t : Token) (n : Int) : Prop :=
  t.kind = .string ∧ t.pos.line ≤ n ∧ n < (t.pos.afterAll t.lexeme.glyphs).line

namespace Layout

theorem line_after (p : Position) (g : Glyph) : (p.after g).line = glyphMarks.next p.line g := by
  by_cases hg : g.code = 10
  · simp only [Position.after, Marks.next, glyphMarks, hg, if_true, beq_self_eq_true]
  · simp only [Position.after, Marks.next, glyphMarks, if_neg hg, beq_iff_eq]

theorem line_afterAll (gs : List Glyph) : ∀ p : Position,
    (p.afterAll gs).line = glyphMarks.lineAfter p.line gs := by
  induction gs with
  | nil => intro p; rfl
  | cons g gs ih =>
      intro p
      have hrest := ih (p.after g)
      rw [line_after] at hrest
      exact hrest

theorem lineAfter_eq_add (gs : List Glyph) : ∀ n,
    glyphMarks.lineAfter n gs = n + (gs.countP glyphMarks.feed : Int) := by
  induction gs with
  | nil => intro n; exact (Int.add_zero n).symm
  | cons g gs ih =>
      intro n
      have hrest := ih (glyphMarks.next n g)
      rw [List.countP_cons]
      cases hg : glyphMarks.feed g with
      | true =>
          rw [Marks.next, hg] at hrest
          simp only [Marks.lineAfter, List.foldl_cons, Marks.next, hg, if_true] at hrest ⊢
          rw [hrest]
          omega
      | false =>
          rw [Marks.next, hg] at hrest
          simp only [Marks.lineAfter, List.foldl_cons, Marks.next, hg, Bool.false_eq_true,
            if_false] at hrest ⊢
          rw [hrest]
          omega

/-- A character is spelled with a line feed exactly if it is one. -/
theorem count_proper {g : Glyph} (h : g.Proper) :
    g.bytes.count Text.lineFeed = if glyphMarks.feed g then 1 else 0 := by
  rcases h with ⟨b, _, rfl⟩ | ⟨hcode, _, hhigh⟩
  · rw [(marks_byte b).1, List.count_singleton]
    rfl
  · have hfeed : glyphMarks.feed g = false :=
      beq_eq_false_iff_ne.mpr (Nat.ne_of_gt (Nat.lt_of_lt_of_le (by decide) hcode))
    rw [hfeed, List.count_eq_zero_of_not_mem]
    · rfl
    · intro hmem
      exact nomatch hhigh _ hmem

theorem count_ofGlyphs {gs : List Glyph} (h : ∀ g ∈ gs, g.Proper) :
    (Text.ofGlyphs gs).count Text.lineFeed = gs.countP glyphMarks.feed := by
  induction gs with
  | nil => rfl
  | cons g gs ih =>
      have hrest := ih fun c hc => h c (List.mem_cons_of_mem g hc)
      rw [Text.ofGlyphs, List.flatMap_cons, List.count_append, List.countP_cons]
      rw [Text.ofGlyphs] at hrest
      rw [hrest, count_proper (h g List.mem_cons_self)]
      omega

/-- The open lines of a token are the lines that end inside it. -/
theorem mem_openLines_iff (t : Token) (n : Int) : n ∈ t.openLines ↔ t.HoldsEnd n := by
  have hline : (t.pos.afterAll t.lexeme.glyphs).line =
      t.pos.line + (t.lexeme.count Text.lineFeed : Int) := by
    have hcount := count_ofGlyphs fun g hg => Text.proper_of_mem_glyphs (t := t.lexeme) (g := g) hg
    rw [Text.glyphs_spell] at hcount
    rw [line_afterAll, lineAfter_eq_add, hcount]
  rw [Token.openLines, Token.HoldsEnd, hline]
  by_cases hk : t.kind = .string
  · rw [if_pos hk, List.mem_map]
    constructor
    · rintro ⟨i, hi, rfl⟩
      rw [List.mem_range] at hi
      exact ⟨hk, by omega, by omega⟩
    · rintro ⟨_, hle, hlt⟩
      exact ⟨(n - t.pos.line).toNat, List.mem_range.mpr (by omega), by omega⟩
  · rw [if_neg hk]
    exact ⟨fun hmem => absurd hmem List.not_mem_nil, fun hholds => absurd hholds.1 hk⟩

/-- A token keeps its blanks if its line ends are open and it does not end
    with a blank. -/
theorem trim_token {isOpen : Int → Bool} (xs acc : List Glyph) : ∀ n,
    (∀ init c, xs = init ++ [c] → glyphMarks.blank c = false) →
    (∀ u c v, xs = u ++ c :: v → glyphMarks.feed c = true →
      isOpen (glyphMarks.lineAfter n u) = true) →
    glyphMarks.trim isOpen n xs acc = xs ++ acc := by
  induction xs with
  | nil => intro n _ _; rfl
  | cons x xs ih =>
      intro n hlast hopen
      have hrest : glyphMarks.trim isOpen (glyphMarks.next n x) xs acc = xs ++ acc := by
        refine ih _ ?_ ?_
        · rintro init c rfl
          exact hlast (x :: init) c rfl
        · rintro u c v rfl hc
          exact hopen (x :: u) c v rfl hc
      rcases glyphMarks.trim_cons_cases isOpen n x xs acc with
        ⟨hkeep, _⟩ | ⟨_, hblank, hclosed, hat⟩
      · rw [hkeep, hrest]
        rfl
      · -- A blank that could go would stand before a line feed of the token.
        exfalso
        rw [hrest] at hat
        cases xs with
        | nil =>
            rw [hlast [] x rfl] at hblank
            cases hblank
        | cons y ys =>
            have hline := hopen [x] y ys rfl hat
            rw [Marks.lineAfter, List.foldl_cons, List.foldl_nil,
              glyphMarks.next_of_blank hblank, hclosed] at hline
            cases hline

theorem blank_code {g : Glyph} (h : glyphMarks.blank g = true) :
    g.code = 32 ∨ g.code = 9 ∨ g.code = 13 := by
  simpa only [glyphMarks, Bool.or_eq_true, beq_iff_eq, or_assoc] using h

/-- A blank changes no gap. -/
theorem gapAfter_blank {g : Glyph} (h : glyphMarks.blank g = true) (c : Bool) (gap : List Glyph) :
    gapAfter c (g :: gap) = gapAfter c gap := by
  rw [gapAfter]
  rcases blank_code h with hg | hg | hg
  all_goals
    rw [hg]
    cases c <;> rfl

/-- A trimmed gap is a gap in the same state, and what stands behind it is
    where it was unless the gap ends the line. -/
theorem trim_gap (isOpen : Int → Bool) (gap acc : List Glyph) : ∀ p : Position, ∃ gap',
    glyphMarks.trim isOpen p.line gap acc = gap' ++ acc ∧
      (∀ c, gapAfter c gap' = gapAfter c gap) ∧
      (glyphMarks.atEnd acc = false → p.afterAll gap' = p.afterAll gap) := by
  induction gap with
  | nil => intro p; exact ⟨[], rfl, fun _ => rfl, fun _ => rfl⟩
  | cons x gap ih =>
      intro p
      rcases ih (p.after x) with ⟨gap', htrim, hstate, hpos⟩
      rw [line_after] at htrim
      rcases glyphMarks.trim_cons_cases isOpen p.line x gap acc with
        ⟨hkeep, _⟩ | ⟨hdrop, hblank, _, hat⟩
      · refine ⟨x :: gap', by rw [hkeep, htrim]; rfl, ?_, hpos⟩
        intro c
        simp only [gapAfter, hstate]
      · refine ⟨gap', by rw [hdrop, htrim], ?_, ?_⟩
        · intro c
          rw [hstate, gapAfter_blank hblank]
        · -- The gap goes on with a line feed, where positions start over.
          intro hacc
          rw [htrim] at hat
          cases gap' with
          | nil =>
              rw [List.nil_append, hacc] at hat
              cases hat
          | cons y gap' =>
              have hy : y.code = 10 := beq_iff_eq.mp (show (y.code == 10) = true from hat)
              have hover : (p.after x).after y = p.after y := by
                have hline := line_after p x
                rw [glyphMarks.next_of_blank hblank] at hline
                simp only [Position.after, if_pos hy] at hline ⊢
                rw [hline]
              have hrest := hpos hacc
              simp only [Position.afterAll, List.foldl_cons] at hrest ⊢
              rw [← hrest, hover]

/-- What follows a token ends it also when it is trimmed. -/
theorem eases_trim (isOpen : Int → Bool) (n : Int) (xs : List Glyph) :
    Eases xs (glyphMarks.trim isOpen n xs []) := by
  have hpause : ∀ ys : List Glyph, glyphMarks.atEnd ys = true → Pauses ys := by
    intro ys hat
    cases ys with
    | nil => exact pauses_nil
    | cons y ys =>
        refine pauses_cons ?_ ys
        rw [beq_iff_eq.mp (show (y.code == 10) = true from hat)]
        rfl
  cases xs with
  | nil => exact Or.inl pauses_nil
  | cons x xs =>
      rcases glyphMarks.trim_cons_cases isOpen n x xs [] with ⟨hkeep, _⟩ | ⟨hdrop, _, _, hat⟩
      · refine Or.inr ⟨x, xs, _, rfl, hkeep, ?_⟩
        cases xs with
        | nil => exact Or.inl pauses_nil
        | cons y ys =>
            rcases glyphMarks.trim_cons_cases isOpen (glyphMarks.next n x) y ys [] with
              ⟨hkeep', _⟩ | ⟨hdrop', _, _, hat'⟩
            · rw [hkeep']
              exact Or.inr rfl
            · rw [hdrop']
              exact Or.inl (hpause _ hat')
      · rw [hdrop]
        exact Or.inl (hpause _ hat)

/-- The line feeds inside a token that is scanned are at lines that count as
    open. -/
theorem open_of_spelled {isOpen : Int → Bool} {g : Glyph} {taken : List Glyph} {kind : Kind}
    {literal : Option Literal} {q : Position} (hspelled : Scanned.Spelled g taken kind)
    (hproper : ∀ c ∈ g :: taken, c.Proper)
    (hopen : ∀ n ∈ Token.openLines ⟨kind, Text.ofGlyphs (g :: taken), literal, q⟩,
      isOpen n = true)
    {u v : List Glyph} {c : Glyph} (hsplit : g :: taken = u ++ c :: v)
    (hc : glyphMarks.feed c = true) : isOpen (glyphMarks.lineAfter q.line u) = true := by
  have hcode : c.code = 10 := beq_iff_eq.mp (show (c.code == 10) = true from hc)
  have hblank : c.code.isGapBlank = true := by rw [hcode]; rfl
  have hkind : kind = .string := by
    cases u with
    | nil =>
        rw [← (List.cons.inj hsplit).1, hspelled.not_gap.1] at hblank
        cases hblank
    | cons x u =>
        refine (hspelled.blank ?_ hblank).1
        rw [(List.cons.inj hsplit).2]
        exact List.mem_append_right u List.mem_cons_self
  refine hopen _ ?_
  rw [lineAfter_eq_add, Token.openLines, if_pos hkind, List.mem_map]
  refine ⟨u.countP glyphMarks.feed, List.mem_range.mpr ?_, rfl⟩
  change u.countP glyphMarks.feed < (Text.ofGlyphs (g :: taken)).count Text.lineFeed
  rw [count_ofGlyphs hproper, hsplit, List.countP_append, List.countP_cons, hc]
  simp only [if_true]
  omega

end Layout

open Layout

/-- A source that scans scans to the same tokens when it is trimmed, as long
    as the lines that end inside its tokens are open. -/
theorem Scans.trim (isOpen : Int → Bool) {p : Position} {gs : List Glyph} {ts : List Token}
    (h : Scans p gs ts) : (∀ g ∈ gs, g.Proper) →
      (∀ t ∈ ts, ∀ n ∈ t.openLines, isOpen n = true) →
      ∃ q, Scans p (glyphMarks.trim isOpen p.line gs []) (ts.dropLast ++ [Token.endAt q]) := by
  induction h with
  | @stop p gap c hgap =>
      intro _ _
      rcases trim_gap isOpen gap [] p with ⟨gap', htrim, hstate, _⟩
      rw [htrim, List.append_nil]
      exact ⟨_, .stop (by rw [hstate]; exact hgap)⟩
  | @token p gap taken rest g kind literal ts hgap hread hrest ih =>
      intro hproper hopen
      have hspelled := Scanned.spelled_of_read hread
      rcases ih (fun c hc => hproper c (by simp [hc]))
        (fun t ht => hopen t (List.mem_cons_of_mem _ ht)) with ⟨q, hscan⟩
      -- From the back: the rest is trimmed, the token keeps its blanks, and
      -- the gap is trimmed in front of a token.
      have htoken : ∀ acc, glyphMarks.trim isOpen (p.afterAll gap).line (g :: taken) acc =
          g :: taken ++ acc := by
        intro acc
        refine trim_token _ _ _ ?_ ?_
        · intro init c hlast
          have hb := hspelled.last_not_blank hlast
          by_contra hblank
          rcases blank_code (Bool.not_eq_false _ ▸ hblank) with hc | hc | hc
          all_goals
            rw [hc] at hb
            cases hb
        · intro u c v hsplit hc
          exact open_of_spelled hspelled
            (fun d hd => hproper d (by
              simp only [List.mem_append, List.mem_cons] at hd ⊢
              tauto))
            (hopen _ List.mem_cons_self) hsplit hc
      rcases trim_gap isOpen gap (g :: taken ++ glyphMarks.trim isOpen
        ((p.afterAll gap).afterAll (g :: taken)).line rest []) p with ⟨gap', hgap', hstate, hpos⟩
      have hfirst : glyphMarks.feed g = false := by
        refine beq_eq_false_iff_ne.mpr ?_
        intro hg
        have hb := hspelled.not_gap.1
        rw [hg] at hb
        cases hb
      have hwhole : glyphMarks.trim isOpen p.line (gap ++ g :: (taken ++ rest)) [] =
          gap' ++ g :: (taken ++ glyphMarks.trim isOpen
            ((p.afterAll gap).afterAll (g :: taken)).line rest []) := by
        rw [← List.cons_append, glyphMarks.trim_append, glyphMarks.trim_append, ← line_afterAll,
          ← line_afterAll, htoken, hgap']
        rfl
      have hpos' := hpos hfirst
      rw [hwhole, List.dropLast_cons_of_ne_nil hrest.ne_nil, ← hpos']
      rw [← hpos'] at hscan
      refine ⟨q, .token (by rw [hstate]; exact hgap) ?_ hscan⟩
      exact Scanned.read_eases hread (eases_trim isOpen _ rest)

/-- A line feed at the very end can go. It is part of no token, and the end of
    the source ends tokens as well. -/
theorem Scans.dropLineFeed {p : Position} {whole gs : List Glyph} {ts : List Token} {f : Glyph}
    (h : Scans p whole ts) (hf : f.code = 10) : whole = gs ++ [f] →
      ∃ q, Scans p gs (ts.dropLast ++ [Token.endAt q]) := by
  induction h generalizing gs with
  | @stop p gap c hgap =>
      rintro rfl
      rw [gapAfter_append] at hgap
      rcases Option.bind_eq_some_iff.mp hgap with ⟨c', hc', _⟩
      exact ⟨_, .stop hc'⟩
  | @token p gap taken rest g kind literal ts hgap hread hrest ih =>
      intro hwhole
      have hspelled := Scanned.spelled_of_read hread
      rcases List.eq_nil_or_concat rest with rfl | ⟨init, c, rfl⟩
      · -- The line feed would be the last character of the token.
        rcases List.eq_nil_or_concat (g :: taken) with hnil | ⟨init, c, hlast⟩
        · cases hnil
        · rw [List.concat_eq_append] at hlast
          rw [List.append_nil, hlast, ← List.append_assoc] at hwhole
          have hc : c = f := List.singleton_inj.mp (List.append_inj_right' hwhole rfl)
          have hb := hspelled.last_not_blank hlast
          rw [hc, hf] at hb
          cases hb
      · rw [List.concat_eq_append] at hread hwhole ih
        have hsplit : gap ++ g :: (taken ++ init) = gs ∧ [c] = [f] := by
          refine List.append_inj' ?_ rfl
          rw [← hwhole]
          simp only [List.append_assoc, List.cons_append]
        have hc : c = f := List.singleton_inj.mp hsplit.2
        rcases ih (by rw [hc]) with ⟨q, hscan⟩
        -- Two characters are the most that a token looks ahead.
        have hread' : Scanned.read g (taken ++ init) = .token kind literal taken.length := by
          refine Scanned.read_eases hread ?_
          rcases init with _ | ⟨d, _ | ⟨e, init⟩⟩
          · exact Or.inl pauses_nil
          · exact Or.inr ⟨d, [c], [], rfl, rfl, Or.inl pauses_nil⟩
          · exact Or.inr ⟨d, _, _, rfl, rfl, Or.inr rfl⟩
        rw [← hsplit.1, List.dropLast_cons_of_ne_nil hrest.ne_nil]
        exact ⟨q, .token hgap hread' hscan⟩

/-- All line feeds at the very end can go. -/
theorem Scans.dropLineFeeds {p : Position} (fs : List Glyph) : ∀ {gs : List Glyph} {ts : List Token},
    Scans p (gs ++ fs) ts → (∀ f ∈ fs, f.code = 10) →
      ∃ q, Scans p gs (ts.dropLast ++ [Token.endAt q]) := by
  induction fs using List.reverseRecOn with
  | nil =>
      intro gs ts h _
      rcases h.split_end with ⟨us, rfl, _⟩
      rw [List.append_nil] at h
      rw [List.dropLast_concat]
      exact ⟨_, h⟩
  | append_singleton fs f ih =>
      intro gs ts h hfs
      rcases h.dropLineFeed (hfs f (by simp)) (List.append_assoc gs fs [f]).symm with ⟨q, hq⟩
      rcases ih hq (fun c hc => hfs c (List.mem_append_left _ hc)) with ⟨q', hq'⟩
      rw [List.dropLast_concat] at hq'
      exact ⟨q', hq'⟩

namespace Layout

theorem glyphs_lineFeeds {tail : Text} (h : ∀ b ∈ tail, b = Text.lineFeed) :
    ∀ g ∈ tail.glyphs, g.code = 10 := by
  induction tail with
  | nil => intro g hg; cases hg
  | cons b tail ih =>
      intro g hg
      have hb := h b List.mem_cons_self
      rw [Text.glyphs_cons_low (by rw [hb]; rfl)] at hg
      rcases List.mem_cons.mp hg with rfl | hg
      · rw [hb]
        rfl
      · exact ih (fun c hc => h c (List.mem_cons_of_mem b hc)) g hg

theorem cutsClean_lineFeeds {tail : Text} (h : ∀ b ∈ tail, b = Text.lineFeed) :
    Text.CutsClean tail := by
  rintro b r rfl
  rw [h b List.mem_cons_self]
  rfl

/-- What `closed` leaves: nothing, or a body and one line feed. -/
theorem closed_cases (t : Text) :
    (closed t = [] ∧ t.dropTrailing (· == Text.lineFeed) = []) ∨
    ∃ init b, b ≠ Text.lineFeed ∧ t.dropTrailing (· == Text.lineFeed) = init ++ [b] ∧
      closed t = init ++ [b, Text.lineFeed] := by
  rcases List.eq_nil_or_concat (t.dropTrailing (· == Text.lineFeed)) with hnil | ⟨init, b, hb⟩
  · refine Or.inl ⟨?_, hnil⟩
    rw [closed, hnil]
    rfl
  · rw [List.concat_eq_append] at hb
    refine Or.inr ⟨init, b, ?_, hb, ?_⟩
    · have hne : t.rdropWhile (· == Text.lineFeed) ≠ [] := by
        rw [show t.rdropWhile (· == Text.lineFeed) = init ++ [b] from hb]
        exact List.append_ne_nil_of_right_ne_nil _ (List.cons_ne_nil _ _)
      have hlast := List.rdropWhile_last_not _ _ hne
      simp only [show t.rdropWhile (· == Text.lineFeed) = init ++ [b] from hb,
        List.getLast_concat, beq_iff_eq] at hlast
      exact hlast
    · rw [closed, hb]
      simp

/-- Closing a text twice is closing it once. -/
theorem closed_closed (t : Text) : closed (closed t) = closed t := by
  rcases closed_cases t with ⟨hnil, _⟩ | ⟨init, b, hb, _, hclosed⟩
  · rw [hnil]
    rfl
  · have hbody : (closed t).dropTrailing (· == Text.lineFeed) = init ++ [b] := by
      rw [hclosed, show init ++ [b, Text.lineFeed] = (init ++ [b]) ++ [Text.lineFeed] by simp]
      refine (List.rdropWhile_concat_pos _ _ _ rfl).trans ?_
      exact List.rdropWhile_concat_neg _ _ _ (by simpa using hb)
    rw [closed, hbody, hclosed]
    simp

/-- A closed text is trimmed if the text was. -/
theorem trimmed_closed {isOpen : Int → Bool} {n : Int} {t : Text}
    (h : byteMarks.Trimmed isOpen n t) : byteMarks.Trimmed isOpen n (closed t) := by
  rcases dropTrailing_split Text.lineFeed t with ⟨tail, hsplit, htail⟩
  rcases closed_cases t with ⟨hnil, _⟩ | ⟨init, b, _, hbody, hclosed⟩
  · rw [hnil]
    trivial
  · have hat : byteMarks.atEnd tail = true := by
      cases tail with
      | nil => rfl
      | cons c tail => exact beq_iff_eq.mpr (htail c List.mem_cons_self)
    rw [hsplit] at h
    rw [hclosed, show init ++ [b, Text.lineFeed] = (init ++ [b]) ++ [Text.lineFeed] by simp, ← hbody]
    have hfeed : ∀ m, byteMarks.Trimmed isOpen m [Text.lineFeed] := fun m => ⟨rfl, trivial⟩
    exact Marks.Trimmed.replace byteMarks isOpen hat hfeed n h

end Layout

/-- A closed source scans to the same tokens. -/
theorem Scans.closed {t : Text} {ts : List Token} (h : Scans .start t.glyphs ts) :
    ∃ q, Scans .start (closed t).glyphs (ts.dropLast ++ [Token.endAt q]) := by
  rcases dropTrailing_split Text.lineFeed t with ⟨tail, hsplit, htail⟩
  have hbody : ∃ q, Scans .start (t.dropTrailing (· == Text.lineFeed)).glyphs
      (ts.dropLast ++ [Token.endAt q]) := by
    rw [hsplit, Text.glyphs_append _ (cutsClean_lineFeeds htail)] at h
    exact Scans.dropLineFeeds _ h (glyphs_lineFeeds htail)
  rcases closed_cases t with ⟨hnil, hempty⟩ | ⟨init, b, _, hlast, hclosed⟩
  · rw [hempty] at hbody
    rw [hnil]
    exact hbody
  · rcases hbody with ⟨q, hbody⟩
    have hglyphs : (Layout.closed t).glyphs =
        (t.dropTrailing (· == Text.lineFeed)).glyphs ++ [⟨10, [Text.lineFeed]⟩] := by
      rw [hclosed, hlast, show init ++ [b, Text.lineFeed] = (init ++ [b]) ++ [Text.lineFeed] by simp,
        Text.glyphs_append _ (Text.cutsClean_cons rfl [])]
      rfl
    have hjoin := hbody.join (g := ⟨10, [Text.lineFeed]⟩) rfl (Scans.stop (gapAfter_nil false))
    rw [List.dropLast_concat] at hjoin
    rw [hglyphs]
    exact ⟨_, hjoin⟩

/-- What is left of a source that scans. -/
theorem tidy_eq {source : Text} {ts : List Token} (h : Token.scan source = .ok ts) :
    tidy source = .ok (closed (byteMarks.trim (ts.flatMap Token.openLines).contains 1 source [])) := by
  rw [tidy, h]
  dsimp only
  rw [unlines_tidyLines]

/-- The token that ends the input holds no line end, so the open lines are
    those of the tokens before it. -/
theorem openLines_concat (body : List Token) (q : Position) :
    (body ++ [Token.endAt q]).flatMap Token.openLines = body.flatMap Token.openLines := by
  rw [List.flatMap_append]
  exact List.append_nil _

/-- Tidying a source that scans succeeds. The result has the same tokens at
    the same positions, so it parses to the same program if to any; tidying it
    again changes nothing; it is empty or ends with one line feed that ends a
    line which is not empty; and no line of it that ends outside every string
    ends with a blank. A source that does not scan is refused for the same
    reason. -/
theorem tidy_preserves_and_normalises (source : Text) :
    (∀ e, Token.scan source = .error e → tidy source = .error e) ∧
    ∀ ts, Token.scan source = .ok ts → ∃ f us, tidy source = .ok f ∧ Token.scan f = .ok us ∧
      us.filter (fun t => !t.isEnd) = ts.filter (fun t => !t.isEnd) ∧
      (∀ p, parseSource f = .ok p ↔ parseSource source = .ok p) ∧
      tidy f = .ok f ∧
      (f = [] ∨ ∃ init b, b ≠ Text.lineFeed ∧ f = init ++ [b, Text.lineFeed]) ∧
      ∀ (i : Nat) (line : Text), f.lines[i]? = some line →
        (∀ t ∈ us, ¬ t.HoldsEnd (i + 1)) →
        ∀ b, line.getLast? = some b → b ≠ 32 ∧ b ≠ 9 ∧ b ≠ 13 := by
  constructor
  · intro e he
    rw [tidy, he]
  · intro ts hts
    have hscans := scans_of_scanFrom_eq hts
    rcases hscans.split_end with ⟨body, rfl, hbody⟩
    generalize hopened : (body.flatMap Token.openLines).contains = isOpen
    -- The tidy source, and that it scans.
    have htidy := tidy_eq hts
    rw [openLines_concat, hopened] at htidy
    have hsame : ∃ q, Scans .start (closed (byteMarks.trim isOpen 1 source [])).glyphs
        (body ++ [Token.endAt q]) := by
      rcases hscans.trim isOpen (fun g hg => Text.proper_of_mem_glyphs hg) (by
        intro t ht n hn
        rw [← hopened, List.contains_iff_mem, ← openLines_concat, List.mem_flatMap]
        exact ⟨t, ht, hn⟩) with ⟨q, hq⟩
      rw [show Position.start.line = 1 from rfl, ← glyphs_trim] at hq
      rcases hq.closed with ⟨q', hq'⟩
      rw [List.dropLast_concat, List.dropLast_concat] at hq'
      exact ⟨q', hq'⟩
    rcases hsame with ⟨q, hsame⟩
    have hscan : Token.scan (closed (byteMarks.trim isOpen 1 source [])) =
        .ok (body ++ [Token.endAt q]) := hsame.scanFrom_eq
    have htrimmed := trimmed_closed (byteMarks.trimmed_trim isOpen source 1)
    refine ⟨_, _, htidy, hscan, ?_, ?_, ?_, ?_, ?_⟩
    · rw [filter_concat hbody, filter_concat hbody]
    · intro p
      rw [parseSource_eq_ok_iff hscan, parseSource_eq_ok_iff hts, parse_eq_ok_iff, parse_eq_ok_iff,
        Token.beforeEnd_concat hbody, Token.beforeEnd_concat hbody]
    · rw [tidy_eq hscan, openLines_concat, hopened, byteMarks.trim_of_trimmed isOpen _ _ htrimmed,
        closed_closed]
    · rcases closed_cases (byteMarks.trim isOpen 1 source []) with ⟨hnil, _⟩ | ⟨init, b, hb, _, hf⟩
      · exact Or.inl hnil
      · exact Or.inr ⟨init, b, hb, hf⟩
    · intro i line hline hout b hlast
      have hclosed : isOpen (1 + i) = false := by
        by_contra hopen
        rw [← hopened, Bool.not_eq_false, List.contains_iff_mem, List.mem_flatMap] at hopen
        rcases hopen with ⟨t, ht, hn⟩
        rw [mem_openLines_iff, Int.add_comm] at hn
        exact hout t (List.mem_append_left _ ht) hn
      have hblank := trimmed_lines _ 1 i line b htrimmed hline hclosed hlast
      simp only [isTrailing, Bool.or_eq_false_iff, beq_eq_false_iff_ne] at hblank
      exact ⟨hblank.1.1, hblank.1.2, hblank.2⟩

/-- An assignment of a string with a blank before its line feed, a tab at the
    end of the next line, a comment that ends in a blank and a carriage
    return, and a line of one blank. -/
def raggedSource : Text :=
  utf8 "s=\"a \nb\";\t\n# \r\n \n"

/-- Its tokens. -/
def raggedTokens : List Token :=
  [⟨.identifier, "s", none, ⟨1, 1⟩⟩, ⟨.assign, "=", none, ⟨1, 2⟩⟩,
    ⟨.string, "\"a \nb\"", some (.string "a \nb"), ⟨1, 3⟩⟩,
    ⟨.semicolon, ";", none, ⟨2, 3⟩⟩, .endAt ⟨5, 1⟩]

/-- The string keeps its blank; the tab, the end of the comment and the empty
    line go. -/
theorem tidy_raggedSource :
    Token.scan raggedSource = .ok raggedTokens ∧
    ∃ us, tidy raggedSource = .ok (utf8 "s=\"a \nb\";\n#\n") ∧
      Token.scan (utf8 "s=\"a \nb\";\n#\n") = .ok us ∧
      us.filter (fun t => !t.isEnd) = raggedTokens.filter (fun t => !t.isEnd) := by
  have hscan : Token.scan raggedSource = .ok raggedTokens := by cbv
  have htidy : tidy raggedSource = .ok (utf8 "s=\"a \nb\";\n#\n") := by
    rw [tidy, hscan]
    rfl
  rcases (tidy_preserves_and_normalises raggedSource).2 _ hscan with ⟨f, us, hf, hus, hsame, _⟩
  rw [htidy] at hf
  rw [← Except.ok.inj hf] at hus
  exact ⟨hscan, us, htidy, hus, hsame⟩

end PocketScript
