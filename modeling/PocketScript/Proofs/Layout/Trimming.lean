import Mathlib.Data.List.DropRight
import PocketScript.Layout
import PocketScript.Proofs.Text.Glyphs

/-!
# Trimming line ends

Tidying cuts a text into lines, shortens the lines and glues them together
again. Tokens are not made of lines, so this is the wrong shape for saying
what tidying does to them.

`trim` is the same edit made in one walk over the text. Seen from a blank, all
that counts is what is left of the text behind it: if that is over or goes on
with a line feed, and the line is not open, the blank goes too. So the walk
works from the back, and a piece of a text is trimmed in front of whatever the
trimmed rest turned out to be. That is what makes it fall apart over gaps and
tokens (`trim_append`).

The walk is over a list of any kind of marks, because it is needed twice, over
bytes and over characters. The two agree (`glyphs_trim`): a byte that goes is
a character by itself, and the run of high bytes that decides how a character
is read is never cut.

## Main definitions

* `Marks`: What counts as a line feed and as a blank.
* `trim`: A list without the blanks at the ends of its lines.
* `Trimmed`: A list with no blank left to drop.

## Theorems

* `trim_append`: A piece is trimmed in front of the trimmed rest.
* `trim_of_trimmed`, `trimmed_trim`: Trimming is done once.
* `unlines_tidyLines`: Tidying lines is trimming.
* `glyphs_trim`: Trimming bytes is trimming characters.
-/

namespace PocketScript

namespace Layout

/-- What ends a line and what a line does not keep at its end. -/
structure Marks (α : Type) where
  feed : α → Bool
  blank : α → Bool
  apart : ∀ a, blank a = true → feed a = false

namespace Marks

variable {α : Type} (m : Marks α)

/-- The number of the line after `x`, which stands on line `n`. -/
def next (n : Int) (x : α) : Int := if m.feed x then n + 1 else n

/-- Is the line over here? -/
def atEnd : List α → Bool
  | [] => true
  | x :: _ => m.feed x

/-- The list without the blanks at the ends of its lines from number `n` on,
    in front of `acc`. Lines that are open keep theirs. -/
def trim (isOpen : Int → Bool) : (n : Int) → List α → (acc : List α) → List α
  | _, [], acc => acc
  | n, x :: xs, acc =>
    let rest := trim isOpen (m.next n x) xs acc
    if m.blank x && !isOpen n && m.atEnd rest then rest else x :: rest

/-- No line from number `n` on ends with a blank, unless it is open. -/
def Trimmed (isOpen : Int → Bool) : (n : Int) → List α → Prop
  | _, [] => True
  | n, x :: xs =>
    (m.blank x && !isOpen n && m.atEnd xs) = false ∧ Trimmed isOpen (m.next n x) xs

variable (isOpen : Int → Bool)

/-- A blank stands on the same line as what follows it. -/
theorem next_of_blank {x : α} (hx : m.blank x = true) (n : Int) : m.next n x = n := by
  rw [next, m.apart x hx]
  rfl

/-- The first of a list is kept, or it is a blank at the end of a line. -/
theorem trim_cons_cases (n : Int) (x : α) (xs acc : List α) :
    (m.trim isOpen n (x :: xs) acc = x :: m.trim isOpen (m.next n x) xs acc ∧
      (m.blank x && !isOpen n && m.atEnd (m.trim isOpen (m.next n x) xs acc)) = false) ∨
    (m.trim isOpen n (x :: xs) acc = m.trim isOpen (m.next n x) xs acc ∧
      m.blank x = true ∧ isOpen n = false ∧
      m.atEnd (m.trim isOpen (m.next n x) xs acc) = true) := by
  rw [trim]
  cases hdrop : m.blank x && !isOpen n && m.atEnd (m.trim isOpen (m.next n x) xs acc) with
  | false => exact Or.inl ⟨by simp only [Bool.false_eq_true, if_false], rfl⟩
  | true =>
      refine Or.inr ⟨by simp only [if_true], ?_⟩
      simpa only [Bool.and_eq_true, Bool.not_eq_true', and_assoc] using hdrop

/-- What is not a blank is kept. -/
theorem trim_cons_of_not_blank (n : Int) {x : α} (hx : m.blank x = false) (xs acc : List α) :
    m.trim isOpen n (x :: xs) acc = x :: m.trim isOpen (m.next n x) xs acc := by
  rcases m.trim_cons_cases isOpen n x xs acc with ⟨hkeep, _⟩ | ⟨_, hblank, _⟩
  · exact hkeep
  · rw [hx] at hblank
    cases hblank

/-- The number of the line after a list that starts on line `n`. -/
def lineAfter (n : Int) (xs : List α) : Int := xs.foldl m.next n

/-- A piece of a list is trimmed in front of the trimmed rest. -/
theorem trim_append (xs ys acc : List α) : ∀ n,
    m.trim isOpen n (xs ++ ys) acc =
      m.trim isOpen n xs (m.trim isOpen (m.lineAfter n xs) ys acc) := by
  induction xs with
  | nil => intro n; rfl
  | cons x xs ih =>
      intro n
      rw [List.cons_append, trim, trim, ih (m.next n x)]
      rfl

theorem trim_of_trimmed (xs : List α) : ∀ n, m.Trimmed isOpen n xs → m.trim isOpen n xs [] = xs := by
  induction xs with
  | nil => intro n _; rfl
  | cons x xs ih =>
      intro n h
      rw [Trimmed] at h
      rw [trim, ih _ h.2]
      simp only [h.1, Bool.false_eq_true, if_false]

theorem trimmed_trim (xs : List α) : ∀ n, m.Trimmed isOpen n (m.trim isOpen n xs []) := by
  induction xs with
  | nil => intro n; trivial
  | cons x xs ih =>
      intro n
      rcases m.trim_cons_cases isOpen n x xs [] with ⟨hkeep, hstays⟩ | ⟨hdrop, hblank, _, _⟩
      · rw [hkeep]
        exact ⟨hstays, ih (m.next n x)⟩
      · have hrest := ih (m.next n x)
        rw [hdrop]
        rw [m.next_of_blank hblank] at hrest ⊢
        exact hrest

/-- What a line end is replaced with does not matter, as long as it is a line
    end. -/
theorem Trimmed.replace {xs ys zs : List α} (hy : m.atEnd ys = true)
    (hz : ∀ n, m.Trimmed isOpen n zs) : ∀ n, m.Trimmed isOpen n (xs ++ ys) →
      m.Trimmed isOpen n (xs ++ zs) := by
  induction xs with
  | nil => intro n _; exact hz n
  | cons x xs ih =>
      intro n h
      rw [List.cons_append, Trimmed] at h ⊢
      refine ⟨?_, ih _ h.2⟩
      cases xs with
      | cons x' xs => exact h.1
      | nil =>
          have hx := h.1
          rw [List.nil_append, hy, Bool.and_true] at hx
          rw [hx]
          rfl

end Marks

/-- The marks of bytes. -/
def byteMarks : Marks UInt8 where
  feed b := b == Text.lineFeed
  blank := isTrailing
  apart b h := by
    simp only [isTrailing, Bool.or_eq_true, beq_iff_eq] at h
    rcases h with (rfl | rfl) | rfl <;> rfl

/-- The marks of characters. -/
def glyphMarks : Marks Glyph where
  feed g := g.code == 10
  blank g := g.code == 32 || g.code == 9 || g.code == 13
  apart g h := by
    simp only [Bool.or_eq_true, beq_iff_eq] at h
    rcases h with (h | h) | h <;> rw [h] <;> rfl

/-- Byte by byte, from the back. -/
theorem dropTrailing_cons (p : UInt8 → Bool) (b : UInt8) (t : Text) :
    Text.dropTrailing p (b :: t) =
      if p b = true ∧ Text.dropTrailing p t = [] then [] else b :: Text.dropTrailing p t := by
  simp only [Text.dropTrailing, List.reverse_cons, List.dropWhile_append, List.reverse_eq_nil_iff]
  by_cases hempty : t.reverse.dropWhile p = []
  · simp only [hempty, List.isEmpty_nil, if_true, and_true]
    cases hb : p b <;> simp [hb]
  · have hne : (t.reverse.dropWhile p).isEmpty = false := by simpa using hempty
    simp [hne, hempty]

/-- What is dropped at the end of a text is a run of the one byte. -/
theorem dropTrailing_split (c : UInt8) (t : Text) : ∃ tail,
    t = t.dropTrailing (· == c) ++ tail ∧ ∀ b ∈ tail, b = c := by
  refine ⟨t.rtakeWhile (· == c), ?_, ?_⟩
  · exact List.rdropWhile_append_rtakeWhile.symm
  · intro b hb
    have hdropped := List.mem_rtakeWhile_imp hb
    exact beq_iff_eq.mp hdropped

theorem splitOn_ne_nil (sep : UInt8) (t : Text) : Text.splitOn sep t ≠ [] := by
  cases t with
  | nil => exact List.cons_ne_nil _ _
  | cons b r =>
      rw [Text.splitOn]
      split
      · exact List.cons_ne_nil _ _
      · split <;> exact List.cons_ne_nil _ _

/-- The first line of a text goes up to its first line feed. -/
theorem lines_cases (t : Text) : ∃ piece more, t.lines = piece :: more ∧
    (∀ b r, piece = b :: r → b ≠ Text.lineFeed) := by
  cases t with
  | nil => exact ⟨[], [], rfl, fun b r h => nomatch h⟩
  | cons b r =>
      rw [Text.lines, Text.splitOn]
      by_cases hb : b = Text.lineFeed
      · rw [if_pos hb]
        exact ⟨[], _, rfl, fun b r h => nomatch h⟩
      · rw [if_neg hb]
        cases hr : Text.splitOn Text.lineFeed r with
        | nil => exact absurd hr (splitOn_ne_nil _ _)
        | cons piece more =>
            refine ⟨b :: piece, more, rfl, ?_⟩
            intro c s h
            rw [← (List.cons.inj h).1]
            exact hb

/-- A line that may be tidied. -/
def keptLine (isOpen : Int → Bool) (n : Int) (line : Text) : Text :=
  if isOpen n then line else tidyLine line

/-- The lines below a line, each behind its line feed. -/
def below (lines : List Text) : Text := lines.flatMap fun line => Text.lineFeed :: line

theorem unlines_cons (line : Text) (lines : List Text) :
    Text.unlines (line :: lines) = line ++ below lines := by
  induction lines generalizing line with
  | nil => simp [Text.unlines, Text.join, below]
  | cons line' lines ih =>
      have hrest := ih line'
      rw [Text.unlines] at hrest ⊢
      rw [Text.join, hrest, below, below, List.flatMap_cons, List.append_assoc]
      · rfl
      · exact List.cons_ne_nil _ _

/-- A text is at the end of a line if its first line is empty. -/
theorem atEnd_line {line : Text} (h : ∀ b r, line = b :: r → b ≠ Text.lineFeed)
    (lines : List Text) : byteMarks.atEnd (line ++ below lines) = line.isEmpty := by
  cases line with
  | nil => cases lines <;> rfl
  | cons b r => exact beq_eq_false_iff_ne.mpr (h b r rfl)

theorem keptLine_head (isOpen : Int → Bool) (n : Int) {line : Text}
    (h : ∀ b r, line = b :: r → b ≠ Text.lineFeed) :
    ∀ b r, keptLine isOpen n line = b :: r → b ≠ Text.lineFeed := by
  intro b r hkept
  rw [keptLine] at hkept
  split at hkept
  · exact h b r hkept
  · cases line with
    | nil => cases hkept
    | cons c line =>
        rw [tidyLine, dropTrailing_cons] at hkept
        split at hkept
        · cases hkept
        · rw [← (List.cons.inj hkept).1]
          exact h c line rfl

/-- Cutting a text into lines, tidying them and gluing them together is
    trimming. -/
theorem unlines_tidyLines (isOpen : Int → Bool) (t : Text) : ∀ n,
    Text.unlines (tidyLines isOpen n t.lines) = byteMarks.trim isOpen n t [] := by
  induction t with
  | nil =>
      intro n
      simp only [Text.lines, Text.splitOn, tidyLines, Text.unlines, Text.join, Marks.trim]
      split <;> rfl
  | cons b r ih =>
      intro n
      rcases lines_cases r with ⟨piece, more, hlines, hhead⟩
      by_cases hb : b = Text.lineFeed
      · have hcut : Text.lines (b :: r) = [] :: Text.lines r := by
          rw [Text.lines, Text.splitOn, if_pos hb]
          rfl
        have hnext : byteMarks.next n b = n + 1 := by rw [hb]; rfl
        rw [hcut, byteMarks.trim_cons_of_not_blank isOpen n (by rw [hb]; rfl), hnext, ← ih (n + 1),
          hlines, tidyLines, tidyLines, unlines_cons, unlines_cons, hb]
        have hnone : (if isOpen n then [] else tidyLine []) = [] := by split <;> rfl
        rw [hnone]
        rfl
      · have hcut : Text.lines (b :: r) = (b :: piece) :: more := by
          rw [Text.lines] at hlines ⊢
          rw [Text.splitOn, if_neg hb, hlines]
        have hnext : byteMarks.next n b = n := by
          rw [Marks.next, show byteMarks.feed b = false from beq_eq_false_iff_ne.mpr hb]
          rfl
        -- What is behind `b` is at the end of a line if nothing is kept of the
        -- piece behind it.
        have hrest : byteMarks.trim isOpen n r [] =
            keptLine isOpen n piece ++ below (tidyLines isOpen (n + 1) more) := by
          rw [← ih n, hlines, tidyLines, unlines_cons]
          rfl
        have hat := atEnd_line (keptLine_head isOpen n hhead)
          (tidyLines isOpen (n + 1) more)
        rw [hcut, tidyLines, unlines_cons, Marks.trim, hnext, hrest, hat]
        cases hopen : isOpen n with
        | true => simp [keptLine, hopen]
        | false =>
            have hblank : byteMarks.blank b = isTrailing b := rfl
            simp only [keptLine, hopen, Bool.false_eq_true, if_false, tidyLine, dropTrailing_cons,
              Bool.not_false, Bool.and_true, Bool.and_eq_true, List.isEmpty_iff, hblank]
            by_cases hdrop : isTrailing b = true ∧ piece.dropTrailing isTrailing = []
            · rw [if_pos hdrop, if_pos hdrop, hdrop.2]
            · rw [if_neg hdrop, if_neg hdrop]
              rfl

/-- A trimmed text has no line that ends with a blank, except open ones. -/
theorem trimmed_lines {isOpen : Int → Bool} (t : Text) :
    ∀ (n : Int) (i : Nat) (line : Text) (b : UInt8),
    byteMarks.Trimmed isOpen n t → t.lines[i]? = some line → isOpen (n + i) = false →
      line.getLast? = some b → isTrailing b = false := by
  induction t with
  | nil =>
      intro n i line b _ hline _ hlast
      cases i with
      | zero =>
          rw [← Option.some.inj hline] at hlast
          cases hlast
      | succ i => cases hline
  | cons c r ih =>
      intro n i line b htrim hline hopen hlast
      rw [Marks.Trimmed] at htrim
      rcases lines_cases r with ⟨piece, more, hlines, _⟩
      by_cases hc : c = Text.lineFeed
      · have hcut : Text.lines (c :: r) = [] :: Text.lines r := by
          rw [Text.lines, Text.splitOn, if_pos hc]
          rfl
        have hnext : byteMarks.next n c = n + 1 := by rw [hc]; rfl
        rw [hcut] at hline
        rw [hnext] at htrim
        cases i with
        | zero =>
            rw [← Option.some.inj hline] at hlast
            cases hlast
        | succ i =>
            refine ih (n + 1) i line b htrim.2 hline ?_ hlast
            rw [← hopen]
            congr 1
            omega
      · have hcut : Text.lines (c :: r) = (c :: piece) :: more := by
          rw [Text.lines] at hlines ⊢
          rw [Text.splitOn, if_neg hc, hlines]
        have hnext : byteMarks.next n c = n := by
          rw [Marks.next, show byteMarks.feed c = false from beq_eq_false_iff_ne.mpr hc]
          rfl
        rw [hcut] at hline
        rw [hnext] at htrim
        cases i with
        | succ i => exact ih n (i + 1) line b htrim.2 (by rw [hlines]; exact hline) hopen hlast
        | zero =>
            rw [← Option.some.inj hline] at hlast
            cases piece with
            | cons d piece =>
                rw [List.getLast?_cons_cons] at hlast
                exact ih n 0 (d :: piece) b htrim.2 (by rw [hlines]; rfl) hopen hlast
            | nil =>
                -- The line is over behind `c`, which is not a blank then.
                have hat : byteMarks.atEnd r = true := by
                  cases r with
                  | nil => rfl
                  | cons d r =>
                      by_cases hd : d = Text.lineFeed
                      · exact beq_iff_eq.mpr hd
                      · rw [Text.lines, Text.splitOn, if_neg hd] at hlines
                        split at hlines <;> cases hlines
                have hblank := htrim.1
                rw [hat, Bool.and_true, show n = n + (0 : Nat) from (Int.add_zero n).symm, hopen,
                  Bool.not_false, Bool.and_true] at hblank
                rw [← Option.some.inj hlast]
                exact hblank

/-- Only low bytes are dropped, and only where low bytes follow. -/
theorem takeWhile_trim (isOpen : Int → Bool) (t : Text) : ∀ n,
    (byteMarks.trim isOpen n t []).takeWhile Text.isHigh = t.takeWhile Text.isHigh := by
  induction t with
  | nil => intro n; rfl
  | cons b r ih =>
      intro n
      rcases byteMarks.trim_cons_cases isOpen n b r [] with ⟨hkeep, _⟩ | ⟨hdrop, hblank, _, hat⟩
      · rw [hkeep, List.takeWhile_cons, List.takeWhile_cons, ih]
      · have hlow : Text.isHigh b = false := by
          simp only [byteMarks, isTrailing, Bool.or_eq_true, beq_iff_eq] at hblank
          rcases hblank with (rfl | rfl) | rfl <;> rfl
        have hclean : Text.CutsClean (byteMarks.trim isOpen (byteMarks.next n b) r []) := by
          intro c s hc
          rw [hc] at hat
          rw [beq_iff_eq.mp (show (c == Text.lineFeed) = true from hat)]
          rfl
        rw [hdrop, hclean.takeWhile, List.takeWhile_cons, hlow]
        rfl

/-- High bytes are kept. -/
theorem trim_high (isOpen : Int → Bool) (high r : Text) (hhigh : ∀ b ∈ high, Text.isHigh b = true) :
    ∀ n, byteMarks.trim isOpen n (high ++ r) [] = high ++ byteMarks.trim isOpen n r [] := by
  induction high with
  | nil => intro n; rfl
  | cons b high ih =>
      intro n
      have hb := hhigh b List.mem_cons_self
      have hblank : byteMarks.blank b = false := by
        by_contra hblank
        simp only [byteMarks, isTrailing, Bool.not_eq_false, Bool.or_eq_true, beq_iff_eq] at hblank
        rcases hblank with (rfl | rfl) | rfl <;> cases hb
      have hnext : byteMarks.next n b = n := by
        have hfeed : byteMarks.feed b = false := by
          refine beq_eq_false_iff_ne.mpr ?_
          rintro rfl
          cases hb
        rw [Marks.next, hfeed]
        rfl
      rw [List.cons_append, byteMarks.trim_cons_of_not_blank isOpen n hblank, hnext,
        ih (fun c hc => hhigh c (List.mem_cons_of_mem b hc)) n]
      rfl

/-- A byte by itself is marked like its character. -/
theorem marks_byte (b : UInt8) :
    glyphMarks.feed ⟨b.toNat, [b]⟩ = byteMarks.feed b ∧
      glyphMarks.blank ⟨b.toNat, [b]⟩ = byteMarks.blank b := by
  have hiff : ∀ c : UInt8, (b.toNat == c.toNat) = (b == c) := by
    intro c
    rw [Bool.eq_iff_iff, beq_iff_eq, beq_iff_eq, UInt8.toNat_inj]
  exact ⟨hiff 10, by
    simp only [glyphMarks, byteMarks, isTrailing]
    rw [← hiff 32, ← hiff 9, ← hiff 13]
    rfl⟩

theorem atEnd_glyphs (t : Text) : glyphMarks.atEnd t.glyphs = byteMarks.atEnd t := by
  cases t with
  | nil => rfl
  | cons b r =>
      cases hb : Text.isHigh b with
      | false =>
          rw [Text.glyphs_cons_low hb]
          exact (marks_byte b).1
      | true =>
          rw [Text.glyphs_cons]
          have hcode := (Glyph.first_spans hb r).1
          have hfeed : byteMarks.feed b = false := by
            refine beq_eq_false_iff_ne.mpr ?_
            rintro rfl
            cases hb
          have hne : (Glyph.first b r).1 ≠ 10 :=
            Nat.ne_of_gt (Nat.lt_of_lt_of_le (by decide) hcode)
          rw [Marks.atEnd, Marks.atEnd, hfeed]
          exact beq_eq_false_iff_ne.mpr hne

/-- Trimming the bytes of a text is trimming its characters. The induction is
    on the number of bytes, because a character can take in several. -/
theorem glyphs_trim (isOpen : Int → Bool) (t : Text) : ∀ n,
    Text.glyphs (byteMarks.trim isOpen n t []) = glyphMarks.trim isOpen n t.glyphs [] := by
  induction hlen : t.length using Nat.strong_induction_on generalizing t with
  | _ k ih =>
    intro n
    cases t with
    | nil => rfl
    | cons b r =>
        cases hb : Text.isHigh b with
        | false =>
            rcases marks_byte b with ⟨hfeed, hblank⟩
            have hnext : glyphMarks.next n ⟨b.toNat, [b]⟩ = byteMarks.next n b := by
              rw [Marks.next, Marks.next, hfeed]
            have hrest := ih r.length (by rw [← hlen, List.length_cons]; omega) r rfl
              (byteMarks.next n b)
            rw [Text.glyphs_cons_low hb]
            simp only [Marks.trim, hnext, hblank, ← hrest, atEnd_glyphs]
            split
            · rfl
            · exact Text.glyphs_cons_low hb _
        | true =>
            -- The character keeps all its bytes, and the high bytes behind it
            -- are the same as before.
            have hhigh : ∀ c ∈ b :: r.take ((Glyph.first b r).2 - 1), Text.isHigh c = true := by
              intro c hc
              rcases List.mem_cons.mp hc with rfl | hc
              · exact hb
              · exact Text.isHigh_of_mem_take hc
            have hw : (Glyph.first b r).2 - 1 ≤ r.length :=
              Nat.le_trans (Glyph.first_width b r) (List.takeWhile_sublist _).length_le
            have hcode := (Glyph.first_spans hb r).1
            have hrest := ih (r.drop ((Glyph.first b r).2 - 1)).length (by
              rw [← hlen, List.length_drop, List.length_cons]
              omega) (r.drop ((Glyph.first b r).2 - 1)) rfl n
            generalize hwidth : (Glyph.first b r).2 - 1 = w at hhigh hw hrest
            have htake : (r.take w).length = w := List.length_take_of_le hw
            have hbytes : byteMarks.trim isOpen n (b :: r) [] =
                b :: (r.take w ++ byteMarks.trim isOpen n (r.drop w) []) := by
              have htrim := trim_high isOpen _ (r.drop w) hhigh n
              rw [List.cons_append, List.take_append_drop] at htrim
              exact htrim
            have hfirst : Glyph.first b (r.take w ++ byteMarks.trim isOpen n (r.drop w) []) =
                Glyph.first b r := by
              have htail : ∀ c ∈ r.take w, Text.isHigh c = true :=
                fun c hc => hhigh c (List.mem_cons_of_mem b hc)
              refine Glyph.first_congr b ?_
              rw [List.takeWhile_append_of_pos htail, takeWhile_trim,
                ← List.takeWhile_append_of_pos htail, List.take_append_drop]
            have hkept : glyphMarks.blank ⟨(Glyph.first b r).1, b :: r.take w⟩ = false ∧
                glyphMarks.feed ⟨(Glyph.first b r).1, b :: r.take w⟩ = false := by
              have hne : ∀ c : Nat, c < 128 → ((Glyph.first b r).1 == c) = false := by
                intro c hc
                exact beq_eq_false_iff_ne.mpr (Nat.ne_of_gt (Nat.lt_of_lt_of_le hc hcode))
              simp only [glyphMarks, hne 32 (by decide), hne 9 (by decide), hne 13 (by decide),
                hne 10 (by decide), Bool.or_self, and_self]
            rw [hbytes, Text.glyphs_cons, Text.glyphs_cons, hfirst, hwidth,
              List.take_left' htake, List.drop_left' htake, hrest,
              glyphMarks.trim_cons_of_not_blank isOpen n hkept.1, Marks.next, hkept.2]
            rfl

end Layout

end PocketScript
