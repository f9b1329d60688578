import Mathlib.Data.List.Forall2
import PocketScript.Proofs.Program.Terms
import PocketScript.Proofs.Scanning.Neighbours
import PocketScript.Proofs.Text.Quoted

/-!
# The terms that a print shows

The terms of a program are all there is in its print. The lines and the blanks in
front of them are for the eye: no more is read of them than that they end a word.

A text shows atoms, which are parentheses, words and constants, with any blanks and
line feeds between them (`Shows`). It shows one list of atoms only. A word ends where
no more of its bytes come, a quoted string where its closing quote is, and no word is
spelled like a constant. What the atoms are the atoms of is then a matter of
counting parentheses.

## Main definitions

* `Leaf.Told`: The leaf is told from all others by its text.
* `Shows`: A text is made of atoms, with blanks and line feeds between them.
* `Atom.read?`: The terms that atoms make up.

## Theorems

* `Literal.print_injective`: Constants are printed differently.
* `Shows.unique`: A text shows one list of atoms.
* `Term.read?_atoms`: Terms are read back from their atoms.
* `Expr.shown`, `Stmt.shows`: The print of a program shows its terms.
* `Stmt.terms_eq_of_print`, `Stmt.moved_eq_of_print`: Programs with the same print have the
  same terms, and are the same up to positions.
-/

namespace PocketScript

/-- A byte of words, and of all constants but strings: no blank, no line feed, no quote
    and no parenthesis. -/
def isBare (b : UInt8) : Bool := !([32, 10, 34, 40, 41].contains b)

/-- The text is there and has bare bytes only. -/
structure Text.Bare (t : Text) : Prop where
  ne_nil : t ≠ []
  bare : ∀ b ∈ t, isBare b = true

/-- The text ends a word that stands in front of it. -/
def Text.Follows (t : Text) : Prop := ∀ b r, t = b :: r → isBare b = false

theorem Text.follows_cons {b : UInt8} (h : isBare b = false) (r : Text) : Text.Follows (b :: r) := by
  intro c s hcons
  rw [← (List.cons.inj hcons).1]
  exact h

/-- Bare texts are told apart where words end. -/
theorem Text.Bare.append_inj {t u x y : Text} (ht : t.Bare) (hu : u.Bare) (hx : x.Follows)
    (hy : y.Follows) (h : t ++ x = u ++ y) : t = u ∧ x = y := by
  have hstop : ∀ {z : Text}, z.Follows → z.takeWhile isBare = [] := by
    intro z hz
    cases z with
    | nil => rfl
    | cons b r => exact List.takeWhile_cons_of_neg (by rw [hz b r rfl]; decide)
  have htaken := congrArg (List.takeWhile isBare) h
  rw [List.takeWhile_append_of_pos ht.bare, List.takeWhile_append_of_pos hu.bare, hstop hx,
    hstop hy, List.append_nil, List.append_nil] at htaken
  rw [htaken] at h
  exact ⟨htaken, List.append_cancel_left h⟩

/-! ### Constants and words -/

theorem Number.bare_text {x : Float} (h : IsFinite x) : Text.Bare (text x) := by
  refine ⟨?_, fun b hb => ?_⟩
  · rcases head_text h with ⟨sign, b, r, heq, _⟩
    rw [heq]
    exact List.append_ne_nil_of_right_ne_nil _ (List.cons_ne_nil _ _)
  · rcases byte_of_mem_text h hb with rfl | rfl | ⟨hlow, hhigh⟩
    · decide
    · decide
    · have hall : ∀ n < 58, 48 ≤ n → isBare n.toUInt8 = true := by decide
      have hbyte := hall b.toNat (Nat.lt_succ_of_le (UInt8.le_iff_toNat_le.mp hhigh))
        (UInt8.le_iff_toNat_le.mp hlow)
      rwa [show b.toNat.toUInt8 = b from UInt8.ofNat_toNat] at hbyte

/-- A text that starts with no digit and no sign is not that of a number. -/
theorem Number.text_ne_cons {x : Float} (h : IsFinite x) {b : UInt8} {r : Text}
    (hsign : b ≠ 45) (hdigit : ¬ (48 ≤ b ∧ b ≤ 57)) : text x ≠ b :: r := by
  intro heq
  rcases head_text h with ⟨sign, c, s, htext, rfl | rfl, hc⟩
  · rw [htext] at heq
    exact hdigit ((List.cons.inj heq).1 ▸ hc)
  · rw [htext] at heq
    exact hsign (List.cons.inj heq).1.symm

/-- Constants are printed differently. -/
theorem Literal.print_injective {v w : Literal} (hv : v.IsFinite) (hw : w.IsFinite)
    (h : v.print = w.print) : v = w := by
  cases v with
  | number x =>
      cases w with
      | number y => exact congrArg Literal.number (Number.text_injective hv hw h)
      | string t => exact absurd h (Number.text_ne_cons hv (by decide) (by decide))
      | bool b =>
          cases b with
          | false => exact absurd h (Number.text_ne_cons hv (by decide) (by decide))
          | true => exact absurd h (Number.text_ne_cons hv (by decide) (by decide))
      | null => exact absurd h (Number.text_ne_cons hv (by decide) (by decide))
  | string t =>
      cases w with
      | number y => exact absurd h.symm (Number.text_ne_cons hw (by decide) (by decide))
      | string u =>
          have happend : t.quoted ++ [] = u.quoted ++ [] := congrArg (· ++ []) h
          rw [(Text.quoted_append_inj happend).1]
      | bool b => cases b <;> cases h
      | null => cases h
  | bool b =>
      cases w with
      | number y =>
          cases b with
          | false => exact absurd h.symm (Number.text_ne_cons hw (by decide) (by decide))
          | true => exact absurd h.symm (Number.text_ne_cons hw (by decide) (by decide))
      | string u => cases b <;> cases h
      | bool c =>
          have hall : ∀ b c, (Literal.bool b).print = (Literal.bool c).print → b = c := by decide
          rw [hall b c h]
      | null => cases b <;> cases h
  | null =>
      cases w with
      | number y => exact absurd h.symm (Number.text_ne_cons hw (by decide) (by decide))
      | string u => cases h
      | bool c => cases c <;> cases h
      | null => rfl

/-- All constants but strings are bare. -/
theorem Literal.print_cases {v : Literal} (h : v.IsFinite) :
    (∃ t, v = .string t) ∨ Text.Bare v.print := by
  cases v with
  | number x => exact Or.inr (Number.bare_text h)
  | string t => exact Or.inl ⟨t, rfl⟩
  | bool b =>
      cases b with
      | false => exact Or.inr ⟨by decide, by decide +kernel⟩
      | true => exact Or.inr ⟨by decide, by decide +kernel⟩
  | null => exact Or.inr ⟨by decide, by decide +kernel⟩

namespace Leaf

/-- How a leaf is printed. -/
def text : Leaf → Text
  | constant v => v.print
  | word w => w

/-- The leaf is told from all others by its text. -/
def Told : Leaf → Prop
  | constant v => v.IsFinite
  | word w => Text.Bare w ∧ ∀ v : Literal, v.IsFinite → v.print ≠ w

theorem text_cases {l : Leaf} (h : l.Told) :
    (∃ t, l = .constant (.string t)) ∨ Text.Bare l.text := by
  cases l with
  | constant v =>
      rcases Literal.print_cases h with ⟨t, rfl⟩ | hbare
      · exact Or.inl ⟨t, rfl⟩
      · exact Or.inr hbare
  | word w => exact Or.inr h.1

theorem eq_of_text {l m : Leaf} (hl : l.Told) (hm : m.Told) (h : l.text = m.text) : l = m := by
  cases l with
  | constant v =>
      cases m with
      | constant w => rw [Literal.print_injective hl hm h]
      | word w => exact absurd h (hm.2 v hl)
  | word w =>
      cases m with
      | constant v => exact absurd h.symm (hl.2 v hm)
      | word u => exact congrArg Leaf.word h

/-- Leaves are told apart where words end. -/
theorem append_inj {l m : Leaf} (hl : l.Told) (hm : m.Told) {x y : Text} (hx : x.Follows)
    (hy : y.Follows) (h : l.text ++ x = m.text ++ y) : l = m ∧ x = y := by
  have hquote : ∀ {t u a b : Text}, Text.Bare u → t.quoted ++ a ≠ u ++ b := by
    intro t u a b hu heq
    rcases List.exists_cons_of_ne_nil hu.ne_nil with ⟨c, r, rfl⟩
    have hhead : (34 : UInt8) = c := (List.cons.inj heq).1
    have hbare := hu.bare c List.mem_cons_self
    rw [← hhead] at hbare
    exact absurd hbare (by decide)
  rcases text_cases hl with ⟨t, rfl⟩ | hbare
  · rcases text_cases hm with ⟨u, rfl⟩ | hbare'
    · rcases Text.quoted_append_inj h with ⟨rfl, hrest⟩
      exact ⟨rfl, hrest⟩
    · exact absurd h (hquote hbare')
  · rcases text_cases hm with ⟨u, rfl⟩ | hbare'
    · exact absurd h.symm (hquote hbare)
    · rcases hbare.append_inj hbare' hx hy h with ⟨htext, hrest⟩
      exact ⟨eq_of_text hl hm htext, hrest⟩

/-- A word is told from constants if no number is written like it and it is none of the
    words that stand for constants. -/
theorem told_word {w : Text} (hbare : Text.Bare w)
    (hnumber : ∀ x, Number.IsFinite x → Number.text x ≠ w)
    (hfree : w ∉ [utf8 "true", utf8 "false", utf8 "null"]) : (Leaf.word w).Told := by
  refine ⟨hbare, fun v hv heq => ?_⟩
  cases v with
  | number x => exact hnumber x hv heq
  | string t =>
      have hmem : (34 : UInt8) ∈ w := heq ▸ List.mem_cons_self
      exact absurd (hbare.bare 34 hmem) (by decide)
  | bool b =>
      have hmem : ∀ b, (Literal.bool b).print ∈ [utf8 "true", utf8 "false", utf8 "null"] := by
        decide
      exact hfree (heq ▸ hmem b)
  | null =>
      have hmem : Literal.null.print ∈ [utf8 "true", utf8 "false", utf8 "null"] := by decide
      exact hfree (heq ▸ hmem)

/-- A name is told from constants: it starts with no digit, and is not reserved. -/
theorem told_name {w : Text} (hw : Lexicon.IsWord w) (hfree : w ∉ Kind.keywordNames) :
    (Leaf.word w).Told := by
  have hbare : ∀ b ∈ w, isBare b = true := by
    intro b hb
    by_contra hsolid
    have hall : ∀ c ∈ ([32, 10, 34, 40, 41] : Text),
        Text.isHigh c = false ∧ Rune.continuesWord c.toNat = false := by
      decide +kernel
    have hmem : b ∈ ([32, 10, 34, 40, 41] : Text) := by
      rwa [isBare, Bool.not_eq_true', Bool.not_eq_false, List.contains_iff_mem] at hsolid
    exact hw.not_mem (hall b hmem).1 (hall b hmem).2 hb
  have hne : w ≠ [] := by
    rintro rfl
    exact hw.runes_ne_nil rfl
  refine told_word ⟨hne, hbare⟩ (fun x hx heq => ?_) fun hmem => ?_
  · rcases Number.head_text hx with ⟨sign, b, r, htext, rfl | rfl, hlow, hhigh⟩
    · have hall : ∀ n < 58, 48 ≤ n → Text.isHigh n.toUInt8 = false ∧
          ¬ (Rune.isLetter n = true ∨ n = 95) := by
        decide +kernel
      have hdigit := hall b.toNat (Nat.lt_succ_of_le (UInt8.le_iff_toNat_le.mp hhigh))
        (UInt8.le_iff_toNat_le.mp hlow)
      rw [show b.toNat.toUInt8 = b from UInt8.ofNat_toNat] at hdigit
      rcases hw with ⟨c, cs, hruns, hc, _⟩
      have hword : w = b :: r := heq.symm.trans htext
      rw [hword, Text.runes, Text.glyphs_cons_low hdigit.1, List.map_cons] at hruns
      rw [← (List.cons.inj hruns).1] at hc
      exact hdigit.2 hc
    · have hmem : (45 : UInt8) ∈ w := by
        rw [← heq, htext]
        exact List.mem_cons_self
      exact hw.not_mem (by decide) (by decide +kernel) hmem
  · have hall : ∀ v ∈ [utf8 "true", utf8 "false", utf8 "null"], v ∈ Kind.keywordNames := by
      decide
    exact hfree (hall w hmem)

/-- Other words are told from constants if they have no digits. -/
theorem told_of_no_digit {w : Text} (hne : w ≠ [])
    (hbytes : ∀ b ∈ w, isBare b = true ∧ ¬ (48 ≤ b ∧ b ≤ 57))
    (hfree : w ∉ [utf8 "true", utf8 "false", utf8 "null"]) : (Leaf.word w).Told := by
  refine told_word ⟨hne, fun b hb => (hbytes b hb).1⟩ (fun x hx heq => ?_) hfree
  rcases Number.head_text hx with ⟨sign, b, r, htext, _, hb⟩
  have hmem : b ∈ w := by
    rw [← heq, htext]
    exact List.mem_append_right sign List.mem_cons_self
  exact (hbytes b hmem).2 hb

/-- Operators are told from constants. -/
theorem told_symbol {k : Kind} (h : k ∈ Kind.symbols)
    (hopen : k ∉ [Kind.leftParen, .rightParen]) : (Leaf.word k.name).Told := by
  have hall : ∀ k ∈ Kind.symbols, k ∉ [Kind.leftParen, .rightParen] → k.name ≠ [] ∧
      (∀ b ∈ k.name, isBare b = true ∧ ¬ (48 ≤ b ∧ b ≤ 57)) ∧
      k.name ∉ [utf8 "true", utf8 "false", utf8 "null"] := by
    decide +kernel
  rcases hall k h hopen with ⟨hne, hbytes, hfree⟩
  exact told_of_no_digit hne hbytes hfree

/-- The words that tell forms apart. -/
def heads : List Text :=
  [utf8 "group", utf8 "=", utf8 "call", utf8 "expr", utf8 "echo", utf8 "return", utf8 "del",
    utf8 "break", utf8 "continue", utf8 "func", utf8 "while", utf8 "if", utf8 "else"]

theorem told_head {w : Text} (h : w ∈ heads) : (Leaf.word w).Told := by
  have hall : ∀ w ∈ heads, w ≠ [] ∧ (∀ b ∈ w, isBare b = true ∧ ¬ (48 ≤ b ∧ b ≤ 57)) ∧
      w ∉ [utf8 "true", utf8 "false", utf8 "null"] := by
    decide +kernel
  rcases hall w h with ⟨hne, hbytes, hfree⟩
  exact told_of_no_digit hne hbytes hfree

end Leaf

/-! ### Atoms -/

/-- A part of a print that is no layout. -/
inductive Atom where
  | opening
  | closing
  | leaf (l : Leaf)

namespace Atom

/-- How an atom is printed. -/
def text : Atom → Text
  | opening => [40]
  | closing => [41]
  | leaf l => l.text

/-- The atom is told from all others by its text. -/
def Told : Atom → Prop
  | leaf l => l.Told
  | _ => True

/-- The atom ends in front of this text. -/
def EndsBefore : Atom → Text → Prop
  | leaf _, rest => rest.Follows
  | _, _ => True

/-- A leaf starts with a quote or with a bare byte. -/
theorem head_leaf {l : Leaf} (h : l.Told) :
    ∃ b r, l.text = b :: r ∧ (b = 34 ∨ isBare b = true) := by
  rcases Leaf.text_cases h with ⟨t, rfl⟩ | hbare
  · exact ⟨34, _, rfl, Or.inl rfl⟩
  · rcases List.exists_cons_of_ne_nil hbare.ne_nil with ⟨b, r, heq⟩
    exact ⟨b, r, heq, Or.inr (hbare.bare b (heq ▸ List.mem_cons_self))⟩

/-- No leaf starts like this. -/
theorem leaf_append_ne {l : Leaf} (h : l.Told) {b : UInt8} (hb : b ∈ ([32, 10, 40, 41] : Text))
    (x y : Text) : l.text ++ x ≠ b :: y := by
  intro heq
  have hall : ∀ b ∈ ([32, 10, 40, 41] : Text), ¬ (b = 34 ∨ isBare b = true) := by decide +kernel
  rcases head_leaf h with ⟨c, r, htext, hc⟩
  rw [htext] at heq
  exact hall b hb ((List.cons.inj heq).1 ▸ hc)

theorem append_inj {p q : Atom} (hp : p.Told) (hq : q.Told) {x y : Text} (hx : p.EndsBefore x)
    (hy : q.EndsBefore y) (h : p.text ++ x = q.text ++ y) : p = q ∧ x = y := by
  cases p with
  | opening =>
      cases q with
      | opening => exact ⟨rfl, (List.cons.inj h).2⟩
      | closing => exact absurd (List.cons.inj h).1 (by decide)
      | leaf l => exact absurd h.symm (leaf_append_ne hq (by decide) _ _)
  | closing =>
      cases q with
      | opening => exact absurd (List.cons.inj h).1 (by decide)
      | closing => exact ⟨rfl, (List.cons.inj h).2⟩
      | leaf l => exact absurd h.symm (leaf_append_ne hq (by decide) _ _)
  | leaf l =>
      cases q with
      | opening => exact absurd h (leaf_append_ne hp (by decide) _ _)
      | closing => exact absurd h (leaf_append_ne hp (by decide) _ _)
      | leaf m =>
          rcases Leaf.append_inj hp hq hx hy h with ⟨rfl, hrest⟩
          exact ⟨rfl, hrest⟩

theorem text_ne_nil {p : Atom} (hp : p.Told) : p.text ≠ [] := by
  cases p with
  | opening => exact List.cons_ne_nil _ _
  | closing => exact List.cons_ne_nil _ _
  | leaf l =>
      rcases head_leaf hp with ⟨b, r, heq, _⟩
      rw [text, heq]
      exact List.cons_ne_nil _ _

end Atom

/-- A byte of layout. -/
def isLayout (b : UInt8) : Bool := b == 32 || b == 10

/-- The text without layout in front. -/
def Text.unlaid (t : Text) : Text := t.dropWhile isLayout

/-- The text is made of the atoms, with layout between them. -/
def Shows : List Atom → Text → Prop
  | [], t => t.unlaid = []
  | p :: ps, t => p.Told ∧ ∃ rest, t.unlaid = p.text ++ rest ∧ p.EndsBefore rest ∧ Shows ps rest

namespace Shows

/-- A text shows one list of atoms only. -/
theorem unique {ps qs : List Atom} {t : Text} (h : Shows ps t) (h' : Shows qs t) : ps = qs := by
  induction ps generalizing qs t with
  | nil =>
      cases qs with
      | nil => rfl
      | cons q qs =>
          rcases h' with ⟨hq, rest, htext, _⟩
          rw [Shows] at h
          exact absurd (List.append_eq_nil_iff.mp (htext.symm.trans h)).1 (Atom.text_ne_nil hq)
  | cons p ps ih =>
      rcases h with ⟨hp, rest, htext, hends, hrest⟩
      cases qs with
      | nil =>
          rw [Shows] at h'
          exact absurd (List.append_eq_nil_iff.mp (htext.symm.trans h')).1 (Atom.text_ne_nil hp)
      | cons q qs =>
          rcases h' with ⟨hq, rest', htext', hends', hrest'⟩
          -- Both lists begin with the same atom, and what is left of the text shows the rest.
          rcases Atom.append_inj hp hq hends hends' (htext.symm.trans htext') with ⟨rfl, rfl⟩
          rw [ih hrest hrest']

variable {ps : List Atom} {t : Text}

theorem layout {b : UInt8} (hb : isLayout b = true) (h : Shows ps t) : Shows ps (b :: t) := by
  have hunlaid : Text.unlaid (b :: t) = t.unlaid := List.dropWhile_cons_of_pos hb
  cases ps with
  | nil =>
      rw [Shows, hunlaid]
      exact h
  | cons p ps =>
      rw [Shows, hunlaid]
      exact h

theorem blank (h : Shows ps t) : Shows ps (32 :: t) := h.layout rfl

theorem lineFeed (h : Shows ps t) : Shows ps (10 :: t) := h.layout rfl

theorem indented (depth : Nat) (h : Shows ps t) : Shows ps (indentation depth ++ t) := by
  rw [indentation, Text.spaces]
  induction 2 * depth with
  | zero => exact h
  | succ n ih => exact ih.blank

theorem opening (h : Shows ps t) : Shows (.opening :: ps) (40 :: t) :=
  ⟨trivial, t, rfl, trivial, h⟩

theorem closing (h : Shows ps t) : Shows (.closing :: ps) (41 :: t) :=
  ⟨trivial, t, rfl, trivial, h⟩

theorem leaf {l : Leaf} (hl : l.Told) (ht : t.Follows) (h : Shows ps t) :
    Shows (.leaf l :: ps) (l.text ++ t) := by
  refine ⟨hl, t, ?_, ht, h⟩
  rcases Atom.head_leaf hl with ⟨b, r, heq, _⟩
  -- The layout in front ends where the leaf begins.
  have hsolid : isLayout b = false := by
    by_contra hlayout
    rw [Bool.not_eq_false, isLayout, Bool.or_eq_true, beq_iff_eq, beq_iff_eq] at hlayout
    have hmem : b ∈ ([32, 10, 40, 41] : Text) := by
      rcases hlayout with rfl | rfl
      · decide
      · decide
    exact Atom.leaf_append_ne hl hmem [] r (by rw [List.append_nil, heq])
  rw [Atom.text, heq]
  exact List.dropWhile_cons_of_neg (by rw [hsolid]; decide)

end Shows

/-! ### Terms and their atoms -/

mutual

/-- The atoms of a term. -/
def Term.atoms : Term → List Atom
  | .leaf l => [.leaf l]
  | .node parts => .opening :: (Term.atomsAll parts ++ [.closing])

/-- The atoms of terms. -/
def Term.atomsAll : List Term → List Atom
  | [] => []
  | t :: ts => t.atoms ++ Term.atomsAll ts

end

/-- The terms that atoms make up, given the terms read so far on each level of
    parentheses that is open, innermost first. -/
def Atom.read? : List Atom → List (List Term) → Option (List Term)
  | [], [ts] => some ts
  | .leaf l :: ps, ts :: levels => read? ps ((ts ++ [.leaf l]) :: levels)
  | .opening :: ps, levels => read? ps ([] :: levels)
  | .closing :: ps, ts :: us :: levels => read? ps ((us ++ [.node ts]) :: levels)
  | _, _ => none

mutual

/-- A term is read back from its atoms. -/
theorem Term.read?_atoms : ∀ (t : Term) (ps : List Atom) (ts : List Term)
    (levels : List (List Term)),
    Atom.read? (t.atoms ++ ps) (ts :: levels) = Atom.read? ps ((ts ++ [t]) :: levels)
  | .leaf l, ps, ts, levels => by
      rw [Term.atoms, List.singleton_append, Atom.read?]
  | .node parts, ps, ts, levels => by
      -- The parts are read on a level of their own, which the last parenthesis closes.
      rw [Term.atoms, List.cons_append, Atom.read?, List.append_assoc,
        Term.read?_atomsAll parts, List.nil_append, List.singleton_append, Atom.read?]

theorem Term.read?_atomsAll : ∀ (us : List Term) (ps : List Atom) (ts : List Term)
    (levels : List (List Term)),
    Atom.read? (Term.atomsAll us ++ ps) (ts :: levels) =
      Atom.read? ps ((ts ++ us) :: levels)
  | [], ps, ts, levels => by
      rw [Term.atomsAll, List.nil_append, List.append_nil]
  | u :: us, ps, ts, levels => by
      rw [Term.atomsAll, List.append_assoc, Term.read?_atoms u, Term.read?_atomsAll us,
        List.append_assoc, List.singleton_append]

end

theorem Term.atomsAll_injective {ts us : List Term} (h : Term.atomsAll ts = Term.atomsAll us) :
    ts = us := by
  have hread : ∀ ts : List Term, Atom.read? (Term.atomsAll ts ++ []) [[]] = some ts := by
    intro ts
    rw [Term.read?_atomsAll, List.nil_append, Atom.read?]
  have hts := hread ts
  rw [h, hread us] at hts
  exact (Option.some.inj hts).symm

theorem Term.atomsAll_append (ts us : List Term) :
    Term.atomsAll (ts ++ us) = Term.atomsAll ts ++ Term.atomsAll us := by
  induction ts with
  | nil => rw [Term.atomsAll]; rfl
  | cons t ts ih =>
      rw [List.cons_append, Term.atomsAll, ih, Term.atomsAll, List.append_assoc]

/-! ### Prints show terms -/

/-- The text shows the term, in front of whatever ends a word. -/
def Term.Shown (t : Term) (x : Text) : Prop :=
  ∀ ⦃ps rest⦄, Text.Follows rest → Shows ps rest → Shows (t.atoms ++ ps) (x ++ rest)

/-- Texts with a word in front, in parentheses. -/
def Text.headed (head : Text) (parts : List Text) : Text :=
  40 :: (head ++ (parts.flatMap (32 :: ·) ++ [41]))

theorem Term.shown_leaf {l : Leaf} (h : l.Told) : (Term.leaf l).Shown l.text := by
  intro ps rest hrest hshows
  rw [Term.atoms]
  exact hshows.leaf h hrest

theorem Text.follows_parts {rest : Text} (hrest : rest.Follows) (xs : List Text) :
    Text.Follows (xs.flatMap (32 :: ·) ++ rest) := by
  cases xs with
  | nil => exact hrest
  | cons x xs => exact Text.follows_cons (by decide) _

theorem Term.shows_parts {ts : List Term} {xs : List Text} (h : List.Forall₂ Term.Shown ts xs)
    {ps : List Atom} {rest : Text} (hrest : rest.Follows) (hshows : Shows ps rest) :
    Shows (Term.atomsAll ts ++ ps) (xs.flatMap (32 :: ·) ++ rest) := by
  induction h with
  | nil =>
      rw [Term.atomsAll]
      exact hshows
  | cons ht _ ih =>
      rw [Term.atomsAll, List.append_assoc, List.flatMap_cons, List.append_assoc]
      exact (ht (Text.follows_parts hrest _) ih).blank

theorem Term.shown_headed {head : Text} (hhead : (Leaf.word head).Told) {ts : List Term}
    {xs : List Text} (h : List.Forall₂ Term.Shown ts xs) :
    (Term.headed head ts).Shown (Text.headed head xs) := by
  intro ps rest _ hshows
  have hclose : Text.Follows (41 :: rest) := Text.follows_cons (by decide) rest
  have hparts := Term.shows_parts h hclose hshows.closing
  have hword := Term.shown_leaf hhead (Text.follows_parts hclose xs) hparts
  have htext : Text.headed head xs ++ rest = 40 :: (head ++ (xs.flatMap (32 :: ·) ++ 41 :: rest)) := by
    simp [Text.headed]
  have hatoms : (Term.headed head ts).atoms ++ ps =
      .opening :: ((Term.word head).atoms ++ (Term.atomsAll ts ++ .closing :: ps)) := by
    simp [Term.headed, Term.atoms, Term.atomsAll]
  rw [htext, hatoms]
  exact hword.opening

theorem Token.IsName.shown {t : Token} (h : t.IsName) : (Term.word t.lexeme).Shown t.lexeme :=
  Term.shown_leaf (Leaf.told_name h.word h.free)

theorem Token.IsSymbol.told {op : Token} {ks : List Kind} (h : op.IsSymbol ks)
    (hks : ∀ k ∈ ks, k ∈ Kind.symbols ∧ k ∉ [Kind.leftParen, .rightParen]) :
    (Leaf.word op.lexeme).Told := by
  rw [h.lexeme]
  exact Leaf.told_symbol (hks op.kind h.kind).1 (hks op.kind h.kind).2

theorem Expr.printArgs_eq (es : List Expr) :
    Expr.printArgs es = (es.map Expr.print).flatMap (32 :: ·) := by
  induction es with
  | nil => rw [Expr.printArgs]; rfl
  | cons e es ih => rw [Expr.printArgs, ih]; rfl

theorem Text.headed_one (head x : Text) :
    utf8 "(" ++ head ++ utf8 " " ++ x ++ utf8 ")" = headed head [x] := by
  simp only [headed, List.flatMap_cons, List.flatMap_nil, List.append_assoc]
  rfl

theorem Text.headed_two (head x y : Text) :
    utf8 "(" ++ head ++ utf8 " " ++ x ++ utf8 " " ++ y ++ utf8 ")" = headed head [x, y] := by
  simp only [headed, List.flatMap_cons, List.flatMap_nil, List.append_assoc]
  rfl

mutual

/-- The print of an expression shows its term. -/
theorem Expr.shown : ∀ e : Expr, e.Printable → e.term.Shown e.print
  | .constant value pos, h => by
      rw [Expr.Printable] at h
      rw [Expr.term, Expr.print]
      exact Term.shown_leaf (l := .constant value) h
  | .grouping inner pos, h => by
      rw [Expr.Printable] at h
      have hprint : (Expr.grouping inner pos).print = Text.headed "group" [inner.print] := by
        rw [Expr.print]
        exact Text.headed_one "group" inner.print
      rw [Expr.term, hprint]
      exact Term.shown_headed (Leaf.told_head (by decide)) (.cons (Expr.shown inner h) .nil)
  | .reference name, h => by
      rw [Expr.Printable] at h
      rw [Expr.term, Expr.print]
      exact h.shown
  | .assign name value, h => by
      rw [Expr.Printable] at h
      have hprint : (Expr.assign name value).print =
          Text.headed "=" [name.lexeme, value.print] := by
        rw [Expr.print]
        exact Text.headed_two "=" name.lexeme value.print
      rw [Expr.term, hprint]
      exact Term.shown_headed (Leaf.told_head (by decide))
        (.cons h.1.shown (.cons (Expr.shown value h.2) .nil))
  | .augmented name operator value, h => by
      rw [Expr.Printable] at h
      rw [Expr.term, Expr.print, Text.headed_two]
      exact Term.shown_headed (h.2.1.told (by decide))
        (.cons h.1.shown (.cons (Expr.shown value h.2.2) .nil))
  | .step operator name, h => by
      rw [Expr.Printable] at h
      rw [Expr.term, Expr.print, Text.headed_one]
      exact Term.shown_headed (h.1.told (by decide)) (.cons h.2.shown .nil)
  | .unary operator operand, h => by
      rw [Expr.Printable] at h
      rw [Expr.term, Expr.print, Text.headed_one]
      exact Term.shown_headed (h.1.told (by decide)) (.cons (Expr.shown operand h.2) .nil)
  | .binary left operator right, h => by
      rw [Expr.Printable] at h
      rw [Expr.term, Expr.print, Text.headed_two]
      exact Term.shown_headed (h.1.told (by decide))
        (.cons (Expr.shown left h.2.1) (.cons (Expr.shown right h.2.2) .nil))
  | .logical left operator right, h => by
      rw [Expr.Printable] at h
      rw [Expr.term, Expr.print, Text.headed_two]
      exact Term.shown_headed (h.1.told (by decide))
        (.cons (Expr.shown left h.2.1) (.cons (Expr.shown right h.2.2) .nil))
  | .call callee paren args, h => by
      rw [Expr.Printable] at h
      have hprint : (Expr.call callee paren args).print =
          Text.headed "call" (callee.print :: args.map Expr.print) := by
        rw [Expr.print, Expr.printArgs_eq, Text.headed, List.flatMap_cons]
        simp only [List.append_assoc]
        rfl
      rw [Expr.term, hprint]
      exact Term.shown_headed (Leaf.told_head (by decide))
        (.cons (Expr.shown callee h.2.1) (Expr.shownAll args h.2.2))

theorem Expr.shownAll : ∀ es : List Expr, Expr.PrintableAll es →
    List.Forall₂ Term.Shown (Expr.terms es) (es.map Expr.print)
  | [], _ => by
      rw [Expr.terms]
      exact .nil
  | e :: es, h => by
      rw [Expr.PrintableAll] at h
      rw [Expr.terms]
      exact .cons (Expr.shown e h.1) (Expr.shownAll es h.2)

end

/-- Names show themselves. -/
theorem Token.shown_terms {ts : List Token} (h : ∀ t ∈ ts, t.IsName) :
    List.Forall₂ Term.Shown (Token.terms ts) (ts.map Token.lexeme) := by
  induction ts with
  | nil => exact .nil
  | cons t ts ih =>
      rcases List.forall_mem_cons.mp h with ⟨ht, hts⟩
      exact .cons ht.shown (ih hts)

theorem Text.join_blank (x : Text) (xs : List Text) :
    join (utf8 " ") (x :: xs) = x ++ xs.flatMap (32 :: ·) := by
  induction xs generalizing x with
  | nil =>
      rw [join, List.flatMap_nil, List.append_nil]
  | cons y ys ih =>
      rw [join, ih, List.flatMap_cons, List.append_assoc]
      · rfl
      · exact List.cons_ne_nil _ _

/-- Parameters show their names, in parentheses. -/
theorem Token.shown_node {ts : List Token} (h : ∀ t ∈ ts, t.IsName) :
    (Term.node (Token.terms ts)).Shown
      (40 :: (Text.join (utf8 " ") (ts.map Token.lexeme) ++ [41])) := by
  intro ps rest _ hshows
  have hclose : Text.Follows (41 :: rest) := Text.follows_cons (by decide) rest
  have hnode : ∀ qs, (Term.node (Token.terms ts)).atoms ++ qs =
      .opening :: (Term.atomsAll (Token.terms ts) ++ .closing :: qs) := by
    intro qs
    simp [Term.atoms]
  rw [hnode, List.cons_append, List.append_assoc]
  refine Shows.opening ?_
  cases ts with
  | nil => exact hshows.closing
  | cons t ts =>
      rcases List.forall_mem_cons.mp h with ⟨ht, hts⟩
      have hparts := Term.shows_parts (Token.shown_terms hts) hclose hshows.closing
      have hfirst := ht.shown (Text.follows_parts hclose _) hparts
      rw [List.map_cons, Text.join_blank, List.append_assoc]
      simp only [Token.terms, List.map_cons, Term.atomsAll, List.append_assoc] at hfirst ⊢
      exact hfirst

/-! ### Statements -/

/-- The text shows these atoms, in front of anything. -/
def ShowsLines (ps : List Atom) (x : Text) : Prop :=
  ∀ ⦃qs rest⦄, Shows qs rest → Shows (ps ++ qs) (x ++ rest)

namespace ShowsLines

variable {ps qs : List Atom} {x y : Text}

theorem nil : ShowsLines [] [] := fun _ _ h => h

theorem append (hx : ShowsLines ps x) (hy : ShowsLines qs y) : ShowsLines (ps ++ qs) (x ++ y) := by
  intro rs rest h
  rw [List.append_assoc, List.append_assoc]
  exact hx (hy h)

/-- A term on a line of its own. -/
theorem line {t : Term} (h : t.Shown x) (depth : Nat) :
    ShowsLines t.atoms (indentation depth ++ (x ++ [10])) := by
  intro rs rest hshows
  rw [List.append_assoc, List.append_assoc]
  exact (h (Text.follows_cons (by decide) rest) hshows.lineFeed).indented depth

/-- A statement on a line of its own. -/
theorem headed {head : Text} (hhead : (Leaf.word head).Told) {ts : List Term} {xs : List Text}
    (h : List.Forall₂ Term.Shown ts xs) (depth : Nat) :
    ShowsLines (Term.headed head ts).atoms
      (indentation depth ++ (Text.headed head xs ++ [10])) :=
  line (Term.shown_headed hhead h) depth

/-- A statement with lines of its own between its first line and its closing
    parenthesis. -/
theorem block {head : Text} (hhead : (Leaf.word head).Told) {parts body : List Term}
    {xs : List Text} (hparts : List.Forall₂ Term.Shown parts xs)
    (hbody : ShowsLines (Term.atomsAll body) y) (depth : Nat) :
    ShowsLines (Term.headed head (parts ++ body)).atoms
      (indentation depth ++ 40 :: (head ++ (xs.flatMap (32 :: ·) ++
        10 :: (y ++ (indentation depth ++ [41, 10]))))) := by
  intro rs rest hshows
  have hend := hbody (hshows.lineFeed.closing.indented depth)
  have hline : Text.Follows (10 :: (y ++ (indentation depth ++ 41 :: 10 :: rest))) :=
    Text.follows_cons (by decide) _
  have hfirst := Term.shows_parts hparts hline hend.lineFeed
  have hword := Term.shown_leaf hhead (Text.follows_parts hline xs) hfirst
  have hatoms : (Term.headed head (parts ++ body)).atoms ++ rs = .opening ::
      ((Term.leaf (.word head)).atoms ++
        (Term.atomsAll parts ++ (Term.atomsAll body ++ .closing :: rs))) := by
    simp [Term.headed, Term.word, Term.atoms, Term.atomsAll, Term.atomsAll_append]
  rw [hatoms]
  simp only [List.append_assoc, List.cons_append, List.nil_append]
  exact hword.opening.indented depth

end ShowsLines

theorem Stmt.printTargets_eq (ts : List Token) :
    Stmt.printTargets ts = (ts.map Token.lexeme).flatMap (32 :: ·) := by
  induction ts with
  | nil => rfl
  | cons t ts ih => rw [Stmt.printTargets, ih]; rfl

mutual

/-- The print of a statement shows its term. -/
theorem Stmt.shows : ∀ st : Stmt, st.Printable → ∀ depth,
    ShowsLines st.term.atoms (st.print depth)
  | .expression value, h, depth => by
      rw [Stmt.Printable] at h
      have hline := ShowsLines.headed (Leaf.told_head (w := "expr") (by decide))
        (.cons (Expr.shown value h) .nil) depth
      rw [Stmt.term, Stmt.print]
      rw [← Text.headed_one] at hline
      simp only [List.append_assoc] at hline ⊢
      exact hline
  | .echo keyword value, h, depth => by
      rw [Stmt.Printable] at h
      have hline := ShowsLines.headed (Leaf.told_head (w := "echo") (by decide))
        (.cons (Expr.shown value h.2) .nil) depth
      rw [Stmt.term, Stmt.print]
      rw [← Text.headed_one] at hline
      simp only [List.append_assoc] at hline ⊢
      exact hline
  | .giveBack keyword none, _, depth => by
      rw [Stmt.term, Stmt.print]
      exact ShowsLines.headed (Leaf.told_head (w := "return") (by decide)) .nil depth
  | .giveBack keyword (some value), h, depth => by
      rw [Stmt.Printable] at h
      have hline := ShowsLines.headed (Leaf.told_head (w := "return") (by decide))
        (.cons (Expr.shown value h.2) .nil) depth
      rw [Stmt.term, Stmt.print]
      rw [← Text.headed_one] at hline
      simp only [List.append_assoc] at hline ⊢
      exact hline
  | .delete keyword targets, h, depth => by
      rw [Stmt.Printable] at h
      have hline := ShowsLines.headed (Leaf.told_head (w := "del") (by decide))
        (Token.shown_terms h.2) depth
      rw [Stmt.term, Stmt.print, Stmt.printTargets_eq]
      simp only [Text.headed, List.append_assoc, List.cons_append] at hline ⊢
      exact hline
  | .leave keyword, _, depth => by
      rw [Stmt.term, Stmt.print]
      exact ShowsLines.headed (Leaf.told_head (w := "break") (by decide)) .nil depth
  | .next keyword, _, depth => by
      rw [Stmt.term, Stmt.print]
      exact ShowsLines.headed (Leaf.told_head (w := "continue") (by decide)) .nil depth
  | .function name params body, h, depth => by
      rw [Stmt.Printable] at h
      have hblock := ShowsLines.block (Leaf.told_head (w := "func") (by decide))
        (.cons h.1.shown (.cons (Token.shown_node h.2.1) .nil))
        (Stmt.showsAll body h.2.2 (depth + 1)) depth
      rw [Stmt.term, Stmt.print]
      simp only [List.flatMap_cons, List.flatMap_nil, List.append_assoc, List.cons_append,
        List.nil_append] at hblock ⊢
      exact hblock
  | .loop keyword condition body, h, depth => by
      rw [Stmt.Printable] at h
      have hblock := ShowsLines.block (Leaf.told_head (w := "while") (by decide))
        (.cons (Expr.shown condition h.2.1) .nil) (Stmt.showsAll body h.2.2 (depth + 1)) depth
      rw [Stmt.term, Stmt.print]
      simp only [List.flatMap_cons, List.flatMap_nil, List.append_assoc, List.cons_append,
        List.nil_append] at hblock ⊢
      exact hblock
  | .branch keyword condition consequent alternate, h, depth => by
      rw [Stmt.Printable] at h
      have hbodies := (Stmt.showsAll consequent h.2.2.1 (depth + 1)).append
        (Stmt.showsElse alternate h.2.2.2 depth)
      rw [← Term.atomsAll_append] at hbodies
      have hblock := ShowsLines.block (Leaf.told_head (w := "if") (by decide))
        (.cons (Expr.shown condition h.2.1) .nil) hbodies depth
      rw [Stmt.term, Stmt.print]
      simp only [List.flatMap_cons, List.flatMap_nil, List.append_assoc, List.cons_append,
        List.nil_append] at hblock ⊢
      exact hblock

/-- The print of statements shows their terms. -/
theorem Stmt.showsAll : ∀ b : List Stmt, Stmt.PrintableAll b → ∀ depth,
    ShowsLines (Term.atomsAll (Stmt.terms b)) (Stmt.printAll depth b)
  | [], _, depth => by
      rw [Stmt.terms, Term.atomsAll, Stmt.printAll]
      exact .nil
  | st :: rest, h, depth => by
      rw [Stmt.PrintableAll] at h
      rw [Stmt.terms, Term.atomsAll, Stmt.printAll]
      exact (Stmt.shows st h.1 depth).append (Stmt.showsAll rest h.2 depth)

/-- The print of an else part shows its terms, the word in front included. -/
theorem Stmt.showsElse : ∀ b : Option (List Stmt), Stmt.PrintableElse b → ∀ depth,
    ShowsLines (Term.atomsAll (Stmt.termsElse b)) (Stmt.printElse depth b)
  | none, _, depth => by
      rw [Stmt.termsElse, Term.atomsAll, Stmt.printElse]
      exact .nil
  | some body, h, depth => by
      rw [Stmt.PrintableElse] at h
      have hword := ShowsLines.line (Term.shown_leaf (Leaf.told_head (w := "else") (by decide)))
        depth
      rw [Stmt.termsElse, Term.atomsAll, Stmt.printElse]
      exact hword.append (Stmt.showsAll body h (depth + 1))

end

/-- Programs with the same print have the same terms. -/
theorem Stmt.terms_eq_of_print {p q : List Stmt} (hp : Stmt.PrintableAll p)
    (hq : Stmt.PrintableAll q) (h : printProgram p = printProgram q) :
    Stmt.terms p = Stmt.terms q := by
  have hshown : ∀ {p : List Stmt}, Stmt.PrintableAll p →
      Shows (Term.atomsAll (Stmt.terms p)) (printProgram p) := by
    intro p hp
    have hlines := @Stmt.showsAll p hp 0 [] [] rfl
    rwa [List.append_nil, List.append_nil] at hlines
  refine Term.atomsAll_injective ((hshown hp).unique ?_)
  rw [h]
  exact hshown hq

/-- Programs with the same print are the same up to positions. -/
theorem Stmt.moved_eq_of_print {p q : List Stmt} (hp : Stmt.PrintableAll p)
    (hq : Stmt.PrintableAll q) (h : printProgram p = printProgram q) :
    Stmt.movedAll unplaced p = Stmt.movedAll unplaced q := by
  have hterms := Stmt.terms_eq_of_print hp hq h
  have hread := Stmt.block?_terms p hp []
  rw [hterms, Stmt.block?_terms q hq [], Term.block?, Option.map_some, Option.map_some,
    List.append_nil, List.append_nil, Option.some.injEq, Prod.mk.injEq] at hread
  exact hread.1.symm

end PocketScript
