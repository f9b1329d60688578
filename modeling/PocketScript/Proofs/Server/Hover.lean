import Mathlib
import PocketScript.Proofs.Scanning.Neighbours
import PocketScript.Proofs.Server.Place
import PocketScript.Proofs.Text.Encoding
import PocketScript.Server.Handle

/-!
# The word under a cursor

An editor asks about a line and a UTF-16 unit, and the word that is found there
is shown to the reader. The search for it knows nothing of tokens. It looks at
the characters of the line and goes from the cursor to both sides for as long as
there are characters that words are made of.

That it finds the token under the cursor is a matter of what stands next to the
token. Behind a word the scanner has made sure that the word does not go on, and
in front of it only a number could end with such a character
(`Lexicon.Tokenised.not_continues_before`).

Whatever the cursor, what is found is a whole run of such characters or nothing.
The search is also written here as it is carried out on an array of characters,
index by index, where a look at an index that the line does not have gives no
answer at all (`wordByIndex`). It always has an answer, and the same one.

## Main definitions

* `IsWordOf`: A run of characters of a line that cannot be extended.
* `wordByIndex`: The search, index by index.

## Theorems

* `wordAround_isWordOf`: What is found is such a run.
* `wordByIndex_eq`: No index is missed.
* `wordAt_of_token`: From the start of a word to its end the word is found.
* `hover_finds_word`: All of it.
-/

namespace PocketScript

/-- A run of characters of a line that words are made of, and that goes on to
    neither side. -/
def IsWordOf (rs word : List Rune) : Prop :=
  ∃ left right, rs = left ++ word ++ right ∧ word ≠ [] ∧
    (∀ c ∈ word, c.continuesWord = true) ∧
    (∀ c, left.getLast? = some c → c.continuesWord = false) ∧
    ∀ c, right.head? = some c → c.continuesWord = false

/-- A run stops in front of a character that fails. -/
theorem takeWhile_of_head? {α : Type} {p : α → Bool} {l : List α}
    (h : ∀ a, l.head? = some a → p a = false) : l.takeWhile p = [] := by
  cases l with
  | nil => rfl
  | cons a l => rw [List.takeWhile_cons, h a rfl]; rfl

/-- Going to both sides from within a run gives the run. -/
theorem wordAround_append {left word right : List Rune}
    (hword : ∀ c ∈ word, c.continuesWord = true)
    (hleft : ∀ c, left.getLast? = some c → c.continuesWord = false)
    (hright : ∀ c, right.head? = some c → c.continuesWord = false) {i : Nat}
    (hi : i < word.length) : wordAround (left ++ word ++ right) (left.length + i) = word := by
  have htake : (left ++ word ++ right).take (left.length + i) = left ++ word.take i := by
    rw [List.append_assoc, List.take_length_add_append, List.take_append_of_le_length hi.le]
  have hdrop : (left ++ word ++ right).drop (left.length + i) = word.drop i ++ right := by
    rw [List.append_assoc, List.drop_length_add_append, List.drop_append_of_le_length hi.le]
  have hbefore : ∀ c ∈ (word.take i).reverse, c.continuesWord = true :=
    fun c hc => hword c (List.mem_of_mem_take (List.mem_reverse.mp hc))
  have hbehind : ∀ c ∈ word.drop i, c.continuesWord = true :=
    fun c hc => hword c (List.mem_of_mem_drop hc)
  have hstop : left.reverse.takeWhile Rune.continuesWord = [] :=
    takeWhile_of_head? fun c hc => hleft c (List.head?_reverse ▸ hc)
  rw [wordAround, htake, hdrop, List.reverse_append, List.takeWhile_append_of_pos hbefore,
    List.takeWhile_append_of_pos hbehind, hstop, takeWhile_of_head? hright, List.append_nil,
    List.append_nil, List.reverse_reverse, List.take_append_drop]

theorem isWordAt_append {left word right : List Rune} (hword : ∀ c ∈ word, c.continuesWord = true)
    {i : Nat} (hi : i < word.length) :
    isWordAt (left ++ word ++ right) (left.length + i) = true := by
  rw [isWordAt, List.append_assoc, List.getElem?_append_right (Nat.le_add_right _ _),
    Nat.add_sub_cancel_left, List.getElem?_append_left hi, List.getElem?_eq_getElem hi]
  exact hword _ (List.getElem_mem hi)

theorem isWordAt_behind {left right : List Rune}
    (hright : ∀ c, right.head? = some c → c.continuesWord = false) :
    isWordAt (left ++ right) left.length = false := by
  rw [isWordAt, List.getElem?_append_right (Nat.le_refl _), Nat.sub_self, ← List.head?_eq_getElem?]
  cases hhead : right.head? with
  | none => rfl
  | some c => exact hright c hhead

/-- A unit of a run of characters is in one of them. -/
theorem exists_runeIndex_eq (left word right : List Rune) {k : Nat} (hk : k < Rune.lineUnits word) :
    ∃ i < word.length, runeIndex (left ++ word ++ right) (Rune.lineUnits left + k) =
      left.length + i := by
  induction word generalizing left k with
  | nil => exact absurd hk (Nat.not_lt_zero k)
  | cons r word ih =>
      by_cases hr : k < r.units
      · refine ⟨0, Nat.succ_pos _, ?_⟩
        rw [List.append_assoc, List.cons_append, runeIndex_append left _ r hr]
        rfl
      · rw [Rune.lineUnits_cons] at hk
        rcases ih (left ++ [r]) (k := k - r.units) (by omega) with ⟨i, hi, hindex⟩
        have hunits : Rune.lineUnits (left ++ [r]) + (k - r.units) = Rune.lineUnits left + k := by
          rw [Rune.lineUnits_append, Rune.lineUnits_cons]
          simp only [Rune.lineUnits, List.foldr_nil]
          omega
        rw [hunits, List.append_assoc, List.append_assoc, List.singleton_append] at hindex
        refine ⟨i + 1, Nat.succ_lt_succ hi, ?_⟩
        rw [List.append_assoc, List.cons_append, hindex, List.length_append, List.length_singleton]
        omega

/-- What is found around a character of a word is a run that goes on to neither
    side. -/
theorem wordAround_isWordOf {rs : List Rune} {i : Nat} (h : isWordAt rs i = true) :
    ∃ left right, rs = left ++ wordAround rs i ++ right ∧
      left.length + ((rs.take i).reverse.takeWhile Rune.continuesWord).length = i ∧
      wordAround rs i ≠ [] ∧ (∀ c ∈ wordAround rs i, c.continuesWord = true) ∧
      (∀ c, left.getLast? = some c → c.continuesWord = false) ∧
      ∀ c, right.head? = some c → c.continuesWord = false := by
  rw [isWordAt] at h
  cases hat : rs[i]? with
  | none =>
      rw [hat] at h
      cases h
  | some r =>
      rw [hat] at h
      have hr : r.continuesWord = true := h
      have hlt : i < rs.length := (List.getElem?_eq_some_iff.mp hat).1
      have hleft := List.takeWhile_append_dropWhile (p := Rune.continuesWord)
        (l := (rs.take i).reverse)
      have hright := List.takeWhile_append_dropWhile (p := Rune.continuesWord) (l := rs.drop i)
      have htake := congrArg List.reverse hleft
      rw [List.reverse_append, List.reverse_reverse] at htake
      refine ⟨((rs.take i).reverse.dropWhile Rune.continuesWord).reverse,
        (rs.drop i).dropWhile Rune.continuesWord, ?_, ?_, ?_, ?_, ?_, ?_⟩
      · rw [wordAround, ← List.append_assoc, htake, List.append_assoc, hright,
          List.take_append_drop]
      · have hlength := congrArg List.length hleft
        rw [List.length_append, List.length_reverse, List.length_take_of_le hlt.le] at hlength
        rw [List.length_reverse]
        omega
      · refine List.append_ne_nil_of_right_ne_nil _ ?_
        rw [List.drop_eq_getElem_cons hlt, (List.getElem?_eq_some_iff.mp hat).2,
          List.takeWhile_cons, if_pos hr]
        exact List.cons_ne_nil _ _
      · intro c hc
        rcases List.mem_append.mp hc with hc | hc
        · exact List.mem_takeWhile_imp (List.mem_reverse.mp hc)
        · exact List.mem_takeWhile_imp hc
      · intro c hc
        have hstop := List.head?_dropWhile_not Rune.continuesWord (rs.take i).reverse
        rw [← List.getLast?_reverse, hc] at hstop
        simpa using hstop
      · intro c hc
        have hstop := List.head?_dropWhile_not Rune.continuesWord (rs.drop i)
        rw [hc] at hstop
        simpa using hstop

/-! ### Index by index -/

/-- Do words have the character at an index? A line has no answer for an index
    outside of it. -/
def continuesAt? (rs : List Rune) (i : Nat) : Option Bool := rs[i]?.map Rune.continuesWord

/-- The index that a word starts at, looked for from the index `i` backwards. -/
def startBefore? (rs : List Rune) : (i : Nat) → Option Nat
  | 0 => some 0
  | i + 1 => do
    let continues ← continuesAt? rs i
    if continues then startBefore? rs i else some (i + 1)

/-- The index behind a word, looked for from the index `i` on. -/
def endFrom? (rs : List Rune) (i : Nat) : Option Nat :=
  if i < rs.length then do
    let continues ← continuesAt? rs i
    if continues then endFrom? rs (i + 1) else some i
  else some i
termination_by rs.length - i

/-- The characters from one index up to another, if the line has both. -/
def slice? (rs : List Rune) (start stop : Nat) : Option (List Rune) :=
  if start ≤ stop ∧ stop ≤ rs.length then some ((rs.take stop).drop start) else none

/-- The word that has the character at an index, and nothing in front of the
    line or where no word is. -/
def wordFrom? (rs : List Rune) (cursor : Int) : Option Text :=
  if cursor < 0 then some []
  else do
    let continues ← continuesAt? rs cursor.toNat
    if continues then
      let start ← startBefore? rs cursor.toNat
      let stop ← endFrom? rs (cursor.toNat + 1)
      let word ← slice? rs start stop
      return Text.ofRunes word
    else return []

/-- The word under a cursor, or else the word that ends just before it. -/
def wordByIndex (source : Text) (line character : Int) : Option Text :=
  if line < 0 ∨ source.lines.length ≤ line then some []
  else do
    let l ← source.lines[line.toNat]?
    let rs := l.dropTrailingReturns.runes
    let cursor := runeIndex rs (max character 0).toNat
    if cursor = rs.length then wordFrom? rs (cursor - 1 : Int)
    else
      let continues ← continuesAt? rs cursor
      wordFrom? rs (if continues then cursor else cursor - 1 : Int)

theorem continuesAt?_eq {rs : List Rune} {i : Nat} (h : i < rs.length) :
    continuesAt? rs i = some (isWordAt rs i) := by
  rw [continuesAt?, isWordAt, List.getElem?_eq_getElem h]
  rfl

theorem startBefore?_eq {rs : List Rune} {i : Nat} (h : i ≤ rs.length) :
    startBefore? rs i =
      some (i - ((rs.take i).reverse.takeWhile Rune.continuesWord).length) := by
  induction i with
  | zero => rfl
  | succ i ih =>
      have hlt : i < rs.length := h
      have hlast : (rs.take (i + 1)).reverse = rs[i] :: (rs.take i).reverse := by
        rw [List.take_succ_eq_append_getElem hlt, List.reverse_append]
        rfl
      rw [startBefore?, continuesAt?, List.getElem?_eq_getElem hlt, hlast, List.takeWhile_cons]
      cases hc : Rune.continuesWord rs[i] with
      | false => simp [hc]
      | true =>
          simp only [Option.map_some, hc, if_true, bind, Option.bind_some, ih hlt.le,
            List.length_cons]
          congr 1
          omega

theorem endFrom?_eq {rs : List Rune} {i : Nat} (h : i ≤ rs.length) :
    endFrom? rs i = some (i + ((rs.drop i).takeWhile Rune.continuesWord).length) := by
  induction hn : rs.length - i generalizing i with
  | zero =>
      have hend : i = rs.length := by omega
      rw [endFrom?, if_neg (by omega), hend, List.drop_length]
      rfl
  | succ n ih =>
      have hlt : i < rs.length := by omega
      rw [endFrom?, if_pos hlt, continuesAt?, List.getElem?_eq_getElem hlt,
        List.drop_eq_getElem_cons hlt, List.takeWhile_cons]
      cases hc : Rune.continuesWord rs[i] with
      | false => simp [hc]
      | true =>
          simp only [Option.map_some, hc, if_true, bind, Option.bind_some,
            ih (i := i + 1) hlt (by omega), List.length_cons]
          congr 1
          omega

/-- From an index of the line no step goes outside of it. -/
theorem wordFrom?_eq {rs : List Rune} {i : Nat} (h : i < rs.length) :
    wordFrom? rs i = some (if isWordAt rs i then Text.ofRunes (wordAround rs i) else []) := by
  rw [wordFrom?, if_neg (by omega), Int.toNat_natCast, continuesAt?_eq h]
  cases hat : isWordAt rs i with
  | false => rfl
  | true =>
      rcases wordAround_isWordOf hat with ⟨left, right, hsplit, hleft, _⟩
      have hstart : startBefore? rs i = some left.length := by
        rw [startBefore?_eq h.le]
        congr 1
        omega
      have hstop : endFrom? rs (i + 1) = some (left.length + (wordAround rs i).length) := by
        have hword : Rune.continuesWord rs[i] = true := by
          rw [isWordAt, List.getElem?_eq_getElem h] at hat
          exact hat
        rw [endFrom?_eq (i := i + 1) h, wordAround, List.length_append, List.length_reverse,
          List.drop_eq_getElem_cons h, List.takeWhile_cons, if_pos hword, List.length_cons]
        congr 1
        omega
      have hlength := congrArg List.length hsplit
      rw [List.length_append, List.length_append] at hlength
      have hslice : slice? rs left.length (left.length + (wordAround rs i).length) =
          some (wordAround rs i) := by
        rw [slice?, if_pos (by omega)]
        congr 1
        rw [congrArg (List.take _) hsplit, ← List.length_append, List.take_left, List.drop_left]
      simp only [bind, Option.bind_some, if_true, hstart, hstop, hslice]
      rfl

theorem runeIndex_le (rs : List Rune) (offset : Nat) : runeIndex rs offset ≤ rs.length := by
  induction rs generalizing offset with
  | nil => exact Nat.le_refl 0
  | cons r rs ih =>
      rw [runeIndex]
      split
      · exact Nat.zero_le _
      · exact Nat.succ_le_succ (ih _)

/-- The search never looks at an index that a line does not have, and finds the
    same word. -/
theorem wordByIndex_eq (source : Text) (line character : Int) :
    wordByIndex source line character = some (wordAt source line character) := by
  rw [wordByIndex, wordAt]
  by_cases hline : line < 0
  · rw [if_pos (.inl hline), if_pos hline]
  · cases hl : source.lines[line.toNat]? with
    | none =>
        rw [List.getElem?_eq_none_iff] at hl
        rw [if_pos (.inr (by omega)), if_neg hline]
    | some l =>
        have hlt := (List.getElem?_eq_some_iff.mp hl).1
        have hcharacter : (max character 0).toNat = character.toNat := by omega
        rw [if_neg (by omega), if_neg hline]
        simp only [bind, Option.bind_some, hcharacter]
        generalize l.dropTrailingReturns.runes = rs
        have hle := runeIndex_le rs character.toNat
        generalize runeIndex rs character.toNat = cursor at hle
        -- One step back from an index of the line, unless the line starts there.
        have hback : wordFrom? rs (cursor - 1 : Int) =
            some (if 0 < cursor ∧ isWordAt rs (cursor - 1) = true then
              Text.ofRunes (wordAround rs (cursor - 1)) else []) := by
          cases cursor with
          | zero => rfl
          | succ i =>
              have hcursor : ((i + 1 : Nat) : Int) - 1 = (i : Nat) := by omega
              rw [hcursor, wordFrom?_eq (by omega), Nat.add_sub_cancel]
              simp only [Nat.zero_lt_succ, true_and]
        by_cases hend : cursor = rs.length
        · have hnone : isWordAt rs cursor = false := by
            rw [isWordAt, hend, List.getElem?_eq_none (Nat.le_refl _)]
            rfl
          rw [if_pos hend, hback, hnone, if_neg Bool.false_ne_true]
        · have hinside : cursor < rs.length := by omega
          rw [if_neg hend, continuesAt?_eq hinside, Option.bind_some]
          cases hat : isWordAt rs cursor with
          | true => rw [if_pos rfl, if_pos rfl, wordFrom?_eq hinside, hat, if_pos rfl]
          | false => rw [if_neg Bool.false_ne_true, if_neg Bool.false_ne_true, hback]

/-! ### Tokens -/

/-- Whatever the cursor, there is nothing to be found or a whole word of the
    line. -/
theorem wordAt_cases (source : Text) (line character : Int) :
    wordAt source line character = [] ∨ ∃ l word, 0 ≤ line ∧ source.lines[line.toNat]? = some l ∧
      IsWordOf l.runes word ∧ wordAt source line character = Text.ofRunes word := by
  rw [wordAt]
  split
  · exact .inl rfl
  · rename_i hline
    cases hl : source.lines[line.toNat]? with
    | none => exact .inl rfl
    | some l =>
        simp only
        -- The carriage returns that the line may end with belong to no word.
        have hfound : ∀ {i}, isWordAt l.dropTrailingReturns.runes i = true →
            IsWordOf l.runes (wordAround l.dropTrailingReturns.runes i) := by
          intro i hat
          rcases wordAround_isWordOf hat with ⟨left, right, hsplit, _, hne, hword, hleft, hright⟩
          rcases l.runes_dropTrailingReturns with ⟨n, hreturns⟩
          refine ⟨left, right ++ List.replicate n 13, ?_, hne, hword, hleft, ?_⟩
          · rw [← List.append_assoc, ← hsplit, hreturns]
          · intro c hc
            rw [List.head?_append] at hc
            cases hhead : right.head? with
            | some d =>
                rw [hhead, Option.some_or, Option.some.injEq] at hc
                exact hright c (hc ▸ hhead)
            | none =>
                rw [hhead, Option.none_or] at hc
                rw [List.eq_of_mem_replicate (List.mem_of_mem_head? hc)]
                decide
        generalize runeIndex l.dropTrailingReturns.runes character.toNat = cursor
        split
        · rename_i hat
          exact .inr ⟨l, _, by omega, rfl, hfound hat, rfl⟩
        · split
          · rename_i hat
            exact .inr ⟨l, _, by omega, rfl, hfound hat.2, rfl⟩
          · exact .inl rfl

/-- From the start of a word of a line to its end the word is found. -/
theorem wordAt_of_word {source l : Text} {n : Nat} {left word right : List Rune}
    (hl : source.lines[n]? = some l) (hshown : l.dropTrailingReturns.runes = left ++ word ++ right)
    (hne : word ≠ []) (hword : ∀ c ∈ word, c.continuesWord = true)
    (hleft : ∀ c, left.getLast? = some c → c.continuesWord = false)
    (hright : ∀ c, right.head? = some c → c.continuesWord = false) {u : Int}
    (hfrom : (Rune.lineUnits left : Int) ≤ u)
    (hto : u ≤ Rune.lineUnits left + Rune.lineUnits word) :
    wordAt source n u = Text.ofRunes word := by
  have hpositive := List.length_pos_of_ne_nil hne
  rw [wordAt, if_neg (by omega), Int.toNat_natCast, hl]
  simp only [hshown]
  by_cases hinside : u.toNat - Rune.lineUnits left < Rune.lineUnits word
  · rcases exists_runeIndex_eq left word right hinside with ⟨i, hi, hindex⟩
    rw [show Rune.lineUnits left + (u.toNat - Rune.lineUnits left) = u.toNat by omega] at hindex
    rw [hindex, if_pos (isWordAt_append hword hi), wordAround_append hword hleft hright hi]
  · -- The cursor is right behind the word, and one step back is its last character.
    have hunit : u.toNat = Rune.lineUnits (left ++ word) := by
      rw [Rune.lineUnits_append]
      omega
    have hlast : (left ++ word).length - 1 = left.length + (word.length - 1) := by
      rw [List.length_append]
      omega
    have hi : word.length - 1 < word.length := by omega
    rw [hunit, runeIndex_behind, isWordAt_behind hright, if_neg Bool.false_ne_true, hlast,
      if_pos ⟨by rw [List.length_append]; omega, isWordAt_append hword hi⟩,
      wordAround_append hword hleft hright hi]

/-- A word is on one line and none of it is dropped when the line is shown. -/
theorem exists_line_of_word {source above w after : Text} (hword : Lexicon.IsWord w)
    (hplace : Lexicon.Place source above (w ++ after)) :
    ∃ line right, source.lines[above.count Text.lineFeed]? = some line ∧
      line.dropTrailingReturns.runes = above.lastLine.runes ++ w.runes ++ right ∧
      ∀ c, right.head? = some c → after.runes.head? = some c := by
  have hfirst : (w ++ after).firstLine.runes = w.runes ++ after.firstLine.runes := by
    have hcut : (w ++ after).firstLine = w ++ after.firstLine := by
      refine List.takeWhile_append_of_pos fun b hb => bne_iff_ne.mpr ?_
      rintro rfl
      exact hword.not_mem (by decide) (by decide) hb
    rw [hcut, Text.runes, hword.whole, List.map_append]
    rfl
  rcases hplace.line with ⟨line, hline, hrunes⟩
  rw [hfirst, ← List.append_assoc] at hrunes
  have hreturn : 13 ∉ w.runes := by
    intro hmem
    exact absurd (hword.continuesWord 13 hmem) (by decide)
  rcases Text.dropTrailingReturns_of_append hrunes hword.runes_ne_nil hreturn with
    ⟨right, n, hshown, hright⟩
  refine ⟨line, right, hline, hshown, fun c hc => Text.head?_runes_of_firstLine ?_⟩
  rw [hright, List.head?_append, hc]
  rfl

/-- From the start of a name or a reserved word to its end it is found, unless it
    stands right behind a number. -/
theorem wordAt_of_token {source : Text} {ts : List Token} (hscan : Token.scan source = .ok ts)
    {t : Token} (ht : t ∈ ts) (hkind : Lexicon.IsWordKind t.kind)
    (hnumber : ∀ m ∈ ts, m.kind = .number → m.pos.afterAll m.lexeme.glyphs ≠ t.pos) {u : Int}
    (hfrom : unitOffset source (t.pos.line - 1) (t.pos.column - 1) ≤ u)
    (hto : u ≤ unitOffset source (t.pos.line - 1) (t.pos.column - 1) +
      Rune.lineUnits t.lexeme.runes) : wordAt source (t.pos.line - 1) u = t.lexeme := by
  rcases Lexicon.exists_tokenised_of_word hscan ht hkind with ⟨body, hbody, hsubset, htbody⟩
  rcases hbody.exists_place htbody with ⟨above, us, after, habove, hlongest, hpos, hsource, hus⟩
  rw [List.append_nil] at hsource
  have hplace : Lexicon.Place source above (t.lexeme ++ after) := hsource ▸ .of_tokenised habove
  have hword := (hlongest.lexeme.word_of_kind hkind).1
  have hcontinues := hword.continuesWord
  rcases exists_line_of_word hword hplace with ⟨l, right, hl, hshown, hright⟩
  have hline : t.pos.line - 1 = (above.count Text.lineFeed : Int) := by
    rw [hpos, Position.line_behind]
    omega
  have hcolumn : t.pos.column - 1 = (above.lastLine.runes.length : Int) := by
    rw [hpos, Position.column_behind]
    omega
  rw [hline, hcolumn, hplace.unitOffset_eq] at hfrom hto
  have hreadable : ∀ c ∈ t.lexeme.runes, c ≠ Rune.replacement :=
    fun c hc => Rune.ne_replacement_of_continuesWord (hcontinues c hc)
  rw [hline, wordAt_of_word hl hshown hword.runes_ne_nil hcontinues ?_ ?_ hfrom hto,
    Text.ofRunes_runes hreadable]
  · intro d hd
    rcases hword with ⟨r, rs, hrs, _⟩
    have hhead : (t.lexeme ++ after).runes.head? = some r := by
      rw [Text.runes, hlongest.lexeme.isWhole, List.map_append, ← Text.runes, hrs]
      rfl
    refine habove.not_continues_before hhead (hcontinues r (hrs ▸ List.mem_cons_self)) ?_ hd
    intro m hm hmkind
    rw [← hpos]
    exact hnumber m (hsubset (hus.subset (List.mem_append_left _ hm))) hmkind
  · exact fun c hc => hlongest.not_continues hword (hright c hc)

/-- What a word is to the language: it is a keyword if it is a reserved word. -/
theorem classifyWord_eq_keyword_iff (word : Text) (builtins : List Text) :
    classifyWord word builtins = utf8 "keyword" ↔ word ∈ Kind.keywordNames := by
  rw [classifyWord]
  split
  · rename_i hmem
    exact iff_of_true rfl (List.contains_iff_mem.mp hmem)
  · rename_i hmem
    refine iff_of_false ?_ fun h => hmem (List.contains_iff_mem.mpr h)
    split <;> decide

/-- A name or a reserved word of a source is found with the cursor anywhere from
    its start to right behind it, unless it starts where a number ends, and it is
    classified as what it was scanned as. Whatever the cursor, no index is looked
    at that the line does not have, and there is nothing to be found or a run of
    characters of that line that goes on to neither side. -/
theorem hover_finds_word (source : Text) :
    (∀ ts, Token.scan source = .ok ts → ∀ t ∈ ts, Lexicon.IsWordKind t.kind →
      (∀ m ∈ ts, m.kind = .number → m.pos.afterAll m.lexeme.glyphs ≠ t.pos) →
      ∀ u : Int, unitOffset source (t.pos.line - 1) (t.pos.column - 1) ≤ u →
        u ≤ unitOffset source (t.pos.line - 1) (t.pos.column - 1) +
          Rune.lineUnits t.lexeme.runes →
        wordAt source (t.pos.line - 1) u = t.lexeme ∧ ∀ builtins,
          (classifyWord (wordAt source (t.pos.line - 1) u) builtins = utf8 "keyword" ↔
            t.kind ≠ .identifier)) ∧
    ∀ line character : Int,
      wordByIndex source line character = some (wordAt source line character) ∧
      (wordAt source line character = [] ∨ ∃ l word, 0 ≤ line ∧
        source.lines[line.toNat]? = some l ∧ IsWordOf l.runes word ∧
        wordAt source line character = Text.ofRunes word) := by
  refine ⟨?_, fun line character =>
    ⟨wordByIndex_eq source line character, wordAt_cases source line character⟩⟩
  intro ts hscan t ht hkind hnumber u hfrom hto
  have hfound := wordAt_of_token hscan ht hkind hnumber hfrom hto
  refine ⟨hfound, fun builtins => ?_⟩
  rcases Lexicon.exists_tokenised_of_word hscan ht hkind with ⟨body, hbody, _, htbody⟩
  rw [hfound, classifyWord_eq_keyword_iff, Ne, ((hbody.isLexeme t htbody).word_of_kind hkind).2,
    not_not]

/-- A line feed, `'😀'𐐀x` and a carriage return with a line feed. The face and the
    letter take two units each. -/
def adjoiningSource : Text :=
  utf8 "\n'😀'𐐀x\r\n"

/-- The word of two letters right behind the string. -/
def adjoiningWord : Token := ⟨.identifier, "𐐀x", none, ⟨2, 4⟩⟩

def adjoiningTokens : List Token :=
  [⟨.string, "'😀'", some (.string "😀"), ⟨2, 1⟩⟩,
    adjoiningWord, Token.endAt ⟨3, 1⟩]

set_option maxRecDepth 4000 in
/-- The word is found with the cursor right behind it, in front of the carriage
    return. -/
theorem adjoiningWord_is_found :
    Token.scan adjoiningSource = .ok adjoiningTokens ∧ adjoiningWord ∈ adjoiningTokens ∧
      (∀ m ∈ adjoiningTokens, m.kind = .number →
        m.pos.afterAll m.lexeme.glyphs ≠ adjoiningWord.pos) ∧
      unitOffset adjoiningSource 1 3 = 4 ∧ wordAt adjoiningSource 1 7 = adjoiningWord.lexeme := by
  have hscan : Token.scan adjoiningSource = .ok adjoiningTokens := by cbv
  have hmem : adjoiningWord ∈ adjoiningTokens := List.mem_cons_of_mem _ List.mem_cons_self
  have hnumber : ∀ m ∈ adjoiningTokens, m.kind = .number →
      m.pos.afterAll m.lexeme.glyphs ≠ adjoiningWord.pos := by
    have hnone : ∀ m ∈ adjoiningTokens, m.kind ≠ .number := by
      simp [adjoiningTokens, adjoiningWord, Token.endAt]
    exact fun m hm hkind => absurd hkind (hnone m hm)
  have hstart : unitOffset adjoiningSource 1 3 = 4 := by decide +kernel
  have hwidth : Rune.lineUnits adjoiningWord.lexeme.runes = 3 := by decide +kernel
  have hfound := (hover_finds_word adjoiningSource).1 _ hscan _ hmem (.inl rfl) hnumber 7
    (hstart ▸ by decide) (by rw [hwidth]; exact hstart ▸ by decide)
  exact ⟨hscan, hmem, hnumber, hstart, hfound.1⟩

end PocketScript
