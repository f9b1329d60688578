import PocketScript.Fault.Lexical
import PocketScript.Token.Basic

/-!
# Scanning

From a source text to its tokens.

The source is read as glyphs. Between tokens stand gaps of blanks, line ends
and comments, which `skipGap` passes over. At the start of a token
`Scanned.read` says which token stands there and how many glyphs it takes: the
longest that is a word, a number, a string or an operator. It looks at glyphs
only and knows nothing of positions, so positions are accounted for in one
place, `scanFrom`, by walking over what was read.

## Main definitions

* `Rune.startsWord`, `Rune.continuesWord`: The characters of words.
* `Scanned.read`: The token that starts with a given glyph.
* `skipGap`: Passing over blanks and comments.
* `Token.scan`: The tokens of a source.

## Theorems

* `length_skipGap_le`: A gap is passed over, never added to.
-/

namespace PocketScript

namespace Rune

/-- A digit of a number. -/
def isDigit (r : Rune) : Bool := 48 ≤ r && r ≤ 57

/-- A character that can start a word. -/
def startsWord (r : Rune) : Bool := r.isLetter || r == 95

/-- A character that can go on with a word. -/
def continuesWord (r : Rune) : Bool := r.isLetter || r.isDecimalDigit || r == 95

/-- A blank between tokens. -/
def isGapBlank (r : Rune) : Bool := r == 32 || r == 9 || r == 13 || r == 10

/-- The character that starts a comment. -/
def isHash (r : Rune) : Bool := r == 35

/-- A character that opens and closes a string. -/
def isQuote (r : Rune) : Bool := r == 34 || r == 39

end Rune

/-- The operators of two characters. -/
def Kind.ofPair? : Rune → Rune → Option Kind
  | 43, 43 => some .increment
  | 43, 61 => some .plusAssign
  | 45, 45 => some .decrement
  | 45, 61 => some .minusAssign
  | 42, 61 => some .starAssign
  | 47, 61 => some .slashAssign
  | 37, 61 => some .percentAssign
  | 61, 61 => some .equal
  | 33, 61 => some .notEqual
  | 60, 61 => some .lessEqual
  | 62, 61 => some .greaterEqual
  | 38, 38 => some .both
  | 124, 124 => some .either
  | _, _ => none

/-- The punctuation and operators of one character. -/
def Kind.ofSingle? : Rune → Option Kind
  | 40 => some .leftParen
  | 41 => some .rightParen
  | 123 => some .leftBrace
  | 125 => some .rightBrace
  | 44 => some .comma
  | 59 => some .semicolon
  | 43 => some .plus
  | 45 => some .minus
  | 42 => some .star
  | 47 => some .slash
  | 37 => some .percent
  | 61 => some .assign
  | 33 => some .bang
  | 60 => some .less
  | 62 => some .greater
  | _ => none

/-- What stands at the start of a token. A token is given by its kind, its
    value and the number of glyphs it takes after its first. -/
inductive Scanned where
  | token (kind : Kind) (literal : Option Literal) (more : Nat)
  | unexpected
  | unterminated
deriving Repr, Inhabited

namespace Scanned

/-- An operator of two characters if there is one, else of one. -/
def operator? (g : Glyph) (rest : List Glyph) : Option Scanned :=
  match rest.head?.bind fun h => Kind.ofPair? g.code h.code with
  | some kind => some (token kind none 1)
  | none => (Kind.ofSingle? g.code).map fun kind => token kind none 0

/-- A string: everything up to the next quote like the first. -/
def quoted (g : Glyph) (rest : List Glyph) : Scanned :=
  let inside := rest.takeWhile fun h => h.code != g.code
  if inside.length < rest.length then
    token .string (some (.string (Text.ofGlyphs inside))) (inside.length + 1)
  else unterminated

/-- The value that a constant word stands for. -/
def constant? : Kind → Option Literal
  | .trueWord => some (.bool true)
  | .falseWord => some (.bool false)
  | .nullWord => some .null
  | _ => none

/-- A word: a name or a reserved word. -/
def word (g : Glyph) (rest : List Glyph) : Scanned :=
  let more := rest.takeWhile fun h => h.code.continuesWord
  let kind := Kind.ofWord (Text.ofGlyphs (g :: more))
  token kind (constant? kind) more.length

/-- A number: digits, and a point with digits after it if there are any. -/
def numeral (g : Glyph) (rest : List Glyph) : Scanned :=
  let more := rest.takeWhile fun h => h.code.isDigit
  let whole := Text.ofGlyphs (g :: more)
  match rest.drop more.length with
  | p :: after =>
    let fraction := after.takeWhile fun h => h.code.isDigit
    if p.code = 46 ∧ ¬ fraction.isEmpty then
      token .number (some (.number (Number.ofDigits whole (Text.ofGlyphs fraction))))
        (more.length + 1 + fraction.length)
    else token .number (some (.number (Number.ofDigits whole []))) more.length
  | [] => token .number (some (.number (Number.ofDigits whole []))) more.length

/-- What starts with glyph `g` and goes on in `rest`. -/
def read (g : Glyph) (rest : List Glyph) : Scanned :=
  match operator? g rest with
  | some s => s
  | none =>
    if g.code.isQuote then quoted g rest
    else if g.code.startsWord then word g rest
    else if g.code.isDigit then numeral g rest
    else unexpected

end Scanned

/-- Passes over blanks and comments, keeping track of the position. A comment
    goes on until its line ends. -/
def skipGap : (inComment : Bool) → Position → List Glyph → Position × List Glyph
  | _, p, [] => (p, [])
  | inComment, p, g :: rest =>
    if inComment then skipGap (g.code != 10) (p.after g) rest
    else if g.code.isGapBlank then skipGap false (p.after g) rest
    else if g.code.isHash then skipGap true (p.after g) rest
    else (p, g :: rest)

theorem length_skipGap_le (gs : List Glyph) :
    ∀ inComment p, (skipGap inComment p gs).2.length ≤ gs.length := by
  induction gs with
  | nil => intro c p; simp [skipGap]
  | cons g rest ih =>
      intro c p
      rw [skipGap]
      split
      · exact Nat.le_succ_of_le (ih _ _)
      · split
        · exact Nat.le_succ_of_le (ih _ _)
        · split
          · exact Nat.le_succ_of_le (ih _ _)
          · exact Nat.le_refl _

/-- The tokens of the glyphs from `p` on. The last one ends the input. -/
def scanFrom (p : Position) (gs : List Glyph) : Except LexicalFault (List Token) :=
  match _hgap : skipGap false p gs with
  | (stop, []) => .ok [Token.endAt stop]
  | (here, g :: rest) =>
    match Scanned.read g rest with
    | .unexpected => .error ⟨.unexpectedCharacter, g.code, here⟩
    | .unterminated => .error ⟨.unterminatedString, 0, here.afterAll (g :: rest)⟩
    | .token kind literal more =>
      let taken := g :: rest.take more
      match scanFrom (here.afterAll taken) (rest.drop more) with
      | .ok ts => .ok (⟨kind, Text.ofGlyphs taken, literal, here⟩ :: ts)
      | .error e => .error e
termination_by gs.length
decreasing_by
  have hle := length_skipGap_le gs false p
  rw [_hgap] at hle
  simp only [List.length_cons, List.length_drop] at hle ⊢
  omega

/-- The tokens of a source. The list always ends with the one token that ends
    the input. -/
def Token.scan (source : Text) : Except LexicalFault (List Token) :=
  scanFrom .start source.glyphs

end PocketScript
