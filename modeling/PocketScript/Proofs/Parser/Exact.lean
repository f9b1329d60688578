import PocketScript.Program.Source
import PocketScript.Proofs.Parser.Completeness
import PocketScript.Proofs.Parser.Descent

/-!
# The parser and the grammar

Parsing succeeds with a program exactly when the tokens before the end of the
input derive it, and tokens derive at most one program.

Soundness gives one direction. For the other, completeness says that a large
enough counter reads the program, the counter that `parse` supplies is not
used up, and a larger counter keeps what was read; so the supplied counter
already reads it. That the grammar is unambiguous needs no argument of its
own: with a large enough counter two derivations of the same tokens are two
answers of one reader.

## Main definitions

* `Token.beforeEnd`: The tokens before the first that ends the input.

## Theorems

* `Grammar.Derives.unique`: Tokens derive at most one program.
* `parse_eq_ok_iff`: Parsing succeeds exactly on derivable tokens.
* `parse_recognises_grammar`: Both together.
-/

namespace PocketScript

open Grammar Reading

/-- The tokens before the first one that ends the input. -/
def Token.beforeEnd (ts : List Token) : List Token := ts.takeWhile fun t => !t.isEnd

theorem Token.beforeEnd_concat {body : List Token} (h : ∀ t ∈ body, t.isEnd = false)
    (q : Position) : Token.beforeEnd (body ++ [Token.endAt q]) = body := by
  rw [Token.beforeEnd, List.takeWhile_append_of_pos (fun t ht => by rw [h t ht]; rfl)]
  exact List.append_nil body

/-- Tokens derive at most one program. -/
theorem Grammar.Derives.unique {ts : List Token} {p q : List Stmt}
    (hp : Derives .statements ts p) (hq : Derives .statements ts q) : p = q := by
  rcases program_complete (.endAt .start) hp with ⟨m, hm⟩
  rcases program_complete (.endAt .start) hq with ⟨k, hk⟩
  rcases hm (max m k) (by omega) with ⟨_, hpm⟩
  rcases hk (max m k) (by omega) with ⟨_, hqk⟩
  rw [hpm] at hqk
  exact (Reading.done.inj hqk).1

/-- The supplied counter reads a derivable program. -/
theorem program_gives_of_derives (stop : Token) {ts : List Token} {p : List Stmt}
    (h : Derives .statements ts p) : (program stop (descentBound ts) ts).Gives p [] := by
  rcases program_complete stop h with ⟨m, hm⟩
  have hlarge := hm (max m (descentBound ts)) (by omega)
  rcases program_steady stop (Nat.le_max_right m (descentBound ts)) ts with hs | heq
  · exact absurd hs (program_fed stop ts)
  · rw [heq]
    exact hlarge

theorem parse_eq_ok_iff (ts : List Token) (p : List Stmt) :
    (parse ts).outcome = .ok p ↔ Derives .statements (Token.beforeEnd ts) p := by
  constructor
  · intro h
    rw [parse] at h
    cases hr : program (endToken ts) (descentBound (ts.takeWhile fun t => !t.isEnd))
        (ts.takeWhile fun t => !t.isEnd) with
    | done q rest remarks =>
        rw [hr] at h
        have hqp : q = p := Except.ok.inj h
        exact hqp ▸ (program_sound ⟨remarks, hr⟩).2
    | failed e remarks => rw [hr] at h; cases h
    | starved => exact absurd hr (program_fed _ _)
  · intro h
    rcases program_gives_of_derives (endToken ts) h with ⟨remarks, hr⟩
    rw [Token.beforeEnd] at hr
    simp only [parse, hr]

theorem parseSource_eq_ok_iff {source : Text} {ts : List Token} (h : Token.scan source = .ok ts)
    (p : List Stmt) : parseSource source = .ok p ↔ (parse ts).outcome = .ok p := by
  rw [parseSource, h]
  dsimp only
  cases (parse ts).outcome <;> simp

/-- Parsing succeeds with a program exactly when the tokens before the end of
    the input derive it, and these tokens derive no other. -/
theorem parse_recognises_grammar (ts : List Token) :
    (∀ p, (parse ts).outcome = .ok p ↔ Derives .statements (Token.beforeEnd ts) p) ∧
      ∀ p q, Derives .statements (Token.beforeEnd ts) p →
        Derives .statements (Token.beforeEnd ts) q → p = q :=
  ⟨parse_eq_ok_iff ts, fun _ _ hp hq => hp.unique hq⟩

/-- A token of one byte on the first line. -/
def byteToken (k : Kind) (b : UInt8) (column : Int) : Token := ⟨k, [b], none, ⟨1, column⟩⟩

/-- The tokens of `x=a-2*c("s",0)-d;` with the end of the input, and a token after
    that. The zero does not carry its value. -/
def ladderTokens : List Token :=
  [byteToken .identifier 120 1, byteToken .assign 61 2, byteToken .identifier 97 3,
    byteToken .minus 45 4, ⟨.number, utf8 "2", some (.number 2), ⟨1, 5⟩⟩, byteToken .star 42 6,
    byteToken .identifier 99 7, byteToken .leftParen 40 8,
    ⟨.string, utf8 "\"s\"", some (.string (utf8 "s")), ⟨1, 9⟩⟩, byteToken .comma 44 12,
    byteToken .number 48 13, byteToken .rightParen 41 14, byteToken .minus 45 15,
    byteToken .identifier 100 16, byteToken .semicolon 59 17, .endAt ⟨1, 18⟩,
    byteToken .rightBrace 125 18]

/-- What they write: the assignment takes in everything, the differences lean
    to the left, and the product and the call bind tighter. -/
def ladderProgram : List Stmt :=
  let arguments := [Expr.constant (.string (utf8 "s")) ⟨1, 9⟩, .constant (.number 0) ⟨1, 13⟩]
  let product := Expr.binary (.constant (.number 2) ⟨1, 5⟩) (byteToken .star 42 6)
    (.call (.reference (byteToken .identifier 99 7)) (byteToken .rightParen 41 14) arguments)
  let first := Expr.binary (.reference (byteToken .identifier 97 3)) (byteToken .minus 45 4) product
  [.expression (.assign (byteToken .identifier 120 1) (.binary first (byteToken .minus 45 15)
    (.reference (byteToken .identifier 100 16))))]

theorem ladderTokens_derive_ladderProgram :
    Derives .statements (Token.beforeEnd ladderTokens) ladderProgram ∧
      ∀ q, Derives .statements (Token.beforeEnd ladderTokens) q → q = ladderProgram := by
  have hderives := ((parse_recognises_grammar ladderTokens).1 ladderProgram).mp rfl
  exact ⟨hderives, fun q hq => (parse_recognises_grammar ladderTokens).2 q _ hq hderives⟩

end PocketScript
