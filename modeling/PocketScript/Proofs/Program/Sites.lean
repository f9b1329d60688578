import Mathlib.Data.List.TakeWhile
import PocketScript.Proofs.Parser.Exact

/-!
# Where the tokens of a program stand

A tree keeps tokens for the sake of messages: whatever goes wrong at run time
goes wrong at one of them. It keeps no note of the source that they were
scanned from, and a token of a function stays in use for as long as the
function can be called.

Here is which tokens there are, each with the function that it stands in. The
tokens of a function belong to the innermost function around them, and those
that no function is around belong to the outermost code. All of them are tokens
that the program was parsed from.

## Main definitions

* `Site`: A token and the function it stands in.
* `Expr.tokens`: The tokens of an expression.
* `Stmt.sites`, `Stmt.sitesAll`: The sites of statements.
* `Site.WrittenIn`: A source writes the site.

## Theorems

* `Stmt.function_isSome`: Inside a function all sites are in some function.
* `Grammar.Derives.token_mem`: Trees keep no tokens but those they derive from.
* `Site.WrittenIn.scanned`: Sites that a source writes are scanned from it.
-/

namespace PocketScript

/-- A token and the function it stands in. The outermost code is in none. -/
structure Site where
  function : Option Text
  token : Token

mutual

/-- The tokens of an expression. -/
def Expr.tokens : Expr → List Token
  | .constant _ _ => []
  | .grouping inner _ => inner.tokens
  | .reference name => [name]
  | .assign name value => name :: value.tokens
  | .augmented name operator value => name :: operator :: value.tokens
  | .step operator name => [operator, name]
  | .unary operator operand => operator :: operand.tokens
  | .binary left operator right => operator :: (left.tokens ++ right.tokens)
  | .logical left operator right => operator :: (left.tokens ++ right.tokens)
  | .call callee paren args => paren :: (callee.tokens ++ Expr.tokensAll args)

/-- The tokens of expressions. -/
def Expr.tokensAll : List Expr → List Token
  | [] => []
  | e :: es => e.tokens ++ Expr.tokensAll es

end

mutual

/-- The sites of a statement that stands in a function. -/
def Stmt.sites (g : Option Text) : Stmt → List Site
  | .function name params body =>
    (name :: params).map (Site.mk g) ++ Stmt.sitesAll (some name.lexeme) body
  | .giveBack keyword none => [⟨g, keyword⟩]
  | .giveBack keyword (some value) => (keyword :: value.tokens).map (Site.mk g)
  | .delete keyword targets => (keyword :: targets).map (Site.mk g)
  | .loop keyword condition body =>
    (keyword :: condition.tokens).map (Site.mk g) ++ Stmt.sitesAll g body
  | .branch keyword condition consequent alternate =>
    (keyword :: condition.tokens).map (Site.mk g) ++
      (Stmt.sitesAll g consequent ++ Stmt.sitesElse g alternate)
  | .expression value => value.tokens.map (Site.mk g)
  | .echo keyword value => (keyword :: value.tokens).map (Site.mk g)
  | .leave keyword => [⟨g, keyword⟩]
  | .next keyword => [⟨g, keyword⟩]

/-- The sites of statements. -/
def Stmt.sitesAll (g : Option Text) : List Stmt → List Site
  | [] => []
  | st :: rest => st.sites g ++ Stmt.sitesAll g rest

/-- The sites of an else part. -/
def Stmt.sitesElse (g : Option Text) : Option (List Stmt) → List Site
  | none => []
  | some body => Stmt.sitesAll g body

end

theorem map_token_mk (g : Option Text) (ts : List Token) :
    (ts.map (Site.mk g)).map Site.token = ts := by
  rw [List.map_map]
  exact List.map_id ts

theorem isSome_of_mem_map {g : Text} {ts : List Token} {site : Site}
    (h : site ∈ ts.map (Site.mk (some g))) : site.function.isSome = true := by
  rcases List.mem_map.mp h with ⟨t, _, rfl⟩
  rfl

mutual

/-- Inside a function all sites are in some function. -/
theorem Stmt.function_isSome {g : Text} {site : Site} : ∀ st : Stmt,
    site ∈ st.sites (some g) → site.function.isSome = true
  | .function name params body, h => by
      rw [Stmt.sites] at h
      rcases List.mem_append.mp h with h | h
      · exact isSome_of_mem_map h
      · exact Stmt.function_isSome_all body h
  | .giveBack keyword none, h => by
      rw [Stmt.sites] at h
      rw [List.mem_singleton.mp h]
      rfl
  | .giveBack keyword (some value), h => by
      rw [Stmt.sites] at h
      exact isSome_of_mem_map h
  | .delete keyword targets, h => by
      rw [Stmt.sites] at h
      exact isSome_of_mem_map h
  | .loop keyword condition body, h => by
      rw [Stmt.sites] at h
      rcases List.mem_append.mp h with h | h
      · exact isSome_of_mem_map h
      · exact Stmt.function_isSome_all body h
  | .branch keyword condition consequent alternate, h => by
      rw [Stmt.sites] at h
      rcases List.mem_append.mp h with h | h
      · exact isSome_of_mem_map h
      · rcases List.mem_append.mp h with h | h
        · exact Stmt.function_isSome_all consequent h
        · exact Stmt.function_isSome_else alternate h
  | .expression value, h => by
      rw [Stmt.sites] at h
      exact isSome_of_mem_map h
  | .echo keyword value, h => by
      rw [Stmt.sites] at h
      exact isSome_of_mem_map h
  | .leave keyword, h => by
      rw [Stmt.sites] at h
      rw [List.mem_singleton.mp h]
      rfl
  | .next keyword, h => by
      rw [Stmt.sites] at h
      rw [List.mem_singleton.mp h]
      rfl

theorem Stmt.function_isSome_all {g : Text} {site : Site} : ∀ b : List Stmt,
    site ∈ Stmt.sitesAll (some g) b → site.function.isSome = true
  | [], h => by
      rw [Stmt.sitesAll] at h
      cases h
  | st :: rest, h => by
      rw [Stmt.sitesAll] at h
      rcases List.mem_append.mp h with h | h
      · exact Stmt.function_isSome st h
      · exact Stmt.function_isSome_all rest h

theorem Stmt.function_isSome_else {g : Text} {site : Site} : ∀ b : Option (List Stmt),
    site ∈ Stmt.sitesElse (some g) b → site.function.isSome = true
  | none, h => by
      rw [Stmt.sitesElse] at h
      cases h
  | some body, h => by
      rw [Stmt.sitesElse] at h
      exact Stmt.function_isSome_all body h

end

namespace Grammar

/-- The sites of a tree, of whatever form it is, that stands in a function. -/
def Form.sites (g : Option Text) : (f : Form) → f.Tree → List Site
  | assignment, e => e.tokens.map (Site.mk g)
  | chain _, e => e.tokens.map (Site.mk g)
  | operand _, e => e.tokens.map (Site.mk g)
  | unary, e => e.tokens.map (Site.mk g)
  | prefixed, e => e.tokens.map (Site.mk g)
  | called, e => e.tokens.map (Site.mk g)
  | suffixed, e => e.tokens.map (Site.mk g)
  | primary, e => e.tokens.map (Site.mk g)
  | arguments, es => (Expr.tokensAll es).map (Site.mk g)
  | listed, es => (Expr.tokensAll es).map (Site.mk g)
  | parameters, ts => ts.map (Site.mk g)
  | named, ts => ts.map (Site.mk g)
  | statement, st => st.sites g
  | conditional, st => st.sites g
  | block, b => Stmt.sitesAll g b
  | statements, b => Stmt.sitesAll g b

/-- The tokens of a tree are among those it derives from. -/
theorem Derives.token_mem {f : Form} {ts : List Token} {tree : f.Tree} (h : Derives f ts tree) :
    ∀ g, (f.sites g tree).map Site.token ⊆ ts := by
  induction h
  -- Every production keeps some of its own tokens and what its parts keep. The
  -- function that a part stands in makes no difference to its tokens.
  all_goals
    intro g t ht
    simp only [Form.sites, Stmt.sites, Stmt.sitesAll, Stmt.sitesElse, Expr.tokens, Expr.tokensAll,
      List.map_append, List.map_cons, List.map_nil, map_token_mk, List.subset_def,
      forall_const] at *
    grind

end Grammar

/-- The source writes the site. -/
def Site.WrittenIn (source : Text) (site : Site) : Prop :=
  ∃ p, parseSource source = .ok p ∧ site ∈ Stmt.sitesAll none p

/-- Sites that a source writes are scanned from it, and are not its end. -/
theorem Site.WrittenIn.scanned {source : Text} {site : Site} (h : site.WrittenIn source) :
    ∃ ts, Token.scan source = .ok ts ∧ site.token ∈ ts ∧ site.token.isEnd = false := by
  rcases h with ⟨p, hp, hsite⟩
  cases hscan : Token.scan source with
  | error e =>
      rw [parseSource, hscan] at hp
      cases hp
  | ok ts =>
      have hderives := (parse_eq_ok_iff ts p).mp ((parseSource_eq_ok_iff hscan p).mp hp)
      have hmem := hderives.token_mem none (List.mem_map_of_mem hsite)
      have hopen := List.mem_takeWhile_imp hmem
      exact ⟨ts, rfl, (List.takeWhile_prefix _).subset hmem, by simpa using hopen⟩

end PocketScript
