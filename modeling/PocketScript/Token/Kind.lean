import PocketScript.Text.Basic

/-!
# Kinds of tokens

The lexical categories of the language. Every kind has a name, which listings
print; for punctuation and operators it is the lexeme itself. A token that a
host builds by hand may carry a name that is none of the language's, and such
a token is of kind `other`: no rule of the grammar accepts it.

## Main definitions

* `Kind`: The lexical categories.
* `Kind.name`, `Kind.ofName`: Their names.
* `Kind.keywords`: The reserved words.
* `Kind.ofWord`: The kind of a word.
-/

namespace PocketScript

/-- A lexical category. -/
inductive Kind where
  | endOfInput
  | identifier
  | number
  | string
  | leftParen
  | rightParen
  | leftBrace
  | rightBrace
  | comma
  | semicolon
  | plus
  | minus
  | star
  | slash
  | percent
  | assign
  | bang
  | less
  | greater
  | equal
  | notEqual
  | lessEqual
  | greaterEqual
  | both
  | either
  | increment
  | decrement
  | plusAssign
  | minusAssign
  | starAssign
  | slashAssign
  | percentAssign
  | nullWord
  | trueWord
  | falseWord
  | funcWord
  | ifWord
  | elseWord
  | whileWord
  | returnWord
  | delWord
  | echoWord
  | breakWord
  | continueWord
  | other (name : Text)
deriving Repr, DecidableEq, Inhabited

namespace Kind

/-- The name that listings print. -/
def name : Kind → Text
  | endOfInput => "EOF"
  | identifier => "IDENT"
  | number => "NUMBER"
  | string => "STRING"
  | leftParen => "("
  | rightParen => ")"
  | leftBrace => "\x7b"
  | rightBrace => "\x7d"
  | comma => ","
  | semicolon => ";"
  | plus => "+"
  | minus => "-"
  | star => "*"
  | slash => "/"
  | percent => "%"
  | assign => "="
  | bang => "!"
  | less => "<"
  | greater => ">"
  | equal => "=="
  | notEqual => "!="
  | lessEqual => "<="
  | greaterEqual => ">="
  | both => "&&"
  | either => "||"
  | increment => "++"
  | decrement => "--"
  | plusAssign => "+="
  | minusAssign => "-="
  | starAssign => "*="
  | slashAssign => "/="
  | percentAssign => "%="
  | nullWord => "NULL"
  | trueWord => "TRUE"
  | falseWord => "FALSE"
  | funcWord => "FUNC"
  | ifWord => "IF"
  | elseWord => "ELSE"
  | whileWord => "WHILE"
  | returnWord => "RETURN"
  | delWord => "DEL"
  | echoWord => "ECHO"
  | breakWord => "BREAK"
  | continueWord => "CONTINUE"
  | other n => n

/-- Every kind of the language. -/
def all : List Kind :=
  [endOfInput, identifier, number, string, leftParen, rightParen, leftBrace, rightBrace, comma,
    semicolon, plus, minus, star, slash, percent, assign, bang, less, greater, equal, notEqual,
    lessEqual, greaterEqual, both, either, increment, decrement, plusAssign, minusAssign,
    starAssign, slashAssign, percentAssign, nullWord, trueWord, falseWord, funcWord, ifWord,
    elseWord, whileWord, returnWord, delWord, echoWord, breakWord, continueWord]

/-- The kind with a given name. -/
def ofName (n : Text) : Kind := (all.find? fun k => k.name == n).getD (other n)

/-- The reserved words with their kinds, in byte order. -/
def keywords : List (Text × Kind) :=
  [("break", breakWord), ("continue", continueWord), ("del", delWord), ("echo", echoWord),
    ("else", elseWord), ("false", falseWord), ("func", funcWord), ("if", ifWord),
    ("null", nullWord), ("return", returnWord), ("true", trueWord), ("while", whileWord)]

/-- The reserved words in byte order. -/
def keywordNames : List Text := keywords.map Prod.fst

/-- The kind of a word: its own if it is reserved, otherwise a name. -/
def ofWord (w : Text) : Kind := (keywords.lookup w).getD identifier

end Kind

end PocketScript
