import TemplateGrammar.Text.Blank

/-!
# Tokens

A template is read as a list of tokens: runs of literal text, single reserved characters, the two
comparisons `==` and `!=`, the seven keywords of blocks, and numbers.  This file holds the type, the
text a token stands for (`Token.raw`), and the name it is given in messages (`Token.display`).
-/

namespace TemplateGrammar

/-- The words that steer a block. -/
inductive Keyword where
  | ifWord
  | thenWord
  | elseWord
  | whileWord
  | doWord
  | inWord
  | notInWord
  deriving DecidableEq, Repr

namespace Keyword

/-- How a keyword is written. -/
def spelling : Keyword → String
  | ifWord => "if"
  | thenWord => "then"
  | elseWord => "else"
  | whileWord => "while"
  | doWord => "do"
  | inWord => "in"
  | notInWord => "not in"

/-- The keywords in the order in which they are looked for. -/
def all : List Keyword :=
  [notInWord, ifWord, thenWord, elseWord, whileWord, doWord, inWord]

/-- Only the words that open a block may stand directly after a `[`. -/
def opensBlock : Keyword → Bool
  | ifWord | whileWord => true
  | _ => false

theorem mem_all (k : Keyword) : k ∈ all := by
  cases k <;> decide

end Keyword

/-- A token.  `op` may carry any character; the lexer makes it of the reserved ones only. -/
inductive Token where
  | text (s : String)
  | op (c : Char)
  | equal
  | unequal
  | keyword (k : Keyword)
  | number (n : Nat)
  deriving DecidableEq, Repr

namespace Token

/-- The text a token stands for, with the escapes of a text run already taken out.  It is what a
token is worth when it has to be read as plain text. -/
def raw : Token → String
  | text s => s
  | op c => String.singleton c
  | equal => "=="
  | unequal => "!="
  | keyword k => k.spelling
  | number n => toString n

/-- How messages name a token. -/
def display : Token → String
  | text s => "'" ++ s ++ "'"
  | op c => String.singleton c
  | equal => "=="
  | unequal => "!="
  | keyword k => "keyword '" ++ k.spelling ++ "'"
  | number n => "number " ++ toString n

/-- A text token of exactly one blank. -/
def isSpace : Token → Bool
  | text s =>
    match s.toList with
    | [c] => isBlank c
    | _ => false
  | _ => false

/-- The raw texts of a token list, end to end. -/
def rawText (tokens : List Token) : String :=
  String.join (tokens.map raw)

end Token

end TemplateGrammar
