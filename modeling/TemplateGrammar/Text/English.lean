import TemplateGrammar.Text.Blank
import TemplateGrammar.Text.Case

/-!
# English inflection

The modifiers every grammar of English wants: capitals, plurals, articles, past tenses and
punctuation.  They look at the first or the last letters of a text only, so they are right for
regular words.  Vowels and the letters of endings are those of ASCII; capitals are those of Unicode.
-/

namespace TemplateGrammar.English

/-- The five vowels, in either case. -/
def isVowel (c : Char) : Bool :=
  ['a', 'e', 'i', 'o', 'u'].contains c.toLower

/-- The first character in upper case. -/
def capitalize (s : String) : String :=
  match s.toList with
  | [] => ""
  | c :: rest => String.ofList (Case.upperChar c ++ rest)

/-- The characters behind a blank in upper case; `start` says that the list itself begins a word. -/
def capitalizeWords (start : Bool) : List Char → List Char
  | [] => []
  | c :: rest => (if start then Case.upperChar c else [c]) ++ capitalizeWords (isBlank c) rest

/-- The first character of every word in upper case. -/
def capitalizeAll (s : String) : String :=
  String.ofList (capitalizeWords true s.toList)

/-- The text without its last character, which is a `y` that follows something other than a
vowel. -/
def stemOfY? (s : String) : Option String :=
  match s.toList.reverse with
  | 'y' :: c :: rest => if isVowel c then none else some (String.ofList (c :: rest).reverse)
  | _ => none

/-- **The plural of a noun.** -/
def plural (s : String) : String :=
  match s.toList.getLast? with
  | some 's' | some 'h' | some 'x' => s ++ "es"
  | _ =>
    match stemOfY? s with
    | some stem => stem ++ "ies"
    | none => s ++ "s"

/-- A noun with the indefinite article. -/
def article (s : String) : String :=
  match s.toList with
  | c :: _ => if isVowel c then "an " ++ s else "a " ++ s
  | [] => "a " ++ s

/-- **The past tense of a verb.** -/
def pastTense (s : String) : String :=
  match s.toList.getLast? with
  | some 'e' => s ++ "d"
  | _ =>
    match stemOfY? s with
    | some stem => stem ++ "ied"
    | none => s ++ "ed"

/-- A text between double quotes. -/
def inQuotes (s : String) : String :=
  "\"" ++ s ++ "\""

/-- The characters that end a sentence or a part of one. -/
def isPunctuation (c : Char) : Bool :=
  [',', '.', '?', '!'].contains c

/-- A text with a comma behind it, unless punctuation ends it already. -/
def comma (s : String) : String :=
  if s.toList.getLast?.any isPunctuation then s else s ++ ","

/-- The standard modifiers and their names. -/
def modifiers : List (String × (String → String)) :=
  [("capitalize", capitalize), ("capitalizeAll", capitalizeAll), ("caps", Case.upper),
    ("lower", Case.lower), ("s", plural), ("a", article), ("ed", pastTense), ("inQuotes", inQuotes),
    ("comma", comma)]

end TemplateGrammar.English
