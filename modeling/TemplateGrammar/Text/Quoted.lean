import TemplateGrammar.Text.Unprintable

/-!
# Quoted texts

How messages show a text that must not be mistaken for the words around it: between double quotes,
with quotes, backslashes and line ends escaped, and with every character that does not print given
by its number.
-/

namespace TemplateGrammar.Quoted

/-- The lower-case hexadecimal digits of a number. -/
def hex (n : Nat) : String :=
  String.ofList (Nat.toDigits 16 n)

/-- A character inside quotes. -/
def char (c : Char) : String :=
  if c = '"' then "\\\""
  else if c = '\\' then "\\\\"
  else if c = '\n' then "\\n"
  else if c = '\t' then "\\t"
  else if c = '\r' then "\\r"
  else if c = '\x00' then "\\0"
  else if CharSet.unprintable.contains c then "\\u\x7b" ++ hex c.toNat ++ "\x7d"
  else String.singleton c

/-- A quoted text. -/
def text (s : String) : String :=
  "\"" ++ String.join (s.toList.map char) ++ "\""

/-- A list of quoted texts. -/
def list (texts : List String) : String :=
  "[" ++ ", ".intercalate (texts.map text) ++ "]"

end TemplateGrammar.Quoted
