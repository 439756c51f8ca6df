import TemplateGrammar.Ron.Lexeme

/-!
# Values of object notation

RON files hold rules and options.  Where any value may stand, it is read for its shape alone: a
text, a number, a word, a list, a tuple, a record, or a table with values for keys.
-/

namespace TemplateGrammar.Ron

/-- A value as it stands in a file. -/
inductive Value where
  | bool (b : Bool)
  | text (s : String)
  | char (c : Char)
  /-- a number; negative and fractional ones are only known to be numbers -/
  | number (n : Option Nat)
  /-- a word alone, such as a constant of an enumeration -/
  | word (name : String)
  /-- `()` -/
  | unit
  /-- `None` -/
  | absent
  /-- `Some(v)` -/
  | present (v : Value)
  /-- `[v, w]` -/
  | list (values : List Value)
  /-- `(v, w)` with or without a name in front -/
  | tuple (name : Option String) (values : List Value)
  /-- `(a: v, b: w)` with or without a name in front -/
  | record (name : Option String) (fields : List (String × Value))
  /-- `{v: w}` -/
  | table (entries : List (Value × Value))

namespace Value

/-- The text of a value that is one. -/
def text? : Value → Option String
  | text s => some s
  | _ => none

/-- The texts of a list or a tuple that holds nothing else. -/
def texts? : Value → Option (List String)
  | list values => values.mapM text?
  | tuple _ values => values.mapM text?
  | _ => none

end Value

end TemplateGrammar.Ron
