/-!
# Texts in JSON

How the playground and a page exchange texts: a text in quotes, or an array of such texts.  Writing
is compact; reading takes blanks and every escape of the notation, and two escapes that are halves
of one character are put together.
-/

namespace TemplateGrammar.JsonText

/-! ### Writing -/

/-- A number below 256 with two hexadecimal digits. -/
def twoDigits (n : Nat) : String :=
  String.ofList [Nat.digitChar (n / 16), Nat.digitChar (n % 16)]

/-- A character inside quotes. -/
def char (c : Char) : String :=
  if c = '"' then "\\\""
  else if c = '\\' then "\\\\"
  else if c = '\x08' then "\\b"
  else if c = '\t' then "\\t"
  else if c = '\n' then "\\n"
  else if c = '\x0c' then "\\f"
  else if c = '\r' then "\\r"
  else if c.toNat < 0x20 then "\\u00" ++ twoDigits c.toNat
  else String.singleton c

/-- A text in quotes. -/
def quote (s : String) : String :=
  "\"" ++ String.join (s.toList.map char) ++ "\""

/-- Written values as an array. -/
def array (values : List String) : String :=
  "[" ++ ",".intercalate values ++ "]"

/-- Written values with names as an object, in the order given. -/
def object (fields : List (String × String)) : String :=
  "\x7b" ++ ",".intercalate (fields.map fun f => quote f.1 ++ ":" ++ f.2) ++ "\x7d"

/-! ### Reading -/

/-- Skip blanks. -/
def skip (cs : List Char) : List Char :=
  cs.dropWhile fun c => c == ' ' || c == '\t' || c == '\n' || c == '\r'

/-- The value of a hexadecimal digit. -/
def hex? (c : Char) : Option Nat :=
  if c.isDigit then some (c.toNat - '0'.toNat)
  else if 'a' ≤ c ∧ c ≤ 'f' then some (c.toNat - 'a'.toNat + 10)
  else if 'A' ≤ c ∧ c ≤ 'F' then some (c.toNat - 'A'.toNat + 10)
  else none

/-- A number of four hexadecimal digits. -/
def four? : List Char → Option (Nat × List Char)
  | a :: b :: c :: d :: rest => do
    return (((← hex? a) * 16 + (← hex? b)) * 256 + (← hex? c) * 16 + (← hex? d), rest)
  | _ => none

/-- The character that `\u` escapes stand for; the first number has been taken. -/
def unicode? (n : Nat) (rest : List Char) : Option (Char × List Char) :=
  if 0xD800 ≤ n ∧ n < 0xDC00 then
    match rest with
    | '\\' :: 'u' :: more =>
      match four? more with
      | some (low, out) =>
        if 0xDC00 ≤ low ∧ low < 0xE000 then
          some (Char.ofNat (0x10000 + (n - 0xD800) * 0x400 + (low - 0xDC00)), out)
        else none
      | none => none
    | _ => none
  else if n.isValidChar then some (Char.ofNat n, rest)
  else none

/-- The character that an escape stands for; the backslash has been taken. -/
def escape? : List Char → Option (Char × List Char)
  | '"' :: rest => some ('"', rest)
  | '\\' :: rest => some ('\\', rest)
  | '/' :: rest => some ('/', rest)
  | 'b' :: rest => some ('\x08', rest)
  | 'f' :: rest => some ('\x0c', rest)
  | 'n' :: rest => some ('\n', rest)
  | 'r' :: rest => some ('\r', rest)
  | 't' :: rest => some ('\t', rest)
  | 'u' :: rest => (four? rest).bind fun out => unicode? out.1 out.2
  | _ => none

/-- The characters of a text up to its closing quote.  Control characters must be escaped. -/
def quoted? : List Char → Option (List Char × List Char)
  | [] => none
  | '"' :: rest => some ([], rest)
  | '\\' :: rest =>
    match escape? rest with
    | none => none
    | some (c, more) =>
      if more.length < rest.length then (quoted? more).map fun out => (c :: out.1, out.2) else none
  | c :: rest =>
    if c.toNat < 0x20 then none else (quoted? rest).map fun out => (c :: out.1, out.2)
termination_by cs => cs.length

/-- A text in quotes, with blanks before it. -/
def text? (cs : List Char) : Option (String × List Char) :=
  match skip cs with
  | '"' :: rest => (quoted? rest).map fun out => (String.ofList out.1, out.2)
  | _ => none

/-- The texts of an array behind its first bracket or a comma. -/
def items? (cs : List Char) : Option (List String × List Char) :=
  match text? cs with
  | none => none
  | some (s, after) =>
    match skip after with
    | ',' :: more =>
      if more.length < cs.length then (items? more).map fun out => (s :: out.1, out.2) else none
    | ']' :: more => some ([s], more)
    | _ => none
termination_by cs.length

/-- A text, which counts as one of its kind, or an array of texts. -/
def value? (cs : List Char) : Option (List String × List Char) :=
  match skip cs with
  | '[' :: rest =>
    match skip rest with
    | ']' :: more => some ([], more)
    | _ => items? rest
  | _ => (text? cs).map fun out => ([out.1], out.2)

/-- **Read a text or an array of texts.**  Nothing but blanks may follow. -/
def read? (s : String) : Option (List String) :=
  match value? s.toList with
  | some (texts, rest) => if (skip rest).isEmpty then some texts else none
  | none => none

end TemplateGrammar.JsonText
