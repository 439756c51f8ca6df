/-!
# Reading object notation, piece by piece

The small pieces a RON file is made of: blanks and comments, identifiers, texts with escapes, raw
texts, characters and numbers.  A reader takes a piece off the front of the characters, or answers
that there is none.

Blanks are the space, the tab and the two line ends; comments run to the end of the line or between
`/*` and `*/`, where they nest.
-/

namespace TemplateGrammar.Ron

/-- A reader of the front of a text. -/
abbrev Reader (α : Type) := List Char → Option (α × List Char)

/-! ### Blanks -/

/-- Where between two pieces a place lies. -/
inductive Gap where
  | open
  | line
  | block (depth : Nat)

/-- A blank character. -/
def isSpace (c : Char) : Bool :=
  c == ' ' || c == '\t' || c == '\n' || c == '\r'

/-- **Skip blanks and comments.**  A slash that begins no comment, and a comment that does not end,
are faults. -/
def skipGap : Gap → List Char → Option (List Char)
  | .open, '/' :: '/' :: rest => skipGap .line rest
  | .open, '/' :: '*' :: rest => skipGap (.block 0) rest
  | .open, '/' :: _ => none
  | .open, c :: rest => if isSpace c then skipGap .open rest else some (c :: rest)
  | .open, [] => some []
  | .line, '\n' :: rest => skipGap .open rest
  | .line, _ :: rest => skipGap .line rest
  | .line, [] => some []
  | .block d, '/' :: '*' :: rest => skipGap (.block (d + 1)) rest
  | .block 0, '*' :: '/' :: rest => skipGap .open rest
  | .block (d + 1), '*' :: '/' :: rest => skipGap (.block d) rest
  | .block d, _ :: rest => skipGap (.block d) rest
  | .block _, [] => none

/-- Skip blanks and comments. -/
def skipBlanks (cs : List Char) : Option (List Char) :=
  skipGap .open cs

/-- One character, with blanks before it. -/
def symbol (c : Char) : Reader Unit := fun cs =>
  match skipBlanks cs with
  | some (d :: rest) => if d = c then some ((), rest) else none
  | _ => none

/-! ### Identifiers -/

/-- A character that can begin an identifier. -/
def startsName (c : Char) : Bool :=
  c.isAlpha || c == '_'

/-- A character that can stand in an identifier. -/
def continuesName (c : Char) : Bool :=
  c.isAlphanum || c == '_'

/-- A character that can stand in an identifier behind `r#`. -/
def continuesRawName (c : Char) : Bool :=
  continuesName c || c == '.' || c == '+' || c == '-'

/-- An identifier, and whether it is written raw, behind `r#`. -/
structure Identifier where
  text : String
  isRaw : Bool
  deriving DecidableEq, Repr

/-- **An identifier.**  An `r` before a quote begins a raw text and is none. -/
def identifier : Reader Identifier
  | ['r'] => none
  | 'r' :: '"' :: _ => none
  | 'r' :: '#' :: rest =>
    if (rest.head?.any continuesRawName) then
      some (⟨String.ofList (rest.takeWhile continuesRawName), true⟩,
        rest.dropWhile continuesRawName)
    else none
  | c :: rest =>
    if startsName c then
      some (⟨String.ofList (c :: rest.takeWhile continuesName), false⟩,
        rest.dropWhile continuesName)
    else none
  | [] => none

/-- A word of the notation.  Written raw it is a name like any other, and none. -/
def keyword (w : String) : Reader Unit := fun cs =>
  match identifier cs with
  | some (name, rest) => if name = ⟨w, false⟩ then some ((), rest) else none
  | none => none

/-- Certain characters, whatever follows them. -/
def literal (w : String) : Reader Unit := fun cs =>
  if w.toList.isPrefixOf cs then some ((), cs.drop w.length) else none

/-! ### Texts -/

/-- The value of a digit in a base up to sixteen. -/
def digit? (base : Nat) (c : Char) : Option Nat :=
  let d :=
    if c.isDigit then c.toNat - '0'.toNat
    else if 'a' ≤ c ∧ c ≤ 'f' then c.toNat - 'a'.toNat + 10
    else if 'A' ≤ c ∧ c ≤ 'F' then c.toNat - 'A'.toNat + 10
    else base
  if d < base then some d else none

/-- The number that digits write. -/
def digits? (base : Nat) (cs : List Char) : Option Nat :=
  cs.foldlM (fun n c => (digit? base c).map fun d => n * base + d) 0

/-- The character with a number, which must be one. -/
def charOf? (n : Nat) : Option Char :=
  if n.isValidChar then some (Char.ofNat n) else none

/-- The character that an escape names; the backslash has been taken. -/
def escape : Reader Char
  | 'n' :: rest => some ('\n', rest)
  | 'r' :: rest => some ('\r', rest)
  | 't' :: rest => some ('\t', rest)
  | '0' :: rest => some ('\x00', rest)
  | '\'' :: rest => some ('\'', rest)
  | '"' :: rest => some ('"', rest)
  | '\\' :: rest => some ('\\', rest)
  | 'x' :: a :: b :: rest => (digits? 16 [a, b]).map fun n => (Char.ofNat n, rest)
  | 'u' :: '{' :: rest =>
    let code := rest.takeWhile (· != '}')
    match rest.dropWhile (· != '}') with
    | '}' :: more =>
      if code.isEmpty || 6 < code.length then none
      else ((digits? 16 code).bind charOf?).map fun c => (c, more)
    | _ => none
  | _ => none

/-- The characters of a text up to its closing quote. -/
def quoted : Reader (List Char)
  | [] => none
  | '"' :: rest => some ([], rest)
  | '\\' :: rest =>
    match escape rest with
    | none => none
    | some (c, more) =>
      if more.length < rest.length then
        (quoted more).map fun out => (c :: out.1, out.2)
      else none
  | c :: rest => (quoted rest).map fun out => (c :: out.1, out.2)
termination_by cs => cs.length

/-- The characters before `closing`, which is taken as well. -/
def upTo (closing : List Char) : Reader (List Char)
  | [] => if closing.isEmpty then some ([], []) else none
  | c :: rest =>
    if closing.isPrefixOf (c :: rest) then some ([], (c :: rest).drop closing.length)
    else (upTo closing rest).map fun out => (c :: out.1, out.2)

/-- **A text:** between quotes with escapes, or raw between as many `#` as follow the `r`. -/
def text : Reader String
  | '"' :: rest => (quoted rest).map fun out => (String.ofList out.1, out.2)
  | 'r' :: rest =>
    let hashes := rest.takeWhile (· == '#')
    match rest.drop hashes.length with
    | '"' :: more => (upTo ('"' :: hashes) more).map fun out => (String.ofList out.1, out.2)
    | _ => none
  | _ => none

/-- A character between single quotes. -/
def char : Reader Char
  | '\'' :: '\\' :: rest =>
    match escape rest with
    | some (c, '\'' :: more) => some (c, more)
    | _ => none
  | '\'' :: '\'' :: _ => none
  | '\'' :: c :: '\'' :: rest => some (c, rest)
  | _ => none

/-! ### Numbers -/

/-- A character that can stand in a whole number. -/
def isWholeChar (c : Char) : Bool :=
  (digit? 16 c).isSome || c == '_'

/-- A character that can stand in a fractional number. -/
def isFractionChar (c : Char) : Bool :=
  c.isDigit || c == 'e' || c == 'E' || c == '.' || c == '+' || c == '-' || c == '_'

/-- The base of a whole number, and its digits with what follows. -/
def baseOf : List Char → Nat × List Char
  | '0' :: 'x' :: rest => (16, rest)
  | '0' :: 'o' :: rest => (8, rest)
  | '0' :: 'b' :: rest => (2, rest)
  | cs => (10, cs)

/-- **A whole number without a sign.**  Underscores between the digits do not count. -/
def whole : Reader Nat := fun cs =>
  let digits := (baseOf cs).2.takeWhile isWholeChar
  if digits.isEmpty || digits.head? == some '_' then none
  else
    (digits? (baseOf cs).1 (digits.filter (· != '_'))).map fun n =>
      (n, (baseOf cs).2.drop digits.length)

/-- Decimal digits, at least one. -/
def isDigits (cs : List Char) : Bool :=
  !cs.isEmpty && cs.all Char.isDigit

/-- A number without its sign. -/
def unsigned : List Char → List Char
  | '+' :: rest => rest
  | '-' :: rest => rest
  | cs => cs

/-- The characters write a decimal number: digits with at most one point, and an exponent or
none. -/
def isDecimal (cs : List Char) : Bool :=
  let isExponent := fun c => c == 'e' || c == 'E'
  let mantissa := (unsigned cs).takeWhile fun c => !isExponent c
  let point := mantissa.dropWhile (· != '.')
  isDigits (mantissa.takeWhile (· != '.') ++ point.drop 1) &&
    match (unsigned cs).drop mantissa.length with
    | [] => true
    | _ :: exponent => isDigits (unsigned exponent)

/-- A number with a fraction or an exponent, an infinity, or no number at all. -/
def fraction : Reader Unit := fun cs =>
  match keyword "inf" (unsigned cs) <|> keyword "NaN" (unsigned cs) with
  | some out => some out
  | none =>
    let run := cs.takeWhile isFractionChar
    if isDecimal run then some ((), cs.drop run.length) else none

/-- The largest whole number that fits into 64 bits, which has half the room behind a sign. -/
def largestWhole : List Char → Nat
  | '+' :: _ => UInt64.size / 2 - 1
  | '-' :: _ => UInt64.size / 2
  | _ => UInt64.size - 1

/-- **A number.**  It is read as a fraction if more of it can stand in a fraction than in a whole
number, and as a fraction too where it fails as a whole number or is too large for one. -/
def number : Reader (Option Nat) := fun cs =>
  let bare := unsigned cs
  let other := (fraction cs).map fun out => (none, out.2)
  if (bare.takeWhile isWholeChar).length < (bare.takeWhile isFractionChar).length then other
  else
    match whole bare with
    | some (n, rest) =>
      if n ≤ largestWhole cs then some (if bare.length < cs.length then none else some n, rest)
      else other
    | none => other

/-- **A count:** a whole number of 64 bits without a sign. -/
def count : Reader Nat := fun cs =>
  match whole cs with
  | some (n, rest) => if n < UInt64.size then some (n, rest) else none
  | none => none

end TemplateGrammar.Ron
