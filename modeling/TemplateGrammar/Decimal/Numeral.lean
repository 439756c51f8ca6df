/-!
# Decimal numerals

Whole numbers of 64 bits as they are typed: decimal digits, with a plus sign in front or not.
-/

namespace TemplateGrammar.Numeral

/-- The digits of a numeral. -/
def digits : List Char → List Char
  | '+' :: rest => rest
  | cs => cs

/-- The number that decimal digits write. -/
def value (cs : List Char) : Nat :=
  cs.foldl (fun n c => n * 10 + (c.toNat - '0'.toNat)) 0

/-- **Read a numeral.**  One that stands for no number of 64 bits is refused. -/
def read? (s : String) : Option Nat :=
  let ds := digits s.toList
  if ds.isEmpty || !ds.all Char.isDigit || UInt64.size ≤ value ds then none else some (value ds)

end TemplateGrammar.Numeral
