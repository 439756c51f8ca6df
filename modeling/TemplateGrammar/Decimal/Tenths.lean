/-!
# Quotients with one decimal place

An average is computed as a binary fraction with 53 significant bits and shown with one place behind
the point.  Both times it is rounded to the nearest, and a tie goes to the even neighbour.  The
fraction is kept as a number of units `2 ^ -scale`.
-/

namespace TemplateGrammar.Decimal

/-- **A quotient rounded to the nearest whole number;** a half goes to the even neighbour. -/
def roundDiv (a b : Nat) : Nat :=
  let q := a / b
  let r := a % b
  if 2 * r < b then q else if b < 2 * r then q + 1 else q + q % 2

/-- How many places behind the binary point give the quotient `a / b` 53 significant bits. -/
def scaleOf (a b : Nat) : Nat :=
  let scale := 52 + b.log2 - a.log2
  if a * Nat.pow 2 scale / b < Nat.pow 2 52 then scale + 1 else scale

/-- The tenths in a quotient, which is rounded to a binary fraction before. -/
def tenths (a b : Nat) : Nat :=
  let scale := scaleOf a b
  roundDiv (10 * roundDiv (a * Nat.pow 2 scale) b) (Nat.pow 2 scale)

/-- **A quotient with one decimal place.** -/
def showTenths (a b : Nat) : String :=
  toString (tenths a b / 10) ++ "." ++ toString (tenths a b % 10)

example : showTenths 17 4 = "4.2" ∧ showTenths 19 4 = "4.8" ∧ showTenths 3 20 = "0.1" ∧
    showTenths 333 3 = "111.0" ∧ showTenths 0 7 = "0.0" := by
  decide +kernel

end TemplateGrammar.Decimal
