/-!
# Sets of characters

A set of characters is written down by the code points at which membership changes: a character is
in the set when an odd number of them lie at or below it.  The Unicode properties that the text
functions need are given in this form, one table a property, in the state of version 17.0 of the
standard.
-/

namespace TemplateGrammar

/-- A set of characters, by the code points at which membership changes. -/
structure CharSet where
  changes : List Nat

/-- Membership. -/
def CharSet.contains (s : CharSet) (c : Char) : Bool :=
  (s.changes.takeWhile fun n => n ≤ c.toNat).length % 2 == 1

end TemplateGrammar
