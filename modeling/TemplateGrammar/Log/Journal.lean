import TemplateGrammar.Log.Notice

/-!
# The journal

The journal holds what an engine did, in order: the notices it gave, every pick with who asked for
it, every method it called, and every tag and rule it wrote.  Nothing that runs reads it, so what is
heard of it has no influence on results.
-/

namespace TemplateGrammar

/-- Who asks for a pick. -/
inductive Chooser where
  | tag (name : String)
  | rule (name : String)
  | runtimeRule (name : String)
  | inline
  deriving DecidableEq, Repr

/-- One thing that was done. -/
inductive Entry where
  | notice (n : Notice)
  | pick (chooser : Chooser) (count index : Nat)
  | call (name text : String) (arguments : List String)
  | setTag (level : Nat) (name : String) (values : List String)
  | define (name : String) (count : Nat)
  deriving DecidableEq, Repr

/-- What was done, the latest first. -/
abbrev Journal := List Entry

namespace Journal

/-- Note a notice. -/
def say (j : Journal) (n : Notice) : Journal :=
  .notice n :: j

/-- The notices of a journal, the earliest first. -/
def notices (j : Journal) : List Notice :=
  j.reverse.filterMap fun
    | .notice n => some n
    | _ => none

/-- The indices picked for one who asked, the earliest first. -/
def picksOf (j : Journal) (chooser : Chooser) : List Nat :=
  j.reverse.filterMap fun
    | .pick who _ index => if who = chooser then some index else none
    | _ => none

end Journal

end TemplateGrammar
