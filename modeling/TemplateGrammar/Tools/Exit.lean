/-!
# What a tool answers

A tool that runs to its end answers two texts and a code; the code is nought if all went well.
-/

namespace TemplateGrammar

/-- The end of a tool's run. -/
structure Exit where
  code : Nat
  out : String
  err : String
  deriving DecidableEq, Repr

/-- A text as a line. -/
def lineOf (s : String) : String :=
  s ++ "\n"

/-- Texts as lines. -/
def linesOf (texts : List String) : String :=
  String.join (texts.map lineOf)

end TemplateGrammar
