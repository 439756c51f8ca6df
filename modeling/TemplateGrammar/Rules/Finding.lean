/-!
# Findings

What an inspection of a rule table can find, and how a finding is worded.
-/

namespace TemplateGrammar

/-- A doubtful thing about a rule table. -/
inductive Finding where
  /-- there are no rules at all -/
  | emptyTable
  /-- a candidate of the rule mentions the rule -/
  | selfReference (rule candidate : String)
  /-- rules that reach one another, in order of name -/
  | cycle (rules : List String)
  /-- a candidate of the rule sets a tag that has the name of a rule -/
  | tagOverRule (rule tag : String)
  /-- a candidate of the rule mentions a name that nothing defines -/
  | unresolved (rule name : String)
  deriving DecidableEq, Repr

/-- The wording of a finding. -/
def Finding.message : Finding → String
  | emptyTable => "no expandable rules were found"
  | selfReference rule candidate => "rule '" ++ rule ++ "' references itself: " ++ candidate
  | cycle rules => "cyclic rule references: " ++ " -> ".intercalate rules
  | tagOverRule rule tag =>
    "rule '" ++ rule ++ "' creates tag '" ++ tag ++ "', which overrides the rule of the same name"
  | unresolved rule name => "rule '" ++ rule ++ "' references '" ++ name ++
    "', which is never defined"

end TemplateGrammar
