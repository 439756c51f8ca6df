import TemplateGrammar.Rules.Finding
import TemplateGrammar.Rules.Graph
import TemplateGrammar.Rules.Mention
import TemplateGrammar.Rules.Table

/-!
# Inspecting a rule table

`RuleTable.inspect` looks for rules that mention themselves, for tags that hide rules, and for
cycles; `RuleTable.unresolved` looks for names that nothing defines.  Neither has any influence on
expansion.

A tag hides a rule for good only where tags are flat, so the caller says whether tags are to be
looked at.
-/

namespace TemplateGrammar.RuleTable

variable {H : Type}

/-- The names of a list. -/
def nameSet (names : List String) : Std.ExtTreeSet String :=
  names.foldl (fun s n => s.insert n) ∅

/-- The names of a list in order, each once. -/
def sortedNames (names : List String) : List String :=
  (nameSet names).toList

/-- The candidates of a name. -/
def candidates (t : RuleTable H) (name : String) : List Candidate :=
  ((t.get? name).map Rule.candidates).getD []

/-- What one candidate of a rule gives occasion to. -/
def inspectCandidate (t : RuleTable H) (flatTags : Bool) (name : String) (c : Candidate) :
    List Finding :=
  (if (Node.references c.nodes).contains name then [.selfReference name c.source] else []) ++
    (if flatTags then
      ((Node.tagsSet c.nodes).filter t.contains).map (.tagOverRule name)
    else [])

/-- The rules that the candidates of a rule mention, in order and each once. -/
def mentioned (t : RuleTable H) (rule : Rule H) : List String :=
  (sortedNames (rule.candidates.flatMap fun c => Node.references c.nodes)).filter t.contains

/-- The graph of the rules: each leads to the rules its candidates mention. -/
def graph (t : RuleTable H) : Graph :=
  t.rules.map fun _ rule => t.mentioned rule

/-- **Inspect a table.**  An empty table is the only finding about it; otherwise the findings on
candidates come in order of rule and candidate, and the cycles come last. -/
def inspect (t : RuleTable H) (flatTags : Bool) : List Finding :=
  if t.names.isEmpty then [.emptyTable]
  else
    (t.names.flatMap fun name => (t.candidates name).flatMap (t.inspectCandidate flatTags name)) ++
      ((t.graph.components.filter fun c => 1 < c.length).map .cycle)

/-- The names that any candidate sets as a tag or defines as a rule. -/
def provided (t : RuleTable H) : Std.ExtTreeSet String :=
  nameSet (t.names.flatMap fun name =>
    (t.candidates name).flatMap fun c => Node.tagsSet c.nodes ++ Node.definitions c.nodes)

/-- **The references that nothing resolves,** in order of rule and name: neither a rule, nor a tag
or a rule of the run that any candidate provides. -/
def unresolved (t : RuleTable H) : List Finding :=
  let provided := t.provided
  t.names.flatMap fun rule =>
    ((sortedNames ((t.candidates rule).flatMap fun c => Node.references c.nodes)).filter fun name =>
      !t.contains name && !provided.contains name).map (.unresolved rule)

end TemplateGrammar.RuleTable
