import TemplateGrammar.Dict
import TemplateGrammar.Log.Notice
import TemplateGrammar.Rules.Definition
import TemplateGrammar.Template.Parser
import TemplateGrammar.Template.Sites

/-!
# Rule tables

A rule is a list of candidates, each with the text it came from, and a selector.  A table holds
rules by name.  Registering a rule parses its candidates; those that are no templates are dropped,
and a rule that keeps none is not registered.

A name must be such that a reference can mention it: read as a template text it must be a single
plain token that stands for exactly that name.

Every registration of a name is an edition of its own, and the bags of its choices are named after
it, so a rule that is defined anew starts with fresh bags while whoever still holds parts of the old
one keeps the old bags.
-/

namespace TemplateGrammar

/-- Why a rule table refuses. -/
inductive TableError where
  | invalidName (name : String)
  | noCandidates (name : String)
  | ruleNotFound (name : String)
  deriving DecidableEq, Repr

/-- The wording of a refusal. -/
def TableError.message : TableError → String
  | invalidName name => "invalid rule name '" ++ name ++ "': names must be plain text"
  | noCandidates name => "rule '" ++ name ++ "' has no valid candidates"
  | ruleNotFound name => "rule not found: " ++ name

/-- **A name is valid** if it reads as one token, a text or a number, that stands for the name
itself. -/
def isValidName (name : String) : Bool :=
  match tokenize name with
  | [.text s] => s == name
  | [.number n] => toString n == name
  | _ => false

/-- One alternative of a rule, and the text it came from. -/
structure Candidate where
  source : String
  nodes : List (Node BagId)

/-- The candidates of a rule and how one of them is chosen. -/
structure Rule (H : Type) where
  candidates : List Candidate
  selector : Selector H

/-- **Choose a candidate.**  There is none where the selector picks outside the list. -/
def Rule.select {H : Type} (rule : Rule H) (c : Chance H) : Option Candidate × Chance H :=
  match rule.selector.pick rule.candidates.length c with
  | (i, c) => (rule.candidates[i]?, c)

/-- The rules by name, and how often each name has been registered. -/
structure RuleTable (H : Type) where
  rules : Dict (Rule H)
  editions : Dict Nat

namespace RuleTable

variable {H : Type}

/-- A table without rules. -/
def empty : RuleTable H := ⟨∅, ∅⟩

/-- The rule of a name. -/
def get? (t : RuleTable H) (name : String) : Option (Rule H) :=
  t.rules[name]?

/-- The names of the rules, in order. -/
def names (t : RuleTable H) : List String :=
  t.rules.keys

/-- The number of rules. -/
def size (t : RuleTable H) : Nat :=
  t.rules.size

/-- The table has the rule. -/
def contains (t : RuleTable H) (name : String) : Bool :=
  t.rules.contains name

/-- A parsed candidate; a candidate with nothing in it is an empty text. -/
def readCandidate (source : String) : Except ParseFailure (List (Node Unit)) :=
  (parseText source).map fun nodes => if nodes.isEmpty then [.text ""] else nodes

/-- The texts that are templates, with their trees. -/
def readable (sources : List String) : List (String × List (Node Unit)) :=
  sources.filterMap fun s =>
    match readCandidate s with
    | .ok nodes => some (s, nodes)
    | .error _ => none

/-- What is said of the texts that are not. -/
def complaints (name : String) (sources : List String) : List Notice :=
  sources.filterMap fun s =>
    match readCandidate s with
    | .ok _ => none
    | .error f => some (.candidateDropped name f)

/-- The rule made of parsed candidates, with bags named after its edition. -/
def build (name : String) (edition : Nat) (parsed : List (String × List (Node Unit)))
    (selector? : Option (Selector H)) : Rule H :=
  let values := (Node.placeValues (BagId.inRule name edition) 0 (parsed.map Prod.snd)).1
  { candidates := List.zipWith Candidate.mk (parsed.map Prod.fst) values
    selector := selector?.getD (.default values (.ofRule name edition)) }

/-- What a registration answers: whether it was done, the table after it, and what was said. -/
structure Registration (H : Type) where
  result : Except TableError Unit
  table : RuleTable H
  notices : List Notice

/-- **Register a rule.** -/
def add (t : RuleTable H) (name : String) (d : Definition H) : Registration H :=
  if isValidName name then
    let parsed := readable d.candidates
    let said := complaints name d.candidates
    if parsed.isEmpty then
      ⟨.error (.noCandidates name), t, said ++ [.noCandidates name]⟩
    else
      let edition := t.editions[name]?.getD 0
      let rule := build name edition parsed d.selector?
      let redefined := if t.contains name then [Notice.ruleRedefined name] else []
      ⟨.ok (), ⟨t.rules.insert name rule, t.editions.insert name (edition + 1)⟩,
        said ++ redefined ++ [.ruleAdded name rule.candidates.length]⟩
  else
    ⟨.error (.invalidName name), t, [.nameNotPlain name]⟩

/-- Remove a rule. -/
def remove (t : RuleTable H) (name : String) : RuleTable H :=
  { t with rules := t.rules.erase name }

/-- Replace the selector of a rule. -/
def setSelector (t : RuleTable H) (name : String) (s : Selector H) :
    Except TableError (RuleTable H) :=
  match t.get? name with
  | some rule => .ok { t with rules := t.rules.insert name { rule with selector := s } }
  | none => .error (.ruleNotFound name)

end RuleTable

end TemplateGrammar
