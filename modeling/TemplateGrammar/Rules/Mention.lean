import TemplateGrammar.Template.Basic

/-!
# The names a template mentions

A template mentions names in three ways: it refers to them, it sets them as tags, and it defines
them as rules of the run.  All three are collected from everywhere in the tree: conditions, blocks,
parameters, values of tags and candidates.

The order is that of a walk that takes the last of what is still to be looked at, and puts what a
node holds behind it.
-/

namespace TemplateGrammar

/-- A name, and how it is mentioned. -/
inductive Mention where
  | reference (name : String)
  | tag (name : String)
  | definition (name : String)
  deriving DecidableEq, Repr

namespace Node

variable {σ : Type}

mutual

/-- The mentions in a node, its own first. -/
def mentions : Node σ → List Mention
  | text _ => []
  | weight _ => []
  | rule name modifiers =>
    (if name = "" then [] else [.reference name]) ++ modifierMentions modifiers
  | tag name values => .tag name :: valueMentions values
  | define name values => .definition name :: valueMentions values
  | choice _ values modifiers => modifierMentions modifiers ++ valueMentions values
  | ifBlock condition yes no =>
    optionMentions no ++ listMentions yes ++ conditionMentions condition
  | whileBlock condition body => listMentions body ++ conditionMentions condition

/-- The mentions in a list of nodes, the last node's first. -/
def listMentions : List (Node σ) → List Mention
  | [] => []
  | n :: rest => listMentions rest ++ mentions n

/-- The mentions in a list of values, the last value's first. -/
def valueMentions : List (List (Node σ)) → List Mention
  | [] => []
  | v :: rest => valueMentions rest ++ listMentions v

/-- The mentions in a block that may be missing. -/
def optionMentions : Option (List (Node σ)) → List Mention
  | none => []
  | some nodes => listMentions nodes

/-- The mentions in the parameters of a modifier. -/
def parameterMentions : Modifier σ → List Mention
  | ⟨_, parameters⟩ => valueMentions parameters

/-- The mentions in a chain of modifiers, the last modifier's first. -/
def modifierMentions : List (Modifier σ) → List Mention
  | [] => []
  | m :: rest => modifierMentions rest ++ parameterMentions m

/-- The mentions in a condition, the right side's first. -/
def conditionMentions : Condition σ → List Mention
  | ⟨left, _, right⟩ => listMentions right ++ listMentions left

end

/-- The names a list of nodes refers to. -/
def references (nodes : List (Node σ)) : List String :=
  (listMentions nodes).filterMap fun
    | .reference name => some name
    | _ => none

/-- The names a list of nodes sets as tags. -/
def tagsSet (nodes : List (Node σ)) : List String :=
  (listMentions nodes).filterMap fun
    | .tag name => some name
    | _ => none

/-- The names a list of nodes defines as rules of the run. -/
def definitions (nodes : List (Node σ)) : List String :=
  (listMentions nodes).filterMap fun
    | .definition name => some name
    | _ => none

end Node

end TemplateGrammar
