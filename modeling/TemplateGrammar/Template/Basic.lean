/-!
# Templates as trees

What the parser makes of a token list: a list of nodes.  A node is literal text, a reference to a
rule, a tag that is set, a rule that is defined on the run, a choice written in place, a weight, or
a block.

The type has one parameter, what an inline choice carries.  As it is parsed it carries nothing
(`Node Unit`); once the text has been taken up by a rule table or by a run, it carries the bag its
picks are drawn from (`Node BagId`), and all copies of the node share that bag.  `Node.map` changes
what is carried and nothing else.
-/

namespace TemplateGrammar

/-- How the two sides of a condition are compared. -/
inductive Comparison where
  | equal
  | unequal
  | among
  | notAmong
  deriving DecidableEq, Repr

mutual

/-- A node of a template. -/
inductive Node (σ : Type) where
  /-- literal output -/
  | text (s : String)
  /-- `:n` at the end of a candidate -/
  | weight (n : Nat)
  /-- `#name.modifier#` -/
  | rule (name : String) (modifiers : List (Modifier σ))
  /-- `[name:a,b]` -/
  | tag (name : String) (values : List (List (Node σ)))
  /-- `{name(a,b)}`, a rule known to the running expansion only -/
  | define (name : String) (values : List (List (Node σ)))
  /-- `{(a,b).modifier}`, a choice in place -/
  | choice (site : σ) (values : List (List (Node σ))) (modifiers : List (Modifier σ))
  /-- `[if c then a else b]` -/
  | ifBlock (condition : Condition σ) (yes : List (Node σ)) (no : Option (List (Node σ)))
  /-- `[while c do a]` -/
  | whileBlock (condition : Condition σ) (body : List (Node σ))

/-- A call `.name(a,b)` behind a reference. -/
structure Modifier (σ : Type) where
  name : String
  parameters : List (List (Node σ))

/-- The condition of a block. -/
structure Condition (σ : Type) where
  left : List (Node σ)
  op : Comparison
  right : List (Node σ)

end

/-- What is alternative to what: a candidate of a rule, a value of a tag, a parameter of a
modifier. -/
abbrev Value (σ : Type) := List (Node σ)

namespace Node

variable {σ τ : Type}

mutual

/-- Change what the inline choices carry. -/
def map (f : σ → τ) : Node σ → Node τ
  | text s => text s
  | weight n => weight n
  | rule name modifiers => rule name (mapModifiers f modifiers)
  | tag name values => tag name (mapValues f values)
  | define name values => define name (mapValues f values)
  | choice site values modifiers => choice (f site) (mapValues f values) (mapModifiers f modifiers)
  | ifBlock condition yes no => ifBlock (mapCondition f condition) (mapList f yes) (mapOption f no)
  | whileBlock condition body => whileBlock (mapCondition f condition) (mapList f body)

/-- `map` on a list of nodes. -/
def mapList (f : σ → τ) : List (Node σ) → List (Node τ)
  | [] => []
  | n :: rest => map f n :: mapList f rest

/-- `map` on a list of values. -/
def mapValues (f : σ → τ) : List (List (Node σ)) → List (List (Node τ))
  | [] => []
  | v :: rest => mapList f v :: mapValues f rest

/-- `map` on a block that may be missing. -/
def mapOption (f : σ → τ) : Option (List (Node σ)) → Option (List (Node τ))
  | none => none
  | some nodes => some (mapList f nodes)

/-- `map` on a modifier. -/
def mapModifier (f : σ → τ) : Modifier σ → Modifier τ
  | ⟨name, parameters⟩ => ⟨name, mapValues f parameters⟩

/-- `map` on a chain of modifiers. -/
def mapModifiers (f : σ → τ) : List (Modifier σ) → List (Modifier τ)
  | [] => []
  | m :: rest => mapModifier f m :: mapModifiers f rest

/-- `map` on a condition. -/
def mapCondition (f : σ → τ) : Condition σ → Condition τ
  | ⟨left, op, right⟩ => ⟨mapList f left, op, mapList f right⟩

end

/-- The tree as it was written, whatever its inline choices carry. -/
def erase (n : Node σ) : Node Unit :=
  n.map fun _ => ()

/-- A reference without modifiers. -/
def ref (name : String) : Node σ :=
  rule name []

theorem mapList_eq_map (f : σ → τ) (nodes : List (Node σ)) :
    mapList f nodes = nodes.map (map f) := by
  induction nodes with
  | nil => rfl
  | cons n rest ih => rw [mapList, ih, List.map_cons]

end Node

namespace Value

variable {σ : Type}

/-- A value carries a weight if its last node is one. -/
def hasWeight (v : Value σ) : Bool :=
  match v.getLast? with
  | some (.weight _) => true
  | _ => false

/-- The weight of a value: that of its last node, or one. -/
def weight (v : Value σ) : Nat :=
  match v.getLast? with
  | some (.weight n) => n
  | _ => 1

end Value

end TemplateGrammar
