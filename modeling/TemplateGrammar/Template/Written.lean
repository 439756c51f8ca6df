import TemplateGrammar.Template.Basic
import TemplateGrammar.Template.Escape

/-!
# Templates as they are written

`Node.written` writes a tree down as a template text: names and texts with every character escaped,
single spaces around the words of blocks, and no parentheses behind a modifier without parameters.
-/

namespace TemplateGrammar

/-- How a comparison is written. -/
def Comparison.symbol : Comparison → String
  | equal => "=="
  | unequal => "!="
  | among => "in"
  | notAmong => "not in"

namespace Node

variable {σ : Type}

/-- A name or a text as it is written. -/
def writtenText (s : String) : List Char :=
  Escape.everywhere s.toList

mutual

/-- **A node as it is written.** -/
def written : Node σ → List Char
  | text s => writtenText s
  | weight n => ':' :: (toString n).toList
  | rule name modifiers => '#' :: (writtenText name ++ writtenChain modifiers ++ ['#'])
  | tag name values => '[' :: (writtenText name ++ ':' :: (writtenValues values ++ [']']))
  | define name values => '{' :: (writtenText name ++ '(' :: (writtenValues values ++ [')', '}']))
  | choice _ values modifiers =>
    '{' :: '(' :: (writtenValues values ++ ')' :: (writtenChain modifiers ++ ['}']))
  | ifBlock condition yes no =>
    "[if ".toList ++ writtenCondition condition ++ " then ".toList ++ writtenList yes ++
      writtenElse no ++ [']']
  | whileBlock condition body =>
    "[while ".toList ++ writtenCondition condition ++ " do ".toList ++ writtenList body ++ [']']

/-- Nodes as they are written, one after another. -/
def writtenList : List (Node σ) → List Char
  | [] => []
  | n :: rest => written n ++ writtenList rest

/-- Values as they are written, with commas between them. -/
def writtenValues : List (List (Node σ)) → List Char
  | [] => []
  | v :: rest => writtenList v ++ writtenMore rest

/-- Further values, each behind a comma. -/
def writtenMore : List (List (Node σ)) → List Char
  | [] => []
  | v :: rest => ',' :: (writtenList v ++ writtenMore rest)

/-- The last part of a block, if there is one. -/
def writtenElse : Option (List (Node σ)) → List Char
  | none => []
  | some nodes => " else ".toList ++ writtenList nodes

/-- A modifier as it is written. -/
def writtenModifier : Modifier σ → List Char
  | ⟨name, []⟩ => '.' :: writtenText name
  | ⟨name, parameters⟩ => '.' :: (writtenText name ++ '(' :: (writtenValues parameters ++ [')']))

/-- A chain of modifiers as it is written. -/
def writtenChain : List (Modifier σ) → List Char
  | [] => []
  | m :: rest => writtenModifier m ++ writtenChain rest

/-- A condition as it is written. -/
def writtenCondition : Condition σ → List Char
  | ⟨left, op, right⟩ => writtenList left ++ ' ' :: (op.symbol.toList ++ ' ' :: writtenList right)

end

section Equations

variable (name s : String) (n : Nat) (site : σ) (nodes yes body : List (Node σ))
  (no : Option (List (Node σ))) (values : List (List (Node σ))) (modifiers : List (Modifier σ))
  (condition : Condition σ)

@[simp]
theorem written_text : written (text s : Node σ) = writtenText s :=
  rfl

@[simp]
theorem written_weight : written (weight n : Node σ) = ':' :: (toString n).toList :=
  rfl

@[simp]
theorem written_rule :
    written (rule name modifiers) = '#' :: (writtenText name ++ writtenChain modifiers ++ ['#']) :=
  rfl

@[simp]
theorem written_tag :
    written (tag name values) = '[' ::
      (writtenText name ++ ':' :: (writtenValues values ++ [']'])) :=
  rfl

@[simp]
theorem written_define :
    written (define name values) = '{' ::
      (writtenText name ++ '(' :: (writtenValues values ++ [')', '}'])) :=
  rfl

@[simp]
theorem written_choice : written (choice site values modifiers) =
    '{' :: '(' :: (writtenValues values ++ ')' :: (writtenChain modifiers ++ ['}'])) :=
  rfl

@[simp]
theorem written_ifBlock : written (ifBlock condition yes no) =
    '[' :: 'i' :: 'f' :: ' ' :: (writtenCondition condition ++ " then ".toList ++ writtenList yes ++
      writtenElse no ++ [']']) :=
  rfl

@[simp]
theorem written_whileBlock : written (whileBlock condition body) =
    '[' :: 'w' :: 'h' :: 'i' :: 'l' :: 'e' :: ' ' :: (writtenCondition condition ++ " do ".toList ++
      writtenList body ++ [']']) :=
  rfl

@[simp]
theorem writtenElse_none : writtenElse (none : Option (List (Node σ))) = [] :=
  rfl

@[simp]
theorem writtenElse_some : writtenElse (some nodes) = " else ".toList ++ writtenList nodes :=
  rfl

end Equations

/-- A template as it is written. -/
def template (nodes : List (Node σ)) : String :=
  String.ofList (writtenList nodes)

end Node

end TemplateGrammar
