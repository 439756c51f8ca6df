import TemplateGrammar.Choice.Selector
import TemplateGrammar.Text.Quoted

/-!
# Rule definitions

What a host gives to define a rule: a single text, a list of texts, or a provider, which may bring a
selector along with its texts.
-/

namespace TemplateGrammar

/-- A definition of a rule. -/
inductive Definition (H : Type) where
  | text (s : String)
  | list (texts : List String)
  | provider (texts : List String) (selector : Option (Selector H))

namespace Definition

variable {H : Type}

/-- The texts of a definition, one a candidate. -/
def candidates : Definition H → List String
  | text s => [s]
  | list texts => texts
  | provider texts _ => texts

/-- The selector a definition brings along. -/
def selector? : Definition H → Option (Selector H)
  | provider _ s => s
  | _ => none

/-- **Texts with weights beside them.**  They are chosen by those weights, in the order given. -/
def weighted (entries : List (String × Nat)) : Definition H :=
  provider (entries.map Prod.fst) (some (.weighted (entries.map Prod.snd)))

/-- A definition as messages show it. -/
def shown : Definition H → String
  | text s => "Text(" ++ Quoted.text s ++ ")"
  | list texts => "List(" ++ Quoted.list texts ++ ")"
  | provider texts _ => "Provider(" ++ Quoted.list texts ++ ")"

end Definition

end TemplateGrammar
