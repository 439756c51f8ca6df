import TemplateGrammar.Dict
import TemplateGrammar.Ron.Document
import TemplateGrammar.RuleFile.Block

/-!
# Rule files in object notation

A rule file in object notation is a table from names to texts or lists of texts.  Its entries come
in order of name, and of two entries with one name the later counts.
-/

namespace TemplateGrammar.RuleFile

/-- The texts that a rule may be given as. -/
def candidates? : Ron.Value → Option (List String)
  | .text s => some [s]
  | v => v.texts?

/-- A value that gives the texts of a rule. -/
def candidates (bare : Bool) : Ron.Reader (List String) := fun cs => do
  let (v, cs) ← Ron.itemValue bare cs
  return (← candidates? v, cs)

/-- A table from names to the texts of rules. -/
def table (bare : Bool) : Ron.Reader (List RuleEntry) := fun cs => do
  let (_, cs) ← Ron.symbol '{' cs
  Ron.separated '}' (Ron.pair Ron.text (candidates bare)) cs

/-- The entries of a table, in order of name. -/
def ofEntries (entries : List RuleEntry) : List RuleEntry :=
  (entries.foldl (fun (d : Dict (List String)) e => d.insert e.1 e.2) ∅).toList

/-- **Read a rule file in object notation.** -/
def ofRon? (text : String) : Option (List RuleEntry) :=
  (Ron.Document.read table text).map ofEntries

end TemplateGrammar.RuleFile
