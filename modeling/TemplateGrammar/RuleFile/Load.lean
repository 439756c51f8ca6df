import TemplateGrammar.Files.Tree
import TemplateGrammar.RuleFile.Block
import TemplateGrammar.RuleFile.Table

/-!
# Loading rule files

A rule file whose name ends in `.ron` is in object notation; any other is in blocks of lines.  A
folder is searched for files whose names end in `.ron` or `.txt`.
-/

namespace TemplateGrammar.RuleFile

/-- A path with one of the extensions of rule files. -/
def isRuleFile (path : String) : Bool :=
  match Path.extension? path with
  | some e => e == "ron" || e == "txt"
  | none => false

/-- The text of a rule file, read in the notation that its path asks for. -/
def ofText (path text : String) : Except FileFault (List RuleEntry) × List Notice :=
  if Path.extension? path = some "ron" then
    match ofRon? text with
    | some entries => (.ok entries, [])
    | none => (.error .malformed, [])
  else (.ok (Block.read text).1, (Block.read text).2)

/-- **Load a rule file:** its entries, and what is said of it. -/
def load (files : FileTree) (path : String) : Except FileFault (List RuleEntry) × List Notice :=
  match files.readText path with
  | .error e => (.error e, [])
  | .ok text => ofText path text

/-- The paths in a folder that have an extension of rule files, in order. -/
def inFolder (files : FileTree) (path : String) : Except FileFault (List String) :=
  (files.list path).map fun names => (names.filter isRuleFile).map (Path.join path)

end TemplateGrammar.RuleFile
