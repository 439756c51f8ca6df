import TemplateGrammar.Engine.Basic
import TemplateGrammar.RuleFile.Load
import TemplateGrammar.Text.English

/-!
# Making an engine

A plan says what an engine is to be made of: options, rule files, rules, and whether the standard
modifiers are wanted.  The files are loaded in order, then the rules are registered; a rule that
cannot be registered is left out, but a file that cannot be read ends the making.
-/

namespace TemplateGrammar

/-- What an engine is made of. -/
structure Plan (H : Type) where
  options : Options := {}
  files : List String := []
  rules : List (String × Definition H) := []
  standardModifiers : Bool := false

namespace Engine

variable {H : Type}

/-- Register a rule if that can be done. -/
def offerRule (e : Engine H) (r : String × Definition H) : Engine H :=
  (e.addRule r.1 r.2).2

/-- Register the entries of a rule file. -/
def addEntries (e : Engine H) (entries : List RuleEntry) : Engine H :=
  entries.foldl (fun e entry => e.offerRule (entry.1, .list entry.2)) e

/-- **Load rule files,** in order, up to the first that cannot be read. -/
def loadFiles (files : FileTree) : List String → Engine H → Except FileFault Unit × Engine H
  | [], e => (.ok (), e)
  | path :: rest, e =>
    match RuleFile.load files path with
    | (.error fault, said) => (.error fault, e.sayAll said)
    | (.ok entries, said) => loadFiles files rest ((e.sayAll said).addEntries entries)

/-- The engine with the standard modifiers. -/
def addStandardModifiers (e : Engine H) : Engine H :=
  English.modifiers.foldl (fun e m => e.addMethod .modifier m.1 (.ofText m.2)) e

/-- Say what an inspection of the rules finds. -/
def sayFindings (e : Engine H) : Engine H :=
  e.sayAll (.inspecting :: e.inspect.map .found)

end Engine

namespace Plan

variable {H : Type}

/-- **Make the engine.**  The random stream starts from the seed of the options, or from `entropy`
where they have none. -/
def build (p : Plan H) (files : FileTree) (entropy : UInt64) (host : H) :
    Except FileFault Unit × Engine H :=
  match Engine.loadFiles files p.files
    (.start p.options (.ofSeed (p.options.seed.getD entropy)) host) with
  | (.error fault, e) => (.error fault, e)
  | (.ok _, e) =>
    let e := p.rules.foldl Engine.offerRule e
    let e := if p.standardModifiers then e.addStandardModifiers else e
    (.ok (), if p.options.inspectRules then e.sayFindings else e)

end Plan

end TemplateGrammar
