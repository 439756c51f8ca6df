import TemplateGrammar.Engine.Plan
import TemplateGrammar.Text.JsonText

/-!
# The playground

The engine behind a page on which one can try out grammars.  It is made of a rule file in object
notation, it is silent, and it answers questions about its rules with texts in JSON.  It opens with
a fable.
-/

namespace TemplateGrammar.Playground

/-- **The fable,** the grammar the playground opens with. -/
def fable : List RuleEntry :=
  [("animal", ["fox", "owl", "hare", "badger", "otter", "crow"]),
    ("ending",
      ["[if #hero#==#rival# then The two #hero.s# shared it and became friends. " ++
        "else In the end the #hero# #outcome#.]"]),
    ("middle",
      ["One morning the #hero# found #gift.a#, but #rival.a# wanted it too.",
        "The #rival# challenged the #hero# for #gift.a#."]),
    ("opening",
      ["Once, in a #place#, there lived #hero.a# who was #trait#.",
        "Long ago #hero.a# made a home in a #place#."]),
    ("origin",
      ["[hero:#animal#][rival:#animal#][gift:#treasure#]#opening# #middle# #ending#"]),
    ("outcome",
      ["kept the #gift# and grew wise:3", "lost the #gift# and learned patience:2",
        "gave the #gift# away:1"]),
    ("place", ["quiet wood", "reed marsh", "hollow oak", "windy hill"]),
    ("trait", ["clever", "proud", "patient", "curious"]),
    ("treasure", ["acorn", "golden key", "shiny button", "honeycomb"])]

/-- The engine of a playground. -/
def make (rules : List RuleEntry) (seed : UInt64) (scoping : TagScoping) : Engine Unit :=
  let options : Options :=
    { tagScoping := scoping, inspectRules := false, logLevel := .silent, seed := some seed }
  let plan : Plan Unit := ⟨options, [], rules.map fun e => (e.1, .list e.2), true⟩
  (plan.build .empty 0 ()).2

/-- **Open a playground** on a rule file in object notation. -/
def ofRon? (text : String) (seed : UInt64) (scoping : TagScoping) : Option (Engine Unit) :=
  (RuleFile.ofRon? text).map fun rules => make rules seed scoping

/-- Open a playground on the fable. -/
def ofFable (seed : UInt64) : Engine Unit :=
  make fable seed .flat

/-- Why a rule cannot be added. -/
inductive RuleFault where
  | notTexts
  | refused (e : TableError)

/-- Add a rule whose candidates are a text or an array of texts in JSON. -/
def addRule (e : Engine Unit) (name candidates : String) : Except RuleFault (Engine Unit) :=
  match JsonText.read? candidates with
  | none => .error .notTexts
  | some texts =>
    match e.addRule name (.list texts) with
    | (.ok _, e) => .ok e
    | (.error cause, _) => .error (.refused cause)

/-- The names of the rules. -/
def ruleNames (e : Engine Unit) : String :=
  JsonText.array (e.rules.names.map JsonText.quote)

/-- The rules and how many candidates they have. -/
def rules (e : Engine Unit) : String :=
  JsonText.array (e.rules.names.map fun name =>
    JsonText.object
      [("name", JsonText.quote name), ("candidates", toString (e.rules.candidates name).length)])

/-- The findings about the rules. -/
def findings (e : Engine Unit) : String :=
  JsonText.array (e.inspect.map fun f => JsonText.quote f.message)

end TemplateGrammar.Playground
