import TemplateGrammar.Expansion.Run
import TemplateGrammar.Options
import TemplateGrammar.Rules.Inspection

/-!
# Engines

An engine is what a host holds: rules, objects and methods, the options, and a machine on which
templates are expanded.  The machine stays from one call to the next, because the bags and the
random stream do; the tags and the rules of the run stay only if the caller keeps them.

Every operation answers the engine after it.  What was done is in the journal until the host takes
it.
-/

namespace TemplateGrammar

/-- Why a template has no expansion. -/
inductive EngineError where
  | parse (failure : ParseFailure)
  | expansion (e : ExpansionError)
  deriving DecidableEq, Repr

/-- The wording of an error. -/
def EngineError.message : EngineError → String
  | parse failure => "parse error: " ++ failure.rendered
  | expansion e => e.message

namespace Method

variable {H : Type}

/-- A method that looks at the text only. -/
def ofText (f : String → String) : Method H :=
  fun text _ host => (f text, host)

/-- A method that changes what the host remembers and leaves the text alone. -/
def ofCall (f : H → H) : Method H :=
  fun text _ host => (text, f host)

end Method

/-- Rules, objects, methods and the machine they are used on. -/
structure Engine (H : Type) where
  options : Options
  rules : RuleTable H
  objects : Dict String
  methods : Dict (Method H)
  machine : Machine H

namespace World

variable {H : Type}

/-- A world in which nothing has happened. -/
def start (scoping : TagScoping) (random : Random) (host : H) : World H :=
  ⟨.empty scoping, ∅, ⟨.empty, random, host⟩, []⟩

/-- **A clean slate:** no tags, no rules of the run, and no bags of the run, which nothing refers to
any more. -/
def forget (w : World H) : World H :=
  { w with
    tags := w.tags.clear
    runtime := ∅
    chance := { w.chance with bags := w.chance.bags.settle } }

/-- Take up a parsed template: its inline choices get bags of their own. -/
def takeUp (w : World H) (nodes : List (Node Unit)) : List (Node BagId) × World H :=
  let placed := Node.placeList BagId.fresh w.chance.bags.next nodes
  (placed.1, { w with chance := { w.chance with bags := { w.chance.bags with next := placed.2 } } })

end World

namespace Engine

variable {H : Type}

/-- An engine without rules. -/
def start (options : Options) (random : Random) (host : H) : Engine H :=
  ⟨options, .empty, ∅, ∅, ⟨.start options.tagScoping random host, .empty, 0⟩⟩

/-- What an expansion on this engine is given. -/
def setting (e : Engine H) : Setting H :=
  ⟨e.rules.rules, e.objects, e.methods, e.options.maxLevel, e.options.maxFrames⟩

/-- Change the world. -/
def onWorld (e : Engine H) (f : World H → World H) : Engine H :=
  { e with machine := { e.machine with world := f e.machine.world } }

/-- Give notices, the earliest first. -/
def sayAll (e : Engine H) (ns : List Notice) : Engine H :=
  e.onWorld fun w => w.sayAll ns

/-- The notices since they were last taken, and the engine with an empty journal. -/
def takeNotices (e : Engine H) : List Notice × Engine H :=
  (Journal.notices e.machine.world.journal, e.onWorld fun w => { w with journal := [] })

/-! ### Expansion -/

/-- Expand a parsed template. -/
def run (e : Engine H) (text : String) (nodes : List (Node Unit)) :
    Except EngineError String × Engine H :=
  match e.machine.world.takeUp nodes with
  | (placed, w) =>
    match Machine.expand e.setting placed { e.machine with world := w } with
    | (.ok out, m) => (.ok out, { e with machine := m.say (.output text out) })
    | (.error cause, m) => (.error (.expansion cause), { e with machine := m })

/-- **Expand a template.**  Unless `keep` says so, tags and rules of earlier calls are forgotten
first, even if the text is no template. -/
def tryExpand (e : Engine H) (text : String) (keep : Bool) : Except EngineError String × Engine H :=
  let e := (if keep then e else e.onWorld World.forget).sayAll [.input text]
  match parseText text with
  | .error failure => (.error (.parse failure), e)
  | .ok nodes => e.run text nodes

/-- A result as a text; an error is told in it. -/
def shown : Except EngineError String → String
  | .ok out => out
  | .error cause => "error: " ++ cause.message

/-- Expand a template to a text, whatever happens. -/
def expand (e : Engine H) (text : String) (keep : Bool) : String × Engine H :=
  match e.tryExpand text keep with
  | (result, e) => (shown result, e)

/-- Expand a template several times. -/
def expandTimes (text : String) (keep : Bool) : Nat → Engine H → List String × Engine H
  | 0, e => ([], e)
  | n + 1, e =>
    match e.expand text keep with
    | (out, e) =>
      match expandTimes text keep n e with
      | (outs, e) => (out :: outs, e)

/-! ### Rules -/

/-- Register a rule. -/
def addRule (e : Engine H) (name : String) (d : Definition H) : Except TableError Unit × Engine H :=
  let r := e.rules.add name d
  (r.result, { e with rules := r.table }.sayAll r.notices)

/-- Remove a rule, and say whether there was one. -/
def removeRule (e : Engine H) (name : String) : Bool × Engine H :=
  (e.rules.contains name, { e with rules := e.rules.remove name })

/-- Replace the selector of a rule. -/
def setSelector (e : Engine H) (name : String) (s : Selector H) :
    Except TableError Unit × Engine H :=
  match e.rules.setSelector name s with
  | .ok rules => (.ok (), { e with rules })
  | .error cause => (.error cause, e.sayAll [.selectorWithoutRule name])

/-- Inspect the rules.  Tags can hide rules for good only where they are flat. -/
def inspect (e : Engine H) : List Finding :=
  e.rules.inspect (e.options.tagScoping == .flat)

/-! ### Methods and objects -/

/-- Attach a method to a name. -/
def addMethod (e : Engine H) (kind : MethodKind) (name : String) (m : Method H) : Engine H :=
  let said := if e.methods.contains name then [Notice.methodReplaced kind name] else []
  { e with methods := e.methods.insert name m }.sayAll said

/-- Put a value under a name. -/
def addObject (e : Engine H) (name value : String) : Engine H :=
  { e with objects := e.objects.insert name value }

/-- Remove an object, and say whether there was one. -/
def removeObject (e : Engine H) (name : String) : Bool × Engine H :=
  (e.objects.contains name, { e with objects := e.objects.erase name })

end Engine

end TemplateGrammar
