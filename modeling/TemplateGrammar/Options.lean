import TemplateGrammar.Log.Level
import TemplateGrammar.Ron.Document
import TemplateGrammar.Tags.Store

/-!
# Options of an engine

How tags are scoped, whether rules are inspected when an engine is made, the two limits of
expansion, how much is said, and the seed of the random stream.

Options are kept in files in object notation (`Options.ofRon?`, `Options.toRon`).  A field that a
file does not name keeps its default, and a field that there is not is passed over.
-/

namespace TemplateGrammar

/-- The options of an engine. -/
structure Options where
  tagScoping : TagScoping := .flat
  inspectRules : Bool := true
  maxLevel : Nat := 256
  maxFrames : Nat := 4096
  logLevel : LogLevel := .errors
  seed : Option UInt64 := none
  deriving DecidableEq, Repr

/-- How files write the scoping of tags. -/
def TagScoping.word : TagScoping → String
  | flat => "Unilevel"
  | layered => "Hierarchical"

/-- The two ways of scoping. -/
def TagScoping.all : List TagScoping :=
  [flat, layered]

/-- How files write a level. -/
def LogLevel.word : LogLevel → String
  | silent => "None"
  | errors => "Errors"
  | warnings => "Warnings"
  | info => "Info"
  | verbose => "Verbose"

/-- All levels, from nothing to everything. -/
def LogLevel.all : List LogLevel :=
  [silent, errors, warnings, info, verbose]

namespace Options

/-- The name a file may give before the fields. -/
def recordName : String := "EngineOptions"

/-- One of some constants, by its word. -/
def constant {α : Type} (word : α → String) (all : List α) : Ron.Reader α := fun cs => do
  let (name, cs) ← Ron.identifier cs
  return (← all.find? fun a => word a == name.text, cs)

/-- A truth value. -/
def truth : Ron.Reader Bool := fun cs =>
  match Ron.keyword "true" cs with
  | some (_, rest) => some (true, rest)
  | none => (Ron.keyword "false" cs).map fun out => (false, out.2)

/-- A seed, which may be missing.  Its words need no blank behind them, so a bare number may follow
`Some` at once. -/
def seedOrNone (bare : Bool) : Ron.Reader (Option UInt64) := fun cs =>
  match Ron.literal "None" cs with
  | some (_, rest) => some (none, rest)
  | none =>
    match Ron.literal "Some" cs with
    | some (_, rest) =>
      (Ron.optional bare Ron.count rest).map fun out => (some (UInt64.ofNat out.1), out.2)
    | none =>
      if bare then (Ron.count cs).map fun out => (some (UInt64.ofNat out.1), out.2) else none

/-- The fields there are. -/
inductive Field where
  | tagScoping
  | inspectRules
  | maxLevel
  | maxFrames
  | logLevel
  | seed
  deriving DecidableEq, Repr

/-- The field with a name. -/
def Field.ofName? : String → Option Field
  | "tag_storage" => some tagScoping
  | "rule_analysis" => some inspectRules
  | "max_stack_depth" => some maxLevel
  | "max_frames" => some maxFrames
  | "log_level" => some logLevel
  | "seed" => some seed
  | _ => none

/-- What a field holds, as a change of the options. -/
def Field.change (bare : Bool) : Field → Ron.Reader (Options → Options)
  | tagScoping, cs =>
    (constant TagScoping.word TagScoping.all cs).map fun out =>
    (fun o => { o with tagScoping := out.1 }, out.2)
  | inspectRules, cs => (truth cs).map fun out => (fun o => { o with inspectRules := out.1 }, out.2)
  | maxLevel, cs => (Ron.count cs).map fun out => (fun o => { o with maxLevel := out.1 }, out.2)
  | maxFrames, cs => (Ron.count cs).map fun out => (fun o => { o with maxFrames := out.1 }, out.2)
  | logLevel, cs =>
    (constant LogLevel.word LogLevel.all cs).map fun out =>
      (fun o => { o with logLevel := out.1 }, out.2)
  | seed, cs => (seedOrNone bare cs).map fun out => (fun o => { o with seed := out.1 }, out.2)

/-- A field with its name.  What stands behind a name that is none of the options is read and passed
over. -/
def field (bare : Bool) : Ron.Reader (Option Field × (Options → Options)) := fun cs => do
  let (name, cs) ← Ron.fieldName cs
  let (_, cs) ← Ron.symbol ':' cs
  let cs ← Ron.skipBlanks cs
  match Field.ofName? name with
  | some f => (f.change bare cs).map fun out => ((some f, out.1), out.2)
  | none => (Ron.itemValue bare cs).map fun out => ((none, id), out.2)

/-- The record of the options. -/
def record (bare : Bool) : Ron.Reader Options := fun cs => do
  let cs ← match Ron.identifier cs with
    | some (name, rest) => if name.text = recordName then some rest else none
    | none => some cs
  let (_, cs) ← Ron.symbol '(' cs
  let (fields, cs) ← Ron.separated ')' (field bare) cs
  guard (fields.filterMap Prod.fst).Nodup
  return (fields.foldl (fun o f => f.2 o) {}, cs)

/-- **Read options from a file.**  No field may come twice. -/
def ofRon? (text : String) : Option Options :=
  Ron.Document.read record text

/-- How a file writes a seed. -/
def shownSeed : Option UInt64 → String
  | none => "None"
  | some n => "Some(" ++ toString n.toNat ++ ")"

/-- **Write options to a file,** every field, in one line. -/
def toRon (o : Options) : String :=
  "(tag_storage:" ++ o.tagScoping.word ++ ",rule_analysis:" ++
    (if o.inspectRules then "true" else "false") ++
    ",max_stack_depth:" ++ toString o.maxLevel ++ ",max_frames:" ++ toString o.maxFrames ++
    ",log_level:" ++ o.logLevel.word ++ ",seed:" ++ shownSeed o.seed ++ ")"

end Options

end TemplateGrammar
