import TemplateGrammar.RuleFile.Load
import TemplateGrammar.Rules.Inspection
import TemplateGrammar.Tools.Exit

/-!
# The linter

The linter reads rule files and reports what is wrong with them: files that cannot be read, names
and candidates that cannot be registered, rules that expand to nothing, and what an inspection of
all rules together finds.

A complaint is an error or a warning (`Complaint.isError`).  Findings of the inspection are warnings
unless the linter is strict; a rule that expands to nothing is a warning always.  The run fails if
there is an error.
-/

namespace TemplateGrammar.Lint

/-- Something that is wrong with some rule files. -/
inductive Complaint where
  | unreadableFile (path : String) (fault : FileFault)
  | invalidName (path name : String)
  | noCandidates (path rule : String)
  | brokenCandidate (path rule : String) (failure : ParseFailure)
  | alwaysEmpty (path rule : String)
  | finding (f : Finding)
  deriving DecidableEq, Repr

namespace Complaint

/-- The wording of a complaint. -/
def message : Complaint → String
  | unreadableFile path fault => path ++ ": " ++ fault.message
  | invalidName path name => path ++ ": invalid rule name '" ++ name ++ "'"
  | noCandidates path rule => path ++ ": rule '" ++ rule ++ "' has no candidates"
  | brokenCandidate path rule failure =>
    path ++ ": rule '" ++ rule ++ "' candidate does not parse: " ++ failure.rendered
  | alwaysEmpty path rule => path ++ ": rule '" ++ rule ++ "' always expands to nothing"
  | finding f => f.message

/-- **What counts as an error.** -/
def isError (strict : Bool) : Complaint → Bool
  | alwaysEmpty .. => false
  | finding _ => strict
  | _ => true

end Complaint

/-! ### Entries -/

/-- The candidates that are no templates. -/
def brokenCandidates (path rule : String) (candidates : List String) : List Complaint :=
  candidates.filterMap fun c =>
    match parseText c with
    | .ok _ => none
    | .error failure => some (.brokenCandidate path rule failure)

/-- **The complaints about one entry.**  Of a rule with an invalid name nothing else is said. -/
def inspectEntry (path : String) (entry : RuleEntry) : List Complaint :=
  if isValidName entry.1 then
    (if entry.2.isEmpty then [.noCandidates path entry.1] else []) ++
      brokenCandidates path entry.1 entry.2 ++
      (if entry.2 = [""] then [.alwaysEmpty path entry.1] else [])
  else [.invalidName path entry.1]

/-- A table with the entries that can be registered. -/
def register {H : Type} (t : RuleTable H) (entries : List RuleEntry) : RuleTable H :=
  entries.foldl (fun t entry => (t.add entry.1 (.list entry.2)).table) t

/-! ### Files -/

mutual

/-- The rule files in a folder: those right inside it, then those of the folders in it.  A folder
whose path is too long to be followed is passed over. -/
def filesIn (path : String) : FileTree → List String
  | .file _ => []
  | .folder entries =>
    if Path.fits path then
      ((entries.map Prod.fst).filter RuleFile.isRuleFile).map (Path.join path) ++
        filesBelow path entries
    else []

/-- The rule files in the folders among some entries. -/
def filesBelow (path : String) : List (String × FileTree) → List String
  | [] => []
  | e :: rest => filesBeneath path e ++ filesBelow path rest

/-- The rule files in an entry that is a folder. -/
def filesBeneath (path : String) : String × FileTree → List String
  | (name, t) => if FileTree.isInside name then filesIn (Path.join path name) t else []

end

/-- The rule files a path stands for. -/
def filesAt (files : FileTree) (path : String) : Option (List String) :=
  match files.find path with
  | .error _ => none
  | .ok (.file _) => some [path]
  | .ok (.folder entries) => some (filesIn path (.folder entries))

/-- What has been read of some rule files. -/
structure Survey where
  loaded : List String
  complaints : List Complaint
  table : RuleTable Unit

/-- Nothing has been read. -/
def Survey.start : Survey := ⟨[], [], .empty⟩

/-- Read one more file. -/
def Survey.read (files : FileTree) (s : Survey) (path : String) : Survey :=
  match (RuleFile.load files path).1 with
  | .error fault => { s with complaints := s.complaints ++ [.unreadableFile path fault] }
  | .ok entries =>
    { loaded := s.loaded ++ [path]
      complaints := s.complaints ++ entries.flatMap (inspectEntry path)
      table := register s.table entries }

/-- **Read some files, and inspect their rules together.** -/
def survey (files : FileTree) (paths : List String) : Survey :=
  let s := paths.foldl (Survey.read files) .start
  { s with complaints := s.complaints ++ (s.table.inspect true ++ s.table.unresolved).map .finding }

/-! ### The report -/

/-- The errors in a survey. -/
def errors (strict : Bool) (s : Survey) : List Complaint :=
  s.complaints.filter (Complaint.isError strict)

/-- The warnings in a survey. -/
def warnings (strict : Bool) (s : Survey) : List Complaint :=
  s.complaints.filter fun c => !c.isError strict

/-- The report on a survey of so many files. -/
def report (strict : Bool) (count : Nat) (s : Survey) : String :=
  linesOf (s.loaded.map fun path => "  Loaded: " ++ path) ++
    lineOf ("Loaded " ++ toString s.table.size ++ " rules from " ++ toString count ++ " file(s)") ++
    "\n=== Grammar Lint Report ===\n\n" ++
    (if s.complaints.isEmpty then "All checks passed!\n" else "") ++
    linesOf ((warnings strict s).map fun c => "WARNING: " ++ c.message) ++
    linesOf ((errors strict s).map fun c => "ERROR: " ++ c.message) ++
    "\nSummary: " ++ toString (errors strict s).length ++ " errors, " ++
    lineOf (toString (warnings strict s).length ++ " warnings")

/-- How the linter is called. -/
def usage : String := "Usage: grammar_linter <rules_path> [--strict]\n"

/-- **Run the linter.** -/
def run (files : FileTree) : List String → Exit
  | [] => ⟨0, usage, ""⟩
  | path :: flags =>
    if path = "--help" ∨ path = "-h" then ⟨0, usage, ""⟩
    else
      match filesAt files path with
      | none => ⟨1, "", lineOf ("ERROR: Path '" ++ path ++ "' does not exist")⟩
      | some paths =>
        let strict := flags.contains "--strict"
        let s := survey files paths
        ⟨if (errors strict s).isEmpty then 0 else 1, report strict paths.length s, ""⟩

end TemplateGrammar.Lint
