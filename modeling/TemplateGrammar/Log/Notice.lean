import TemplateGrammar.Log.Level
import TemplateGrammar.Rules.Finding
import TemplateGrammar.Template.Fault
import TemplateGrammar.Text.Quoted

/-!
# Notices

Everything the library has to say while it works.  A notice names what happened; its wording and its
severity are functions of it.
-/

namespace TemplateGrammar

/-- What a host can attach to a name for use behind a dot. -/
inductive MethodKind where
  | modifier
  | method
  | call
  deriving DecidableEq, Repr

/-- How a kind of method is called in messages. -/
def MethodKind.word : MethodKind → String
  | modifier => "modifier"
  | method => "method"
  | call => "call"

/-- Why a reference is left as it was written. -/
inductive Obstacle where
  | noTagValue
  | noCandidate
  | notDefined
  deriving DecidableEq, Repr

/-- The wording of an obstacle. -/
def Obstacle.message : Obstacle → String
  | noTagValue => "tag selector picked no value"
  | noCandidate => "no candidates found"
  | notDefined => "not defined"

/-- Something the library says. -/
inductive Notice where
  | frameLimit
  | levelLimit (level : Nat)
  | nameNotPlain (name : String)
  | candidateDropped (rule : String) (failure : ParseFailure)
  | noCandidates (rule : String)
  | ruleRedefined (rule : String)
  | ruleAdded (rule : String) (count : Nat)
  | selectorWithoutRule (rule : String)
  | methodReplaced (kind : MethodKind) (name : String)
  | inspecting
  | found (finding : Finding)
  | nameRepeated (rule : String)
  | input (text : String)
  | output (text result : String)
  | tagReplaced (tag : String)
  | tagSet (tag : String) (values : List String)
  | tagRead (tag value : String)
  | leftAsWritten (name : String) (obstacle : Obstacle)
  | choiceMissed
  | runtimeRuleReplaced (rule : String)
  | runtimeRuleAdded (rule : String)
  | modifierUnknown (name : String)
  | modifierRun (name text : String) (arguments : List String)
  | branchTaken
  | conditionFailed
  deriving DecidableEq, Repr

namespace Notice

/-- How serious a notice is. -/
def severity : Notice → Severity
  | frameLimit | levelLimit _ | nameNotPlain _ | candidateDropped .. | noCandidates _ => .error
  | ruleRedefined _ | selectorWithoutRule _ | methodReplaced .. | found _ | nameRepeated _
  | leftAsWritten .. | choiceMissed | runtimeRuleReplaced _ | modifierUnknown _ => .warning
  | inspecting => .info
  | ruleAdded .. | input _ | output .. | tagReplaced _ | tagSet .. | tagRead .. | runtimeRuleAdded _
  | modifierRun .. | branchTaken | conditionFailed => .trace

/-- The wording of a notice. -/
def message : Notice → String
  | frameLimit => "stack overflow: context limit reached"
  | levelLimit level => "stack overflow at level " ++ toString level
  | nameNotPlain name => "rule name '" ++ name ++ "' is not plain text"
  | candidateDropped rule failure => "rule '" ++ rule ++ "' candidate dropped: " ++ failure.rendered
  | noCandidates rule => "rule '" ++ rule ++ "' has no valid candidates"
  | ruleRedefined rule => "rule '" ++ rule ++ "' redefined"
  | ruleAdded rule count => "rule '" ++ rule ++ "' added with " ++ toString count ++ " candidate(s)"
  | selectorWithoutRule rule => "rule '" ++ rule ++ "' not found to set selector"
  | methodReplaced kind name => "overwriting " ++ kind.word ++ " '" ++ name ++ "'"
  | inspecting => "analysing rules"
  | found finding => finding.message
  | nameRepeated rule => "rule '" ++ rule ++ "' defined twice, will be overwritten"
  | input text => "input " ++ text
  | output text result => "output " ++ text ++ " ==> " ++ result
  | tagReplaced tag => "overwriting tag '" ++ tag ++ "'"
  | tagSet tag values => "set tag [" ++ tag ++ "] <- " ++ Quoted.list values
  | tagRead tag value => "get tag [" ++ tag ++ "] -> " ++ value
  | leftAsWritten name obstacle => "rule #" ++ name ++ "# expansion failed - " ++ obstacle.message
  | choiceMissed => "inline rule selector picked no candidate"
  | runtimeRuleReplaced rule => "overwriting rule '" ++ rule ++ "'"
  | runtimeRuleAdded rule => "added rule '" ++ rule ++ "'"
  | modifierUnknown name => "modifier '" ++ name ++ "' not defined"
  | modifierRun name text arguments =>
    "run mod " ++ name ++ "(" ++ text ++ ") params: " ++ ",".intercalate arguments
  | branchTaken => "branch to then"
  | conditionFailed => "condition failed"

end Notice

/-- **What a listener hears of some notices:** those its level lets through, in order, with their
wording. -/
def LogLevel.heard (listener : LogLevel) (notices : List Notice) : List (Severity × String) :=
  (notices.filter fun n => listener.hears n.severity.level).map fun n => (n.severity, n.message)

end TemplateGrammar
