/-!
# How much is said

A message has a severity, and whoever listens has a level; a level lets through its own severity and
all that are more severe.  The silent level lets nothing through.
-/

namespace TemplateGrammar

/-- How much a listener wants to hear, from nothing to everything. -/
inductive LogLevel where
  | silent
  | errors
  | warnings
  | info
  | verbose
  deriving DecidableEq, Repr

/-- How serious a message is. -/
inductive Severity where
  | error
  | warning
  | info
  | trace
  deriving DecidableEq, Repr

namespace LogLevel

/-- The levels in order. -/
def rank : LogLevel → Nat
  | silent => 0
  | errors => 1
  | warnings => 2
  | info => 3
  | verbose => 4

/-- The names of the levels on a command line. -/
def ofName? : String → Option LogLevel
  | "none" => some silent
  | "errors" => some errors
  | "warnings" => some warnings
  | "info" => some info
  | "verbose" => some verbose
  | _ => none

/-- A listener of this level hears what is said at the other. -/
def hears (listener level : LogLevel) : Bool :=
  level != silent && level.rank ≤ listener.rank

end LogLevel

/-- The level at which messages of a severity are said. -/
def Severity.level : Severity → LogLevel
  | error => .errors
  | warning => .warnings
  | info => .info
  | trace => .verbose

/-- **What a louder listener misses, a quieter one misses too.** -/
theorem LogLevel.hears_mono {quiet loud level : LogLevel} (h : quiet.rank ≤ loud.rank)
    (heard : quiet.hears level = true) : loud.hears level = true := by
  simp only [hears, Bool.and_eq_true, decide_eq_true_eq] at heard ⊢
  exact ⟨heard.1, Nat.le_trans heard.2 h⟩

end TemplateGrammar
