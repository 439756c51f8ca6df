import TemplateGrammar.Log.Journal
import TemplateGrammar.Rules.Table
import TemplateGrammar.Tags.Store

/-!
# What an expansion reads and writes

An expansion is given rules, objects, methods and limits, which stay as they are (`Setting`), and it
changes tags, runtime rules, bags, the random stream, what the host remembers, and the journal
(`World`).

Two questions are answered here once for all ways of running a template: what a reference stands for
(`World.resolve`), and what the sides of a condition are (`Condition.operands`).
-/

namespace TemplateGrammar

/-- A transformation of a text with arguments, by the host.  It may use and change what the host
remembers. -/
abbrev Method (H : Type) := String → List String → H → String × H

/-- What an expansion is given. -/
structure Setting (H : Type) where
  rules : Dict (Rule H)
  objects : Dict String
  methods : Dict (Method H)
  maxLevel : Nat
  maxFrames : Nat

/-- What an expansion changes. -/
structure World (H : Type) where
  tags : TagStore H
  runtime : Dict (Rule H)
  chance : Chance H
  journal : Journal

/-- Why an expansion ends without a text. -/
inductive ExpansionError where
  | levelLimit (limit : Nat)
  | frameLimit (limit : Nat)
  | malformedCondition (operands : Nat)
  deriving DecidableEq, Repr

/-- The wording of an expansion error. -/
def ExpansionError.message : ExpansionError → String
  | levelLimit limit =>
    "stack overflow: rule expansion nested deeper than " ++ toString limit ++ " levels"
  | frameLimit limit => "stack overflow: more than " ++ toString limit ++ " execution contexts live"
  | malformedCondition operands =>
    "malformed condition: cannot compare " ++ toString operands ++ " value(s)"

/-- **Whether a condition holds** of its expanded operands, the left one first.  Equality needs
exactly two operands, membership at least one. -/
def Comparison.holds? : Comparison → List String → Option Bool
  | equal, [a, b] => some (a == b)
  | unequal, [a, b] => some (a != b)
  | among, a :: rest => some (rest.contains a)
  | notAmong, a :: rest => some (!rest.contains a)
  | _, _ => none

namespace World

variable {H : Type}

/-- Give a notice. -/
def say (w : World H) (n : Notice) : World H :=
  { w with journal := w.journal.say n }

/-- Give notices, the earliest first. -/
def sayAll (w : World H) (ns : List Notice) : World H :=
  ns.foldl say w

/-- Note something that was done. -/
def enter (w : World H) (e : Entry) : World H :=
  { w with journal := e :: w.journal }

/-- One pick. -/
def pick (w : World H) (chooser : Chooser) (s : Selector H) (count : Nat) : Nat × World H :=
  match s.pick count w.chance with
  | (i, chance) => (i, { w with chance, journal := .pick chooser count i :: w.journal })

/-- The name for a new bag. -/
def freshBag (w : World H) : BagId × World H :=
  match w.chance.bags.fresh with
  | (id, bags) => (id, { w with chance := { w.chance with bags } })

/-- Tags written above the level are gone. -/
def leave (w : World H) (level : Nat) : World H :=
  { w with tags := w.tags.leave level }

/-- Set a tag to expanded values. -/
def setTag (w : World H) (level : Nat) (name : String) (values : List String)
    (s : Selector H) : World H :=
  let w := if (w.tags.get? level name).isSome then w.say (.tagReplaced name) else w
  let w := (w.say (.tagSet name values)).enter (.setTag level name values)
  { w with tags := w.tags.store level name ⟨values, s⟩ }

/-- Define a rule for the running expansion. -/
def define (w : World H) (name : String) (values : List (List (Node BagId))) : World H :=
  let w := w.say (if w.runtime.contains name then .runtimeRuleReplaced name
    else .runtimeRuleAdded name)
  let fresh := w.freshBag
  let rule : Rule H := ⟨values.map (Candidate.mk ""), .default values fresh.1⟩
  let w := fresh.2.enter (.define name values.length)
  { w with runtime := w.runtime.insert name rule }

/-- Call a method on a text. -/
def call (w : World H) (m : Method H) (name text : String) (arguments : List String) :
    String × World H :=
  let w := (w.say (.modifierRun name text arguments)).enter (.call name text arguments)
  match m text arguments w.chance.host with
  | (out, host) => (out, { w with chance := { w.chance with host } })

end World

/-- What a reference stands for: nodes to expand, one level deeper or not, or nothing. -/
inductive Resolution where
  | nodes (nodes : List (Node BagId)) (deepens : Bool)
  | stuck (obstacle : Obstacle)

namespace World

variable {H : Type}

/-- A candidate of a rule. -/
def resolveRule (w : World H) (chooser : Chooser) (rule : Rule H) : Resolution × World H :=
  match w.pick chooser rule.selector rule.candidates.length with
  | (i, w) =>
    match rule.candidates[i]? with
    | some c => (.nodes c.nodes true, w)
    | none => (.stuck .noCandidate, w)

/-- **What a name stands for.**  The empty name is the empty text; then a tag is looked for, an
object, a runtime rule and a rule of the table, in this order. -/
def resolve (s : Setting H) (level : Nat) (name : String) (w : World H) : Resolution × World H :=
  if name = "" then (.nodes [.text ""] false, w)
  else
    match w.tags.get? level name with
    | some tag =>
      match w.pick (.tag name) tag.selector tag.values.length with
      | (i, w) =>
        match tag.values[i]? with
        | some value => (.nodes [.text value] false, w.say (.tagRead name value))
        | none => (.stuck .noTagValue, w)
    | none =>
      match s.objects[name]? with
      | some value => (.nodes [.text value] false, w)
      | none =>
        match w.runtime[name]? with
        | some rule => w.resolveRule (.runtimeRule name) rule
        | none =>
          match s.rules[name]? with
          | some rule => w.resolveRule (.rule name) rule
          | none => (.stuck .notDefined, w)

end World

/-! ### What leaves the tags alone -/

namespace World

variable {H : Type}

@[simp] theorem tags_sayAll (w : World H) (ns : List Notice) : (w.sayAll ns).tags = w.tags := by
  induction ns generalizing w with
  | nil => rfl
  | cons n ns ih => exact ih (w.say n)

theorem tags_setTag (w : World H) (level : Nat) (name : String) (values : List String)
    (s : Selector H) :
    (w.setTag level name values s).tags = w.tags.store level name ⟨values, s⟩ := by
  unfold setTag
  split <;> rfl

@[simp] theorem tags_resolveRule (w : World H) (chooser : Chooser) (rule : Rule H) :
    (w.resolveRule chooser rule).2.tags = w.tags := by
  unfold resolveRule
  dsimp only
  split <;> rfl

@[simp] theorem tags_resolve (s : Setting H) (level : Nat) (name : String) (w : World H) :
    (w.resolve s level name).2.tags = w.tags := by
  unfold resolve
  split
  · rfl
  · split
    · dsimp only
      split <;> rfl
    · split
      · rfl
      · split
        · exact tags_resolveRule _ _ _
        · split
          · exact tags_resolveRule _ _ _
          · rfl

end World

namespace Condition

variable {H : Type}

/-- **The right operands of a condition.**  A membership test against a lone reference is made
against every value of the tag, or every candidate of the rule, that the name stands for; any other
right side is one operand. -/
def rightOperands (s : Setting H) (level : Nat) (w : World H) (c : Condition BagId) :
    List (List (Node BagId)) :=
  match c.op, c.right with
  | .among, [.rule name _] | .notAmong, [.rule name _] =>
    match w.tags.get? level name with
    | some tag => tag.values.map fun v => [.text v]
    | none =>
      match w.runtime[name]?.or s.rules[name]? with
      | some rule => rule.candidates.map Candidate.nodes
      | none => [c.right]
  | _, _ => [c.right]

/-- The operands of a condition, the left one first. -/
def operands (s : Setting H) (level : Nat) (w : World H) (c : Condition BagId) :
    List (List (Node BagId)) :=
  c.left :: c.rightOperands s level w

end Condition

end TemplateGrammar
