import TemplateGrammar.Expansion.Stack
import TemplateGrammar.Expansion.World

/-!
# The machine

A template is expanded on a stack of frames.  A frame holds the work it still has to do, the text it
has made so far and the arguments that have been collected for its next instruction; when its work
is done, it is taken off and hands its text to the frame below.  Nothing recurses, so how deep an
expansion goes is counted and limited, and an expansion that runs away ends in an error.

Two limits are tested when a frame is put on the stack: the number of frames, and the level.  Only
frames of rules raise the level; inline choices, tags, conditions and modifiers run on the level of
the rule that holds them.
-/

namespace TemplateGrammar

/-- What a frame does with its text when it is taken off. -/
inductive Handover where
  | append
  | argument
  | discard
  deriving DecidableEq, Repr

/-- A piece of work. -/
inductive Instr (H : Type) where
  /-- expand a node -/
  | node (n : Node BagId)
  /-- expand nodes in a frame of their own and collect the text as an argument -/
  | evaluate (nodes : List (Node BagId))
  /-- forget the arguments -/
  | clearArguments
  /-- put the text of the frame through a method -/
  | modify (name : String)
  /-- make the arguments the values of a tag -/
  | setTag (name : String) (selector : Selector H)
  /-- go on with one of two blocks -/
  | branch (op : Comparison) (yes : List (Node BagId)) (no : Option (List (Node BagId)))

/-- A frame of the stack. -/
structure Frame (H : Type) where
  pending : List (Instr H)
  result : String
  arguments : List String
  handover : Handover
  deepens : Bool

/-- The state of a running expansion. -/
structure Machine (H : Type) where
  world : World H
  frames : Stack (Frame H)
  level : Nat

/-- What one instruction leads to. -/
inductive Turn (H : Type) where
  | go (m : Machine H)
  | stop (e : ExpansionError) (m : Machine H)

/-- Where a machine stands after one step. -/
inductive Status (H : Type) where
  | running (m : Machine H)
  | done (text : String) (m : Machine H)
  | failed (e : ExpansionError) (m : Machine H)

namespace Machine

variable {H : Type}

/-- Give a notice. -/
def say (m : Machine H) (n : Notice) : Machine H :=
  { m with world := m.world.say n }

/-- Change the top frame. -/
def onTop (m : Machine H) (f : Frame H → Frame H) : Machine H :=
  { m with frames := m.frames.onTop f }

/-- Add to the text of the top frame. -/
def append (m : Machine H) (text : String) : Machine H :=
  m.onTop fun top => { top with result := top.result ++ text }

/-- The arguments collected on the top frame. -/
def arguments (m : Machine H) : List String :=
  match m.frames.top? with
  | none => []
  | some top => top.arguments

/-- The text of the top frame. -/
def result (m : Machine H) : String :=
  match m.frames.top? with
  | none => ""
  | some top => top.result

/-- **Put a frame on the stack.**  The number of frames is tested first; the level is raised before
it is tested. -/
def push (s : Setting H) (work : List (Instr H)) (handover : Handover) (deepens : Bool)
    (m : Machine H) : Turn H :=
  if s.maxFrames ≤ m.frames.height then
    .stop (.frameLimit s.maxFrames) (m.say .frameLimit)
  else if deepens && s.maxLevel < m.level + 1 then
    .stop (.levelLimit s.maxLevel) ({ m with level := m.level + 1 }.say (.levelLimit (m.level + 1)))
  else
    .go { m with
      frames := m.frames.push ⟨work, "", [], handover, deepens⟩
      level := if deepens then m.level + 1 else m.level }

/-- The work of a list of nodes. -/
def work (nodes : List (Node BagId)) : List (Instr H) :=
  nodes.map .node

/-- The work of one modifier: its parameters, the method, and the end of its arguments. -/
def modifierWork (mod : Modifier BagId) : List (Instr H) :=
  mod.parameters.map .evaluate ++ [.modify mod.name, .clearArguments]

/-- The work of a chain of modifiers; unknown ones are passed over. -/
def chainWork (s : Setting H) (mods : List (Modifier BagId)) : List (Instr H) :=
  (mods.filter fun mod => s.methods.contains mod.name).flatMap modifierWork

/-- Say which modifiers of a chain are unknown. -/
def sayUnknown (s : Setting H) (mods : List (Modifier BagId)) (w : World H) : World H :=
  w.sayAll ((mods.filter fun mod => !s.methods.contains mod.name).map fun mod =>
    .modifierUnknown mod.name)

/-- The work of a tag: its values, and the tag made of them. -/
def tagWork (name : String) (values : List (List (Node BagId))) (id : BagId) : List (Instr H) :=
  values.map .evaluate ++ [.setTag name (.default values id)]

/-- The work of a condition: its operands, and the branch on them. -/
def conditionWork (operands : List (List (Node BagId))) (op : Comparison) (yes : List (Node BagId))
    (no : Option (List (Node BagId))) : List (Instr H) :=
  operands.map .evaluate ++ [.branch op yes no]

/-- Expand nodes in a new frame, then put the text through a chain of modifiers. -/
def pushChain (s : Setting H) (nodes : List (Node BagId)) (mods : List (Modifier BagId))
    (deepens : Bool) (m : Machine H) : Turn H :=
  { m with world := sayUnknown s mods m.world }.push s (work nodes ++ chainWork s mods)
    .append deepens

/-- A reference. -/
def reference (s : Setting H) (name : String) (mods : List (Modifier BagId))
    (m : Machine H) : Turn H :=
  match m.world.resolve s m.level name with
  | (.nodes nodes deepens, w) => pushChain s nodes mods deepens { m with world := w }
  | (.stuck obstacle, w) =>
    .go (({ m with world := w }.say (.leftAsWritten name obstacle)).append ("#" ++ name ++ "#"))

/-- An inline choice. -/
def choice (s : Setting H) (site : BagId) (values : List (List (Node BagId)))
    (mods : List (Modifier BagId)) (m : Machine H) : Turn H :=
  match m.world.pick .inline (.default values site) values.length with
  | (i, w) =>
    match values[i]? with
    | some nodes => pushChain s nodes mods false { m with world := w }
    | none => .go ({ m with world := w }.say .choiceMissed)

/-- A condition and its blocks. -/
def conditional (s : Setting H) (c : Condition BagId) (yes : List (Node BagId))
    (no : Option (List (Node BagId))) (m : Machine H) : Turn H :=
  m.push s (conditionWork (c.operands s m.level m.world) c.op yes no) .append false

/-- **Expand one node.**  A loop is a condition whose block ends with the loop itself. -/
def node (s : Setting H) (n : Node BagId) (m : Machine H) : Turn H :=
  match n with
  | .text text => .go (m.append text)
  | .weight _ => .go m
  | .rule name mods => reference s name mods m
  | .choice site values mods => choice s site values mods m
  | .tag name values =>
    match m.world.freshBag with
    | (id, w) =>
      { m with world := w }.push s (tagWork name values id) .discard false
  | .define name values => .go { m with world := m.world.define name values }
  | .ifBlock c yes no => conditional s c yes no m
  | .whileBlock c body => conditional s c (body ++ [.whileBlock c body]) none m

/-- Put the text of the top frame through a method. -/
def modify (s : Setting H) (name : String) (m : Machine H) : Machine H :=
  match s.methods[name]? with
  | none => m.say (.modifierUnknown name)
  | some method =>
    match m.world.call method name m.result m.arguments with
    | (text, w) => { m with world := w }.onTop fun top => { top with result := text }

/-- Go on with the block that the arguments of the top frame choose. -/
def branch (s : Setting H) (op : Comparison) (yes : List (Node BagId))
    (no : Option (List (Node BagId))) (m : Machine H) : Turn H :=
  match op.holds? m.arguments with
  | none => .stop (.malformedCondition m.arguments.length) m
  | some true => (m.say .branchTaken).push s (work yes) .append false
  | some false =>
    match no with
    | some nodes => (m.say .conditionFailed).push s (work nodes) .append false
    | none => .go (m.say .conditionFailed)

/-- Carry out one instruction. -/
def step (s : Setting H) (i : Instr H) (m : Machine H) : Turn H :=
  match i with
  | .node n => node s n m
  | .evaluate nodes => m.push s (work nodes) .argument false
  | .clearArguments => .go (m.onTop fun top => { top with arguments := [] })
  | .modify name => .go (modify s name m)
  | .setTag name selector =>
    .go ({ m with world := m.world.setTag m.level name m.arguments selector }.onTop fun top =>
      { top with arguments := [] })
  | .branch op yes no => branch s op yes no m

/-- A frame takes what the frame above it made. -/
def handOver (child parent : Frame H) : Frame H :=
  match child.handover with
  | .append => { parent with result := parent.result ++ child.result }
  | .argument => { parent with arguments := parent.arguments ++ [child.result] }
  | .discard => parent

/-- Take off the top frame, which has done its work, and leave the level it was on.  The root
stays. -/
def pop (deepens : Bool) (m : Machine H) : Machine H :=
  if m.frames.height < 2 then m
  else
    let m := { m with frames := m.frames.pop handOver }
    if deepens then { m with level := m.level - 1, world := m.world.leave (m.level - 1) } else m

/-- **One step.**  The top frame's next instruction is carried out; a frame without work is taken
off; when only the root is left without work, its text is the result. -/
def advance (s : Setting H) (m : Machine H) : Status H :=
  match m.frames.top? with
  | none => .done "" m
  | some top =>
    match top.pending with
    | i :: rest =>
      match step s i (m.onTop fun top => { top with pending := rest }) with
      | .go m => .running m
      | .stop e m => .failed e m
    | [] =>
      if m.frames.height = 1 then .done top.result { m with frames := m.frames.clear }
      else .running (m.pop top.deepens)

end Machine

end TemplateGrammar
