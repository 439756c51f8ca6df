import TemplateGrammar.Expansion.Machine

/-!
# Expansion without a stack

What the machine does with frames, said by recursion.  A frame is a task that is carried out on a
level; a task enters further frames, of which so many are free, and goes on with what they answer.
So the number of free frames is what the recursion goes down on, and a loop is nothing but frames
inside frames.

The world is threaded from left to right.  Entering a frame without a free one, and going deeper
than the level allows, are the two errors, and an error ends everything that is going on.
-/

namespace TemplateGrammar

/-- What is to be done in a frame. -/
inductive Task where
  /-- expand nodes, and put the text through a chain of modifiers -/
  | nodes (nodes : List (Node BagId)) (modifiers : List (Modifier BagId))
  /-- expand values, and make them the values of a tag -/
  | tag (name : String) (values : List (List (Node BagId))) (site : BagId)
  /-- expand operands, and go on with one of two blocks -/
  | condition (operands : List (List (Node BagId))) (op : Comparison) (yes : List (Node BagId))
    (no : Option (List (Node BagId)))

/-- A result, and the world after it. -/
abbrev Expanded (α H : Type) := Except ExpansionError α × World H

/-- How a frame is entered: on a level, raising it or not, with a task. -/
abbrev Entrance (H : Type) := Nat → Bool → Task → World H → Expanded String H

namespace Direct

variable {H : Type}

/-- Go on with what has been made, unless it is an error. -/
def andThen {α β : Type} (x : Expanded α H) (f : α → World H → Expanded β H) : Expanded β H :=
  match x with
  | (.ok a, w) => f a w
  | (.error e, w) => (.error e, w)

/-- Expand values one after another, each in a frame of its own. -/
def arguments (enter : Entrance H) (level : Nat) :
    List (List (Node BagId)) → World H → Expanded (List String) H
  | [], w => (.ok [], w)
  | v :: rest, w =>
    andThen (enter level false (.nodes v []) w) fun text w =>
      andThen (arguments enter level rest w) fun texts w => (.ok (text :: texts), w)

/-- Expand a block of a condition, if there is one. -/
def block (enter : Entrance H) (level : Nat) (nodes : Option (List (Node BagId))) (w : World H) :
    Expanded String H :=
  match nodes with
  | some nodes => enter level false (.nodes nodes []) w
  | none => (.ok "", w)

/-- Go on with the block that some operands choose. -/
def branch (enter : Entrance H) (level : Nat) (op : Comparison) (yes : List (Node BagId))
    (no : Option (List (Node BagId))) (operands : List String) (w : World H) : Expanded String H :=
  match op.holds? operands with
  | none => (.error (.malformedCondition operands.length), w)
  | some true => block enter level (some yes) (w.say .branchTaken)
  | some false => block enter level no (w.say .conditionFailed)

/-- **Expand one node.**  What it stands for is expanded in a frame. -/
def node (s : Setting H) (enter : Entrance H) (level : Nat) (n : Node BagId) (w : World H) :
    Expanded String H :=
  match n with
  | .text text => (.ok text, w)
  | .weight _ => (.ok "", w)
  | .rule name mods =>
    match w.resolve s level name with
    | (.nodes nodes deepens, w) =>
      enter level deepens (.nodes nodes mods) (Machine.sayUnknown s mods w)
    | (.stuck obstacle, w) => (.ok ("#" ++ name ++ "#"), w.say (.leftAsWritten name obstacle))
  | .choice site values mods =>
    match w.pick .inline (.default values site) values.length with
    | (i, w) =>
      match values[i]? with
      | some nodes => enter level false (.nodes nodes mods) (Machine.sayUnknown s mods w)
      | none => (.ok "", w.say .choiceMissed)
  | .tag name values =>
    match w.freshBag with
    | (id, w) => enter level false (.tag name values id) w
  | .define name values => (.ok "", w.define name values)
  | .ifBlock c yes no => enter level false (.condition (c.operands s level w) c.op yes no) w
  | .whileBlock c body =>
    enter level false (.condition (c.operands s level w) c.op (body ++ [.whileBlock c body]) none) w

/-- Expand nodes from left to right, and put their texts together. -/
def nodeList (s : Setting H) (enter : Entrance H) (level : Nat) :
    List (Node BagId) → World H → Expanded String H
  | [], w => (.ok "", w)
  | n :: rest, w =>
    andThen (node s enter level n w) fun text w =>
      andThen (nodeList s enter level rest w) fun more w => (.ok (text ++ more), w)

/-- Put a text through the known ones of some modifiers, each with its own parameters. -/
def modify (s : Setting H) (enter : Entrance H) (level : Nat) :
    List (Modifier BagId) → String → World H → Expanded String H
  | [], text, w => (.ok text, w)
  | mod :: rest, text, w =>
    match s.methods[mod.name]? with
    | none => modify s enter level rest text w
    | some method =>
      andThen (arguments enter level mod.parameters w) fun args w =>
        match w.call method mod.name text args with
        | (out, w) => modify s enter level rest out w

/-- **Carry out a task** in a frame on a level. -/
def perform (s : Setting H) (enter : Entrance H) (level : Nat) (t : Task) (w : World H) :
    Expanded String H :=
  match t with
  | .nodes nodes mods =>
    andThen (nodeList s enter level nodes w) fun text w => modify s enter level mods text w
  | .tag name values site =>
    andThen (arguments enter level values w) fun texts w =>
      (.ok "", w.setTag level name texts (.default values site))
  | .condition operands op yes no =>
    andThen (arguments enter level operands w) fun texts w => branch enter level op yes no texts w

/-- **Enter a frame** where so many are free. -/
def enter (s : Setting H) : Nat → Entrance H
  | 0, _, _, _, w => (.error (.frameLimit s.maxFrames), w.say .frameLimit)
  | free + 1, level, false, t, w => perform s (enter s free) level t w
  | free + 1, level, true, t, w =>
    if s.maxLevel < level + 1 then
      (.error (.levelLimit s.maxLevel), w.say (.levelLimit (level + 1)))
    else
      andThen (perform s (enter s free) (level + 1) t w) fun text w => (.ok text, w.leave level)

/-- **Expand a list of nodes** at the root, where tags that a failed expansion left deeper are
dropped. -/
def expand (s : Setting H) (nodes : List (Node BagId)) (w : World H) : Expanded String H :=
  match s.maxFrames with
  | 0 => (.error (.frameLimit 0), w.say .frameLimit)
  | free + 1 =>
    if s.maxLevel = 0 then (.error (.levelLimit 0), w.say (.levelLimit 1))
    else perform s (enter s free) 1 (.nodes nodes []) (w.leave 1)

end Direct

end TemplateGrammar
