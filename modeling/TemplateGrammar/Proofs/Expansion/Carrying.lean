import TemplateGrammar.Proofs.Expansion.Simulation

/-!
# Carrying out instructions

What an instruction makes of what its frame holds, a text and arguments, is said by recursion, as
the evaluator says it of tasks: `Direct.carryOut` for one instruction, `Direct.carryOutAll` for some
in order.  Carrying out the work of a task is performing the task (`perform_eq_carryOutAll`).

A step of the machine carries an instruction out at once, or begins to: it calls a task in a new
frame, and the instruction is carried out when that frame has answered (`Calls`).
`carried_or_called` says that there is no third case.
-/

namespace TemplateGrammar

/-- What a frame holds. -/
structure Held where
  text : String
  arguments : List String

/-- What a frame holds at first. -/
def Held.nothing : Held := ⟨"", []⟩

/-- What a frame holds that has been handed a text. -/
def Held.receive (held : Held) (handover : Handover) (text : String) : Held :=
  match handover with
  | .append => { held with text := held.text ++ text }
  | .argument => { held with arguments := held.arguments ++ [text] }
  | .discard => held

/-- The frame that holds it and has this work left. -/
def Held.frame {H : Type} (held : Held) (rest : List (Instr H)) (handover : Handover)
    (deepens : Bool) : Frame H :=
  ⟨rest, held.text, held.arguments, handover, deepens⟩

theorem Held.receive_nil (held : Held) : held.receive .append "" = held := by
  show ({ held with text := held.text ++ "" } : Held) = held
  rw [String.append_empty]

theorem Held.receive_receive (held : Held) (text more : String) :
    (held.receive .append text).receive .append more = held.receive .append (text ++ more) := by
  show ({ held with text := held.text ++ text ++ more } : Held) =
    { held with text := held.text ++ (text ++ more) }
  rw [String.append_assoc]

namespace Direct

variable {H α β γ : Type} {s : Setting H} {enter : Entrance H} {level : Nat}

theorem andThen_assoc (x : Expanded α H) (f : α → World H → Expanded β H)
    (g : β → World H → Expanded γ H) :
    andThen (andThen x f) g = andThen x fun a w => andThen (f a w) g := by
  obtain ⟨result, w⟩ := x
  cases result <;> rfl

theorem andThen_congr {x : Expanded α H} {f g : α → World H → Expanded β H}
    (h : ∀ a w, f a w = g a w) : andThen x f = andThen x g := by
  obtain ⟨result, w⟩ := x
  cases result with
  | ok a => exact h a w
  | error e => rfl

/-- **Carry out an instruction** in a frame that holds something. -/
def carryOut (s : Setting H) (enter : Entrance H) (level : Nat) (i : Instr H) (held : Held)
    (w : World H) : Expanded Held H :=
  match i with
  | .node n => andThen (node s enter level n w) fun text w => (.ok (held.receive .append text), w)
  | .evaluate nodes =>
    andThen (enter level false (.nodes nodes []) w) fun text w =>
      (.ok (held.receive .argument text), w)
  | .clearArguments => (.ok { held with arguments := [] }, w)
  | .modify name =>
    match s.methods[name]? with
    | none => (.ok held, w.say (.modifierUnknown name))
    | some method =>
      match w.call method name held.text held.arguments with
      | (text, w) => (.ok { held with text := text }, w)
  | .setTag name selector =>
    (.ok { held with arguments := [] }, w.setTag level name held.arguments selector)
  | .branch op yes no =>
    andThen (branch enter level op yes no held.arguments w) fun text w =>
      (.ok (held.receive .append text), w)

/-- Carry out instructions, one after another. -/
def carryOutAll (s : Setting H) (enter : Entrance H) (level : Nat) :
    List (Instr H) → Held → World H → Expanded Held H
  | [], held, w => (.ok held, w)
  | i :: rest, held, w =>
    andThen (carryOut s enter level i held w) fun held w => carryOutAll s enter level rest held w

theorem carryOutAll_append (some more : List (Instr H)) (held : Held) (w : World H) :
    carryOutAll s enter level (some ++ more) held w =
      andThen (carryOutAll s enter level some held w) fun held w =>
      carryOutAll s enter level more held w := by
  induction some generalizing held w with
  | nil => rfl
  | cons i some ih =>
    rw [List.cons_append, carryOutAll, carryOutAll, andThen_assoc]
    exact andThen_congr fun held w => ih held w

theorem carryOutAll_singleton (i : Instr H) (held : Held) (w : World H) :
    carryOutAll s enter level [i] held w = carryOut s enter level i held w := by
  rw [carryOutAll]
  rcases carryOut s enter level i held w with ⟨result, w⟩
  cases result <;> rfl

/-! ### The work of a task -/

theorem carryOutAll_work (nodes : List (Node BagId)) (held : Held) (w : World H) :
    carryOutAll s enter level (Machine.work nodes) held w =
      andThen (nodeList s enter level nodes w) fun text w =>
      (.ok (held.receive .append text), w) := by
  induction nodes generalizing held w with
  | nil =>
    show (Except.ok held, w) = (Except.ok (held.receive .append ""), w)
    rw [Held.receive_nil]
  | cons n nodes ih =>
    show andThen (andThen (node s enter level n w) _) _ =
      andThen (andThen (node s enter level n w) _) _
    rw [andThen_assoc, andThen_assoc]
    refine andThen_congr fun text w => ?_
    show carryOutAll s enter level (Machine.work nodes) (held.receive .append text) w = _
    rw [ih, andThen_assoc]
    exact andThen_congr fun more w => by rw [Held.receive_receive]; rfl

theorem carryOutAll_evaluate (values : List (List (Node BagId))) (held : Held) (w : World H) :
    carryOutAll s enter level (values.map .evaluate) held w =
      andThen (arguments enter level values w) fun texts w =>
        (.ok { held with arguments := held.arguments ++ texts }, w) := by
  induction values generalizing held w with
  | nil =>
    show (Except.ok held, w) = (Except.ok { held with arguments := held.arguments ++ [] }, w)
    rw [List.append_nil]
  | cons v values ih =>
    show andThen (andThen (enter level false (.nodes v []) w) _) _ =
      andThen (andThen (enter level false (.nodes v []) w) _) _
    rw [andThen_assoc, andThen_assoc]
    refine andThen_congr fun text w => ?_
    show carryOutAll s enter level (values.map .evaluate) (held.receive .argument text) w = _
    rw [ih, andThen_assoc]
    refine andThen_congr fun texts w => ?_
    show (Except.ok { held with arguments := held.arguments ++ [text] ++ texts }, w) = _
    rw [List.append_assoc]
    rfl

theorem carryOutAll_chainWork (mods : List (Modifier BagId)) (text : String) (w : World H) :
    carryOutAll s enter level (Machine.chainWork s mods) ⟨text, []⟩ w =
      andThen (modify s enter level mods text w) fun text w => (.ok ⟨text, []⟩, w) := by
  induction mods generalizing text w with
  | nil => rfl
  | cons mod mods ih =>
    rw [Machine.chainWork_cons, modify]
    cases hm : s.methods[mod.name]? with
    | none => exact ih text w
    | some method =>
      dsimp only
      rw [if_pos Option.isSome_some, Machine.modifierWork, List.append_assoc, carryOutAll_append,
        carryOutAll_evaluate, andThen_assoc, andThen_assoc]
      refine andThen_congr fun args w => ?_
      show carryOutAll s enter level (.modify mod.name :: .clearArguments ::
        Machine.chainWork s mods) ⟨text, [] ++ args⟩ w = _
      rw [List.nil_append, carryOutAll, carryOut, hm]
      exact ih _ _

/-- **Carrying out the work of a task** is performing the task. -/
theorem perform_eq_carryOutAll (t : Task) (w : World H) :
    perform s enter level t w =
      andThen (carryOutAll s enter level (t.work s) .nothing w) fun held w =>
      (.ok held.text, w) := by
  cases t with
  | nodes nodes mods =>
    rw [perform, Task.work, carryOutAll_append, carryOutAll_work, andThen_assoc, andThen_assoc]
    refine andThen_congr fun text w => ?_
    show _ = andThen (carryOutAll s enter level (Machine.chainWork s mods) ⟨"" ++ text, []⟩ w) _
    rw [String.empty_append, carryOutAll_chainWork, andThen_assoc]
    rcases modify s enter level mods text w with ⟨result, w⟩
    cases result <;> rfl
  | tag name values site =>
    rw [perform, Task.work, Machine.tagWork, carryOutAll_append, carryOutAll_evaluate,
      andThen_assoc, andThen_assoc]
    exact andThen_congr fun texts w => rfl
  | condition operands op yes no =>
    rw [perform, Task.work, Machine.conditionWork, carryOutAll_append, carryOutAll_evaluate,
      andThen_assoc, andThen_assoc]
    refine andThen_congr fun texts w => ?_
    show _ = andThen (carryOutAll s enter level [.branch op yes no] ⟨"", [] ++ texts⟩ w) _
    rw [List.nil_append, carryOutAll_singleton]
    show _ = andThen (andThen (branch enter level op yes no texts w) _) _
    rw [andThen_assoc]
    rcases branch enter level op yes no texts w with ⟨result, w⟩
    cases result with
    | ok text =>
      show _ = (Except.ok ("" ++ text), w)
      rw [String.empty_append]
    | error e => rfl

/-- A frame that has been entered and whose task has been performed answers its text, and its level
is left. -/
theorem enter_of_perform {free : Nat} {deepens : Bool} {t : Task} {w w' : World H} {text : String}
    (shallow : deepens = true → level < s.maxLevel)
    (h : perform s (Direct.enter s free) (if deepens then level + 1 else level) t w =
      (.ok text, w')) :
    Direct.enter s (free + 1) level deepens t w =
      (.ok text, Machine.worldBelow deepens (if deepens then level + 1 else level) w') := by
  cases deepens with
  | false => exact h
  | true =>
    have hlevel := shallow rfl
    rw [if_pos rfl] at h
    rw [Direct.enter, if_neg (by omega), h]
    rfl

end Direct

namespace Machine

variable {H : Type} {s : Setting H}

/-! ### Calls -/

/-- **An instruction calls a task:** on a level and in a world, with the arguments of its frame, the
task is called in a new frame and in another world. -/
inductive Calls (s : Setting H) (level : Nat) :
    Instr H → List String → World H → Task → Handover → Bool → World H → Prop
  | reference {name mods args nodes deepens} {w w' : World H}
      (h : w.resolve s level name = (.nodes nodes deepens, w')) :
      Calls s level (.node (.rule name mods)) args w (.nodes nodes mods) .append deepens
        (sayUnknown s mods w')
  | choice {site values mods args nodes i} {w w' : World H}
      (h : w.pick .inline (.default values site) values.length = (i, w'))
      (hi : values[i]? = some nodes) :
      Calls s level (.node (.choice site values mods)) args w (.nodes nodes mods) .append false
        (sayUnknown s mods w')
  | tag {name values args} {w : World H} :
      Calls s level (.node (.tag name values)) args w (.tag name values w.freshBag.1) .discard
        false w.freshBag.2
  | ifBlock {c yes no args} {w : World H} :
      Calls s level (.node (.ifBlock c yes no)) args w
        (.condition (c.operands s level w) c.op yes no) .append false w
  | whileBlock {c body args} {w : World H} :
      Calls s level (.node (.whileBlock c body)) args w
        (.condition (c.operands s level w) c.op (body ++ [.whileBlock c body]) none) .append false w
  | evaluate {nodes args} {w : World H} :
    Calls s level (.evaluate nodes) args w (.nodes nodes []) .argument false w
  | yes {op yes no args} {w : World H} (h : op.holds? args = some true) :
      Calls s level (.branch op yes no) args w (.nodes yes []) .append false (w.say .branchTaken)
  | no {op yes nodes args} {w : World H} (h : op.holds? args = some false) :
      Calls s level (.branch op yes (some nodes)) args w (.nodes nodes []) .append false
        (w.say .conditionFailed)

/-- **When the frame has answered,** the instruction that called it is carried out. -/
theorem Calls.carryOut {level : Nat} {i : Instr H} {held : Held} {w w₁ w₂ : World H} {t : Task}
    {handover : Handover} {deepens : Bool} {free : Nat} {text : String}
    (h : Calls s level i held.arguments w t handover deepens w₁)
    (he : Direct.enter s free level deepens t w₁ = (.ok text, w₂)) :
    Direct.carryOut s (Direct.enter s free) level i held w =
      (.ok (held.receive handover text), w₂) := by
  cases h with
  | reference h =>
    rw [Direct.carryOut, Direct.node, h]
    dsimp only
    rw [he]
    rfl
  | choice h hi =>
    rw [Direct.carryOut, Direct.node, h]
    dsimp only
    rw [hi]
    dsimp only
    rw [he]
    rfl
  | tag =>
    rw [Direct.carryOut, Direct.node]
    dsimp only
    rw [he, Direct.text_of_enter_tag he]
    show (Except.ok (held.receive .append ""), w₂) = _
    rw [Held.receive_nil]
    rfl
  | ifBlock =>
    rw [Direct.carryOut, Direct.node, he]
    rfl
  | whileBlock =>
    rw [Direct.carryOut, Direct.node, he]
    rfl
  | evaluate =>
    rw [Direct.carryOut, he]
    rfl
  | yes h =>
    rw [Direct.carryOut, Direct.branch, h]
    dsimp only
    rw [Direct.block, he]
    rfl
  | no h =>
    rw [Direct.carryOut, Direct.branch, h]
    dsimp only
    rw [Direct.block, he]
    rfl

/-! ### One step -/

/-- **The new frame of a call** stands on top, and both limits had room for it. -/
theorem stands_pushed {m m' : Machine H} {w : World H} {level : Nat} {parent : Frame H}
    {below : List (Frame H)} {t : Task} {l : List (Instr H)} {handover : Handover} {deepens : Bool}
    (h : m.Stands w level (parent :: below)) (hl : l = t.work s)
    (hp : m.push s l handover deepens = .go m') :
    below.length + 1 < s.maxFrames ∧ (deepens = true → level < s.maxLevel) ∧
      m'.Stands w (if deepens then level + 1 else level)
        (Held.nothing.frame (t.work s) handover deepens :: parent :: below) := by
  obtain ⟨hroom, hlevel, hs⟩ := push_eq_go hp
  rw [← Stack.length_toList, h.frames, List.length_cons] at hroom
  rw [h.level] at hlevel
  refine ⟨hroom, hlevel, ?_⟩
  rw [← hl]
  exact ⟨hs.world.trans h.world, by rw [hs.level, h.level], by rw [hs.frames, h.frames]; rfl⟩

theorem work_eq_task (nodes : List (Node BagId)) : work nodes = (Task.nodes nodes []).work s := by
  rw [Task.work, chainWork_nil, List.append_nil]

section Step

variable {m m' : Machine H} {w : World H} {level : Nat} {i : Instr H} {rest : List (Instr H)}
  {held : Held} {handover : Handover} {deepens : Bool} {below : List (Frame H)}

/-- The instruction was carried out in its frame. -/
def Carried (s : Setting H) (level : Nat) (i : Instr H) (rest : List (Instr H))
    (held : Held) (w : World H) (handover : Handover) (deepens : Bool) (below : List (Frame H))
    (m' : Machine H) : Prop :=
  ∃ held' w', m'.Stands w' level (held'.frame rest handover deepens :: below) ∧
    ∀ enter, Direct.carryOut s enter level i held w = (.ok held', w')

/-- The instruction has called a task. -/
def Called (s : Setting H) (level : Nat) (i : Instr H) (rest : List (Instr H))
    (held : Held) (w : World H) (handover : Handover) (deepens : Bool) (below : List (Frame H))
    (m' : Machine H) : Prop :=
  ∃ t handover' deepens' w', Calls s level i held.arguments w t handover' deepens' w' ∧
    below.length + 1 < s.maxFrames ∧ (deepens' = true → level < s.maxLevel) ∧
    m'.Stands w' (if deepens' then level + 1 else level)
      (Held.nothing.frame (t.work s) handover' deepens' ::
        held.frame rest handover deepens :: below)

theorem called_of_push {m₀ : Machine H} {w₀ : World H} {t : Task} {l : List (Instr H)}
    {handover' : Handover} {deepens' : Bool} (hp : m₀.push s l handover' deepens' = .go m')
    (h : m₀.Stands w₀ level (held.frame rest handover deepens :: below))
    (hc : Calls s level i held.arguments w t handover' deepens' w₀) (hl : l = t.work s) :
    Called s level i rest held w handover deepens below m' := by
  obtain ⟨hroom, hlevel, hs⟩ := stands_pushed h hl hp
  exact ⟨t, handover', deepens', w₀, hc, hroom, hlevel, hs⟩

theorem carried_or_called_node {m₀ : Machine H} {n : Node BagId}
    (h : m₀.Stands w level (held.frame rest handover deepens :: below))
    (hs : node s n m₀ = .go m') :
    Carried s level (.node n) rest held w handover deepens below m' ∨
      Called s level (.node n) rest held w handover deepens below m' := by
  obtain ⟨rfl, rfl, hf⟩ := h
  -- a node that only adds to the text
  have added : ∀ (w' : World H) (text : String),
      m' = ({ m₀ with world := w' } : Machine H).append text →
      (∀ enter, Direct.node s enter m₀.level n m₀.world = (.ok text, w')) →
      Carried s m₀.level (.node n) rest held m₀.world handover deepens below m' := by
    rintro w' text rfl hd
    have hw : ({ m₀ with world := w' } : Machine H).Stands w' m₀.level _ := ⟨rfl, rfl, hf⟩
    refine ⟨held.receive .append text, w', hw.onTop _, fun enter => ?_⟩
    rw [Direct.carryOut, hd]
    rfl
  -- and one that does not even do that
  have passed : ∀ w' : World H, m' = ({ m₀ with world := w' } : Machine H) →
      (∀ enter, Direct.node s enter m₀.level n m₀.world = (.ok "", w')) →
      Carried s m₀.level (.node n) rest held m₀.world handover deepens below m' := by
    rintro w' rfl hd
    refine ⟨held, w', ⟨rfl, rfl, hf⟩, fun enter => ?_⟩
    rw [Direct.carryOut, hd]
    show (Except.ok (held.receive .append ""), w') = _
    rw [Held.receive_nil]
  cases n with
  | text text => exact .inl (added m₀.world text (Turn.go.inj hs).symm fun _ => rfl)
  | weight k => exact .inl (passed m₀.world (Turn.go.inj hs).symm fun _ => rfl)
  | rule name mods =>
    rw [node, reference] at hs
    rcases hr : m₀.world.resolve s m₀.level name with ⟨resolution, w₁⟩
    rw [hr] at hs
    cases resolution with
    | nodes nodes deeper => exact .inr (called_of_push hs ⟨rfl, rfl, hf⟩ (.reference hr) rfl)
    | stuck obstacle =>
      refine .inl (added _ _ (Turn.go.inj hs).symm fun enter => ?_)
      rw [Direct.node, hr]
  | choice site values mods =>
    rw [node, choice] at hs
    rcases hp : m₀.world.pick .inline (.default values site) values.length with ⟨k, w₁⟩
    rw [hp] at hs
    dsimp only at hs
    cases hv : values[k]? with
    | some nodes =>
      rw [hv] at hs
      exact .inr (called_of_push hs ⟨rfl, rfl, hf⟩ (.choice hp hv) rfl)
    | none =>
      rw [hv] at hs
      refine .inl (passed _ (Turn.go.inj hs).symm fun enter => ?_)
      rw [Direct.node, hp]
      dsimp only
      rw [hv]
  | tag name values => exact .inr (called_of_push hs ⟨rfl, rfl, hf⟩ .tag rfl)
  | define name values => exact .inl (passed _ (Turn.go.inj hs).symm fun _ => rfl)
  | ifBlock c yes no => exact .inr (called_of_push hs ⟨rfl, rfl, hf⟩ .ifBlock rfl)
  | whileBlock c body => exact .inr (called_of_push hs ⟨rfl, rfl, hf⟩ .whileBlock rfl)

theorem carried_of_modify {m₀ : Machine H} {name : String}
    (h : m₀.Stands w level (held.frame rest handover deepens :: below)) :
    Carried s level (.modify name) rest held w handover deepens below (modify s name m₀) := by
  have hresult : m₀.result = held.text := h.result
  have hargs : m₀.arguments = held.arguments := h.arguments
  unfold modify
  cases hm : s.methods[name]? with
  | none =>
    refine ⟨held, w.say (.modifierUnknown name), ?_, fun enter => by rw [Direct.carryOut, hm]⟩
    rw [← h.world]
    exact h.inWorld _
  | some method =>
    refine ⟨{ held with text := (w.call method name held.text held.arguments).1 },
      (w.call method name held.text held.arguments).2, ?_, fun enter => by rw [Direct.carryOut, hm]⟩
    dsimp only
    rw [hresult, hargs, h.world]
    exact (h.inWorld _).onTop _

theorem carried_or_called_branch {m₀ : Machine H} {op : Comparison} {yes : List (Node BagId)}
    {no : Option (List (Node BagId))}
    (h : m₀.Stands w level (held.frame rest handover deepens :: below))
    (hs : branch s op yes no m₀ = .go m') :
    Carried s level (.branch op yes no) rest held w handover deepens below m' ∨
      Called s level (.branch op yes no) rest held w handover deepens below m' := by
  have hargs : m₀.arguments = held.arguments := h.arguments
  unfold branch at hs
  rw [hargs] at hs
  obtain ⟨rfl, rfl, hf⟩ := h
  cases hh : op.holds? held.arguments with
  | none => simp [hh] at hs
  | some taken =>
    rw [hh] at hs
    cases taken with
    | true => exact .inr (called_of_push hs ⟨rfl, rfl, hf⟩ (.yes hh) (work_eq_task yes))
    | false =>
      cases no with
      | some nodes => exact .inr (called_of_push hs ⟨rfl, rfl, hf⟩ (.no hh) (work_eq_task nodes))
      | none =>
        obtain rfl := Turn.go.inj hs
        refine .inl ⟨held, m₀.world.say .conditionFailed, ⟨rfl, rfl, hf⟩, fun enter => ?_⟩
        rw [Direct.carryOut, Direct.branch, hh]
        show (Except.ok (held.receive .append ""), _) = _
        rw [Held.receive_nil]

/-- **An instruction is carried out, or it calls a task.** -/
theorem carried_or_called (h : m.Stands w level (held.frame (i :: rest) handover deepens :: below))
    (hn : Next s m m') :
    Carried s level i rest held w handover deepens below m' ∨
      Called s level i rest held w handover deepens below m' := by
  have ht : (m.taken rest).Stands w level (held.frame rest handover deepens :: below) :=
    h.taken rest
  have hs : step s i (m.taken rest) = .go m' := step_eq_go h.frames rfl hn
  generalize m.taken rest = m₀ at ht hs
  cases i with
  | node n => exact carried_or_called_node ht hs
  | evaluate nodes => exact .inr (called_of_push hs ht .evaluate (work_eq_task nodes))
  | clearArguments =>
    obtain rfl := Turn.go.inj hs
    exact .inl ⟨{ held with arguments := [] }, w, ht.onTop _, fun _ => rfl⟩
  | modify name =>
    obtain rfl := Turn.go.inj hs
    exact .inl (carried_of_modify ht)
  | setTag name selector =>
    obtain rfl := Turn.go.inj hs
    have hargs : m₀.arguments = held.arguments := ht.arguments
    obtain ⟨rfl, rfl, hf⟩ := ht
    refine .inl ⟨{ held with arguments := [] }, m₀.world.setTag m₀.level name held.arguments
      selector, ?_, fun _ => rfl⟩
    rw [hargs]
    have hw : ({ m₀ with world := m₀.world.setTag m₀.level name held.arguments selector } :
      Machine H).Stands _ m₀.level _ := ⟨rfl, rfl, hf⟩
    exact hw.onTop _
  | branch op yes no => exact carried_or_called_branch ht hs

end Step

end Machine

end TemplateGrammar
