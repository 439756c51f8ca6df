import TemplateGrammar.Expansion.Direct
import TemplateGrammar.Proofs.Expansion.Course

/-!
# The machine follows the recursive evaluator

`Mirrors s free` says it of frames: wherever `free` frames are left, a machine that puts a frame
with a task on its stack comes to the state in which that frame has been taken off again and the
frame below holds the text that `Direct.enter` answers; and if `Direct.enter` answers an error, the
machine fails with that error.  Both ways the world is the one `Direct.enter` leaves.

The proof (`mirrors`) is an induction on the number of free frames.  One level of it goes through
the recursive evaluator from the leaves up: arguments, a node, a list of nodes, a chain of
modifiers, a task (`follows_perform`), each from what is known of the frames above.
-/

namespace TemplateGrammar

/-- The work of the frame that carries out a task. -/
def Task.work {H : Type} (s : Setting H) : Task → List (Instr H)
  | .nodes ns mods => Machine.work ns ++ Machine.chainWork s mods
  | .tag name values id => Machine.tagWork name values id
  | .condition operands op yes no => Machine.conditionWork operands op yes no

/-- A frame that has been handed a text. -/
def Frame.receive {H : Type} (parent : Frame H) (handover : Handover) (text : String) : Frame H :=
  match handover with
  | .append => { parent with result := parent.result ++ text }
  | .argument => { parent with arguments := parent.arguments ++ [text] }
  | .discard => parent

theorem Direct.text_of_enter_tag {H : Type} {s : Setting H} {free level : Nat} {name : String}
    {values : List (List (Node BagId))} {id : BagId} {w w' : World H} {text : String}
    (h : Direct.enter s free level false (.tag name values id) w = (.ok text, w')) : text = "" := by
  cases free with
  | zero => simp [Direct.enter] at h
  | succ free =>
    rw [Direct.enter, Direct.perform] at h
    rcases hx : Direct.arguments (Direct.enter s free) level values w with ⟨result, w₁⟩
    rw [hx] at h
    cases result with
    | ok texts => exact (Except.ok.inj (Prod.mk.inj h).1).symm
    | error e => exact absurd (Prod.mk.inj h).1 (by simp)

namespace Machine

variable {H α β : Type} {s : Setting H}

/-- **The machine comes to what the evaluator says:** to a machine that fits its result, or to its
error. -/
def Follows (s : Setting H) (m : Machine H) (x : Expanded α H)
    (fits : α → World H → Machine H → Prop) : Prop :=
  match x with
  | (.ok a, w) => ∃ m', Reaches s m m' ∧ fits a w m'
  | (.error e, w) => ∃ m₁ m₂, Reaches s m m₁ ∧ m₁.advance s = .failed e m₂ ∧ m₂.world = w

theorem Follows.ok {m : Machine H} {a : α} {w : World H} {fits : α → World H → Machine H → Prop}
    (h : fits a w m) : Follows s m (.ok a, w) fits :=
  ⟨m, .refl, h⟩

theorem Follows.after {m m' : Machine H} {x : Expanded α H} {fits : α → World H → Machine H → Prop}
    (hr : Reaches s m m') (h : Follows s m' x fits) : Follows s m x fits := by
  obtain ⟨result, w⟩ := x
  cases result with
  | ok a =>
    obtain ⟨m₁, h₁, hf⟩ := h
    exact ⟨m₁, hr.trans h₁, hf⟩
  | error e =>
    obtain ⟨m₁, m₂, h₁, hf⟩ := h
    exact ⟨m₁, m₂, hr.trans h₁, hf⟩

theorem Follows.next {m m' : Machine H} {x : Expanded α H} {fits : α → World H → Machine H → Prop}
    (hn : m.advance s = .running m') (h : Follows s m' x fits) : Follows s m x fits :=
  h.after (.single hn)

theorem Follows.andThen {m : Machine H} {x : Expanded α H} {f : α → World H → Expanded β H}
    {fits : α → World H → Machine H → Prop} {fits' : β → World H → Machine H → Prop}
    (h : Follows s m x fits) (hf : ∀ a w m', fits a w m' → Follows s m' (f a w) fits') :
    Follows s m (Direct.andThen x f) fits' := by
  obtain ⟨result, w⟩ := x
  cases result with
  | ok a =>
    obtain ⟨m₁, h₁, ha⟩ := h
    exact (hf a w m₁ ha).after h₁
  | error e => exact h

theorem Follows.on {m : Machine H} {x : Expanded α H} {fits fits' : α → World H → Machine H → Prop}
    (h : Follows s m x fits)
    (hf : ∀ a w m', x = (.ok a, w) → fits a w m' → ∃ m'', Reaches s m' m'' ∧ fits' a w m'') :
    Follows s m x fits' := by
  obtain ⟨result, w⟩ := x
  cases result with
  | ok a =>
    obtain ⟨m₁, h₁, ha⟩ := h
    obtain ⟨m₂, h₂, hb⟩ := hf a w m₁ rfl ha
    exact ⟨m₂, h₁.trans h₂, hb⟩
  | error e => exact h

theorem Follows.imp {m : Machine H} {x : Expanded α H} {fits fits' : α → World H → Machine H → Prop}
    (h : Follows s m x fits) (hf : ∀ a w m', x = (.ok a, w) → fits a w m' → fits' a w m') :
    Follows s m x fits' :=
  h.on fun a w m' hx ha => ⟨m', .refl, hf a w m' hx ha⟩

/-- **Frames are mirrored** where so many are free. -/
def Mirrors (s : Setting H) (free : Nat) : Prop :=
  ∀ (m m₀ : Machine H) (w : World H) (level : Nat) (parent : Frame H)
    (lower : List (Frame H)) (t : Task)
    (handover : Handover) (deepens : Bool),
    m.advance s = Turn.status (m₀.push s (t.work s) handover deepens) →
    m₀.Stands w level (parent :: lower) → lower.length + 1 + free = s.maxFrames →
    Follows s m (Direct.enter s free level deepens t w) fun text w' m' =>
      m'.Stands w' level (parent.receive handover text :: lower)

/-! ### What stands in a frame -/

section Frames

variable {free level : Nat} {rest : List (Instr H)} {text : String} {args : List String}
  {handover : Handover} {deepens : Bool} {below : List (Frame H)}

theorem chainWork_nil : chainWork s [] = [] := rfl

theorem follows_evaluate (ih : Mirrors s free) (room : below.length + 1 + free = s.maxFrames)
    {m : Machine H} {w : World H} (nodes : List (Node BagId))
    (h : m.Stands w level (⟨.evaluate nodes :: rest, text, args, handover, deepens⟩ :: below)) :
    Follows s m (Direct.enter s free level false (.nodes nodes []) w) fun value w' m' =>
      m'.Stands w' level (⟨rest, text, args ++ [value], handover, deepens⟩ :: below) := by
  refine ih m (m.taken rest) w level _ below (.nodes nodes []) .argument false ?_
    (h.taken rest) room
  rw [advance_of_pending h.frames rfl, Task.work, chainWork_nil, List.append_nil]
  rfl

theorem follows_arguments (ih : Mirrors s free) (room : below.length + 1 + free = s.maxFrames)
    (values : List (List (Node BagId))) : ∀ {m : Machine H} {w : World H} {args : List String},
    m.Stands w level (⟨values.map .evaluate ++ rest, text, args, handover, deepens⟩ :: below) →
    Follows s m (Direct.arguments (Direct.enter s free) level values w) fun texts w' m' =>
      m'.Stands w' level (⟨rest, text, args ++ texts, handover, deepens⟩ :: below) := by
  induction values with
  | nil =>
    intro m w args h
    rw [Direct.arguments]
    exact .ok (by rwa [List.append_nil])
  | cons v values ihv =>
    intro m w args h
    rw [Direct.arguments]
    refine (follows_evaluate ih room v h).andThen fun value w₁ m₁ h₁ => ?_
    refine (ihv h₁).andThen fun texts w₂ m₂ h₂ => .ok ?_
    rwa [List.append_assoc] at h₂

theorem follows_append {m m₀ : Machine H} {w : World H} (more : String)
    (hs : m.advance s = .running (m₀.append more))
    (h : m₀.Stands w level (⟨rest, text, args, handover, deepens⟩ :: below)) :
    Follows s m (.ok more, w) fun more w' m' =>
      m'.Stands w' level (⟨rest, text ++ more, args, handover, deepens⟩ :: below) :=
  .next hs (.ok (h.onTop _))

/-- **One node.** -/
theorem follows_node (ih : Mirrors s free) (room : below.length + 1 + free = s.maxFrames)
    {m : Machine H} {w : World H} (n : Node BagId)
    (h : m.Stands w level (⟨.node n :: rest, text, args, handover, deepens⟩ :: below)) :
    Follows s m (Direct.node s (Direct.enter s free) level n w) fun more w' m' =>
      m'.Stands w' level (⟨rest, text ++ more, args, handover, deepens⟩ :: below) := by
  have ht := h.taken rest
  have hs : m.advance s = Turn.status (node s n (m.taken rest)) := advance_of_pending h.frames rfl
  generalize m.taken rest = m₀ at hs ht
  obtain ⟨rfl, rfl, hf⟩ := ht
  cases n with
  | text more => exact follows_append more hs ⟨rfl, rfl, hf⟩
  | weight k => exact .next hs (.ok (by rw [String.append_empty]; exact ⟨rfl, rfl, hf⟩))
  | rule name mods =>
    rw [node, reference] at hs
    rw [Direct.node]
    rcases hr : m₀.world.resolve s m₀.level name with ⟨resolution, w₁⟩
    rw [hr] at hs
    cases resolution with
    | nodes nodes deeper =>
      exact ih m _ _ m₀.level _ below (.nodes nodes mods) .append deeper hs ⟨rfl, rfl, hf⟩ room
    | stuck obstacle => exact follows_append _ hs ⟨rfl, rfl, hf⟩
  | choice site values mods =>
    rw [node, choice] at hs
    rw [Direct.node]
    rcases hp : m₀.world.pick .inline (.default values site) values.length with ⟨i, w₁⟩
    rw [hp] at hs
    dsimp only at hs ⊢
    cases hv : values[i]? with
    | some nodes =>
      rw [hv] at hs
      exact ih m _ _ m₀.level _ below (.nodes nodes mods) .append false hs ⟨rfl, rfl, hf⟩ room
    | none =>
      rw [hv] at hs
      exact .next hs (.ok (by rw [String.append_empty]; exact ⟨rfl, rfl, hf⟩))
  | tag name values =>
    rw [node] at hs
    rw [Direct.node]
    rcases hb : m₀.world.freshBag with ⟨id, w₁⟩
    rw [hb] at hs
    refine (ih m _ _ m₀.level _ below (.tag name values id) .discard false hs
      ⟨rfl, rfl, hf⟩ room).imp ?_
    intro more w' m' hx hm'
    rwa [Direct.text_of_enter_tag hx, String.append_empty]
  | define name values => exact .next hs (.ok (by rw [String.append_empty]; exact ⟨rfl, rfl, hf⟩))
  | ifBlock c yes no =>
    exact ih m _ _ m₀.level _ below (.condition _ c.op yes no) .append false hs ⟨rfl, rfl, hf⟩ room
  | whileBlock c body =>
    exact ih m _ _ m₀.level _ below (.condition _ c.op _ none) .append false hs ⟨rfl, rfl, hf⟩ room

theorem follows_nodeList (ih : Mirrors s free) (room : below.length + 1 + free = s.maxFrames)
    (nodes : List (Node BagId)) : ∀ {m : Machine H} {w : World H} {text : String},
    m.Stands w level (⟨work nodes ++ rest, text, args, handover, deepens⟩ :: below) →
    Follows s m (Direct.nodeList s (Direct.enter s free) level nodes w) fun more w' m' =>
      m'.Stands w' level (⟨rest, text ++ more, args, handover, deepens⟩ :: below) := by
  induction nodes with
  | nil =>
    intro m w text h
    rw [Direct.nodeList]
    exact .ok (by rwa [String.append_empty])
  | cons n nodes ihn =>
    intro m w text h
    rw [Direct.nodeList]
    refine (follows_node ih room n h).andThen fun first w₁ m₁ h₁ => ?_
    refine (ihn h₁).andThen fun more w₂ m₂ h₂ => .ok ?_
    rwa [String.append_assoc] at h₂

theorem chainWork_cons (s : Setting H) (mod : Modifier BagId) (mods : List (Modifier BagId)) :
    chainWork s (mod :: mods) =
      if (s.methods[mod.name]?).isSome then modifierWork mod ++ chainWork s mods
        else chainWork s mods := by
  rw [chainWork, List.filter_cons, Std.ExtTreeMap.contains_eq_isSome_getElem?]
  split
  · rw [List.flatMap_cons]
    rfl
  · rfl

theorem reaches_called {name : String} {method : Method H} (hm : s.methods[name]? = some method)
    {m : Machine H} {w : World H} (h : m.Stands w level
      (⟨[.modify name, .clearArguments] ++ rest, text, args, handover, deepens⟩ :: below)) :
    ∃ m', Reaches s m m' ∧ m'.Stands (w.call method name text args).2 level
      (⟨rest, (w.call method name text args).1, [], handover, deepens⟩ :: below) := by
  have h₁ := h.taken (.clearArguments :: rest)
  have hs₁ : m.advance s = .running (modify s name (m.taken (.clearArguments :: rest))) :=
    advance_of_pending h.frames rfl
  rw [modify, hm] at hs₁
  dsimp only at hs₁
  rw [h₁.result, h₁.arguments, h₁.world] at hs₁
  have h₂ := (h₁.inWorld (w.call method name text args).2).onTop fun top =>
    { top with result := (w.call method name text args).1 }
  have hs₂ := advance_of_pending (s := s) h₂.frames rfl
  exact ⟨_, .tail (.single hs₁) hs₂, (h₂.taken rest).onTop _⟩

theorem follows_modify (ih : Mirrors s free) (room : below.length + 1 + free = s.maxFrames)
    (mods : List (Modifier BagId)) : ∀ {m : Machine H} {w : World H} {text : String},
    m.Stands w level (⟨chainWork s mods, text, [], handover, deepens⟩ :: below) →
    Follows s m (Direct.modify s (Direct.enter s free) level mods text w) fun out w' m' =>
      m'.Stands w' level (⟨[], out, [], handover, deepens⟩ :: below) := by
  induction mods with
  | nil =>
    intro m w text h
    exact .ok h
  | cons mod mods ihm =>
    intro m w text h
    rw [Direct.modify]
    cases hm : s.methods[mod.name]? with
    | none =>
      rw [chainWork_cons, hm] at h
      exact ihm h
    | some method =>
      rw [chainWork_cons, hm] at h
      have h : m.Stands w level
          (⟨mod.parameters.map .evaluate ++ ([.modify mod.name, .clearArguments] ++
            chainWork s mods), text, [], handover, deepens⟩ :: below) := by
        rwa [← List.append_assoc]
      refine (follows_arguments ih room mod.parameters h).andThen fun texts w₁ m₁ h₁ => ?_
      obtain ⟨m₂, hr, h₂⟩ := reaches_called hm h₁
      exact (ihm h₂).after hr

theorem follows_branch (ih : Mirrors s free) (room : below.length + 1 + free = s.maxFrames)
    {m : Machine H} {w : World H} (op : Comparison) (yes : List (Node BagId))
    (no : Option (List (Node BagId)))
    (h : m.Stands w level (⟨.branch op yes no :: rest, text, args, handover, deepens⟩ :: below)) :
    Follows s m (Direct.branch (Direct.enter s free) level op yes no args w) fun more w' m' =>
      m'.Stands w' level (⟨rest, text ++ more, args, handover, deepens⟩ :: below) := by
  have ht := h.taken rest
  have hs : m.advance s = Turn.status (branch s op yes no (m.taken rest)) :=
    advance_of_pending h.frames rfl
  have ha := ht.arguments
  generalize m.taken rest = m₀ at hs ht ha
  obtain ⟨rfl, rfl, hf⟩ := ht
  unfold branch at hs
  rw [ha] at hs
  rw [Direct.branch]
  dsimp only at hs
  -- a block without modifiers is entered
  have entered : ∀ (w₁ : World H) (nodes : List (Node BagId)),
      m.advance s = Turn.status (({ m₀ with world := w₁ } : Machine H).push s (work nodes)
        .append false) →
      Follows s m (Direct.enter s free m₀.level false (.nodes nodes []) w₁) fun more w' m' =>
        m'.Stands w' m₀.level (⟨rest, text ++ more, args, handover, deepens⟩ :: below) := by
    intro w₁ nodes hn
    refine ih m { m₀ with world := w₁ } w₁ m₀.level _ below (.nodes nodes []) .append false ?_
      ⟨rfl, rfl, hf⟩ room
    rw [hn, Task.work, chainWork_nil, List.append_nil]
  cases hh : op.holds? args with
  | none =>
    rw [hh] at hs
    exact ⟨m, m₀, .refl, hs, rfl⟩
  | some taken =>
    rw [hh] at hs
    cases taken with
    | true => exact entered _ yes hs
    | false =>
      cases no with
      | some nodes => exact entered _ nodes hs
      | none => exact .next hs (.ok (by rw [String.append_empty]; exact ⟨rfl, rfl, hf⟩))

/-- **A task,** from a frame that has all its work to do to the frame that has done it. -/
theorem follows_perform (ih : Mirrors s free) (room : below.length + 1 + free = s.maxFrames)
    {m : Machine H} {w : World H} (t : Task)
    (h : m.Stands w level (⟨t.work s, "", [], handover, deepens⟩ :: below)) :
    Follows s m (Direct.perform s (Direct.enter s free) level t w) fun text w' m' =>
      ∃ args, m'.Stands w' level (⟨[], text, args, handover, deepens⟩ :: below) := by
  cases t with
  | nodes nodes mods =>
    refine (follows_nodeList ih room nodes h).andThen fun text w₁ m₁ h₁ => ?_
    rw [String.empty_append] at h₁
    exact (follows_modify ih room mods h₁).imp fun _ _ _ _ h₂ => ⟨[], h₂⟩
  | tag name values site =>
    refine (follows_arguments ih room values h).andThen fun texts w₁ m₁ h₁ => ?_
    rw [List.nil_append] at h₁
    have ht := h₁.taken []
    have ha := ht.arguments
    have hs : m₁.advance s = Turn.status (step s (.setTag name (.default values site))
        (m₁.taken [])) :=
      advance_of_pending h₁.frames rfl
    generalize m₁.taken [] = m₂ at hs ht ha
    obtain ⟨rfl, rfl, hf⟩ := ht
    rw [step, ha] at hs
    have hw : ({ m₂ with world := m₂.world.setTag m₂.level name texts (.default values site) } :
      Machine H).Stands
        (m₂.world.setTag m₂.level name texts (.default values site)) m₂.level _ := ⟨rfl, rfl, hf⟩
    exact .next hs (.ok ⟨[], hw.onTop _⟩)
  | condition operands op yes no =>
    refine (follows_arguments ih room operands h).andThen fun texts w₁ m₁ h₁ => ?_
    rw [List.nil_append] at h₁
    refine (follows_branch ih room op yes no h₁).imp fun text w₂ m₂ _ h₂ => ?_
    rw [String.empty_append] at h₂
    exact ⟨texts, h₂⟩

end Frames

/-! ### Frames -/

theorem reaches_popped {m : Machine H} {w : World H} {level : Nat} {text : String}
    {args : List String} {handover : Handover} {deepens : Bool} {parent : Frame H}
    {lower : List (Frame H)}
    (h : m.Stands w level (⟨[], text, args, handover, deepens⟩ :: parent :: lower)) :
    ∃ m', Reaches s m m' ∧ m'.Stands (worldBelow deepens level w) (levelBelow deepens level)
      (parent.receive handover text :: lower) := by
  have hp := popped_pop h.frames
  refine ⟨_, .single (advance_of_idle s h.frames rfl), ?_, ?_, ?_⟩
  · rw [hp.world, h.level, h.world]
  · rw [hp.level, h.level]
  · rw [hp.frames]
    rfl

/-- **Wherever so many frames are free, the machine follows the evaluator.** -/
theorem mirrors (s : Setting H) (free : Nat) : Mirrors s free := by
  induction free with
  | zero =>
    intro m m₀ w level parent lower t handover deepens hs h room
    have hh : m₀.frames.height = lower.length + 1 := by
      rw [← Stack.length_toList, h.frames, List.length_cons]
    rw [push, if_pos (by omega)] at hs
    rw [Direct.enter]
    exact ⟨m, _, .refl, hs, by rw [← h.world]; rfl⟩
  | succ free ih =>
    intro m m₀ w level parent lower t handover deepens hs h room
    have hh : m₀.frames.height = lower.length + 1 := by
      rw [← Stack.length_toList, h.frames, List.length_cons]
    have room' : (parent :: lower).length + 1 + free = s.maxFrames := by
      rw [List.length_cons]
      omega
    -- the machine whose new frame has all its work to do
    have entered : ∀ level' : Nat,
        ({ m₀ with
          frames := m₀.frames.push ⟨t.work s, "", [], handover, deepens⟩
          level := level' } : Machine H).Stands w level'
            (⟨t.work s, "", [], handover, deepens⟩ :: parent :: lower) := by
      intro level'
      refine ⟨h.world, rfl, ?_⟩
      rw [Stack.toList_push, h.frames]
    rw [push, if_neg (by omega), h.level] at hs
    cases deepens with
    | false =>
      rw [Direct.enter]
      refine .next hs ((follows_perform ih room' t (entered level)).on ?_)
      rintro text w₁ m₁ _ ⟨args, h₁⟩
      exact reaches_popped h₁
    | true =>
      rw [Direct.enter]
      by_cases hl : s.maxLevel < level + 1
      · rw [if_pos (by simpa using hl)] at hs
        rw [if_pos hl]
        exact ⟨m, _, .refl, hs, by rw [← h.world]; rfl⟩
      · rw [if_neg (by simpa using hl)] at hs
        rw [if_neg hl]
        refine .next hs ((follows_perform ih room' t (entered (level + 1))).andThen ?_)
        rintro text w₁ m₁ ⟨args, h₁⟩
        obtain ⟨m₂, hr, h₂⟩ := reaches_popped h₁
        exact .after hr (.ok h₂)

/-! ### The root -/

theorem expand_of_begin_stop {nodes : List (Node BagId)} {m m' : Machine H} {e : ExpansionError}
    (h : m.begin s nodes = .stop e m') : Direct.expand s nodes m.world = (.error e, m'.world) := by
  unfold begin push at h
  rw [Direct.expand]
  have hh : m.reset.frames.height = 0 := rfl
  rw [hh] at h
  cases hm : s.maxFrames with
  | zero =>
    rw [hm, if_pos (Nat.le_refl 0)] at h
    obtain ⟨rfl, rfl⟩ := Turn.stop.inj h
    rfl
  | succ free =>
    rw [hm, if_neg (Nat.not_succ_le_zero free)] at h
    by_cases hl : s.maxLevel = 0
    · rw [if_pos (by simp [hl])] at h
      obtain ⟨rfl, rfl⟩ := Turn.stop.inj h
      dsimp only
      rw [if_pos hl, hl]
      rfl
    · rw [if_neg (by simp [reset]; omega)] at h
      simp at h

/-- **The run of the root follows the evaluator,** whatever the machine was before. -/
theorem follows_begin {nodes : List (Node BagId)} {m m₀ : Machine H}
    (h : m.begin s nodes = .go m₀) : Follows s m₀ (Direct.expand s nodes m.world) fun text w' m' =>
      ∃ args, m'.Stands w' 1 [⟨[], text, args, .append, true⟩] := by
  obtain ⟨hroom, hlevel, h₀⟩ := begin_eq_go h
  rw [Direct.expand]
  cases hm : s.maxFrames with
  | zero => omega
  | succ free =>
    dsimp only
    rw [if_neg (by omega)]
    have hs : m₀.Stands (m.world.leave 1) 1 [⟨(Task.nodes nodes []).work s, "", [],
        .append, true⟩] := by
      rw [Task.work, chainWork_nil, List.append_nil]
      exact h₀
    exact follows_perform (mirrors s free) (by rw [hm, List.length_nil]; omega) (.nodes nodes []) hs

end Machine

end TemplateGrammar
