import TemplateGrammar.Expansion.Machine

/-!
# What a step does

Whatever is proved of all runs rests on two statements.  `does_step` says all that an instruction
does to the stack, the level and the tags: it works on the top frame, where it may write a tag, or
it puts one frame on top, within both limits.  `advance_eq_running` says all that a step does: it
carries out the next instruction of the top frame, or it takes away a frame whose work is done and
which is not the last.
-/

namespace TemplateGrammar

/-- What of a frame stays while an instruction works on it: the rest of its work, and what is to
happen when it is taken off. -/
def Frame.outline {H : Type} (f : Frame H) : List (Instr H) × Handover × Bool :=
  (f.pending, f.handover, f.deepens)

namespace Machine

variable {H : Type}

/-- **Where a machine stands:** its world, its level and its frames, the top one first. -/
structure Stands (m : Machine H) (w : World H) (level : Nat) (frames : List (Frame H)) : Prop where
  world : m.world = w
  level : m.level = level
  frames : m.frames.toList = frames

/-- The outlines of the frames, the top one first. -/
def outline (m : Machine H) : List (List (Instr H) × Handover × Bool) :=
  m.frames.toList.map Frame.outline

/-- **What an instruction may do.**  It changes the text or the arguments of the top frame and
perhaps writes a tag on the present level, or it puts a frame on the stack. -/
inductive Effect (s : Setting H) (m m' : Machine H) : Prop where
  | work (outline : m'.outline = m.outline) (level : m'.level = m.level)
      (tags : m'.world.tags = m.world.tags ∨
        ∃ name tag, m'.world.tags = m.world.tags.store m.level name tag)
  | entry (frame : Frame H) (frames : m'.frames.toList = frame :: m.frames.toList)
      (room : m.frames.height < s.maxFrames)
      (level : m'.level = if frame.deepens then m.level + 1 else m.level)
      (shallow : frame.deepens = true → m.level < s.maxLevel)
      (tags : m'.world.tags = m.world.tags)

/-- What an instruction leads to, if it does not stop, is an effect of it. -/
def Does (s : Setting H) (m : Machine H) : Turn H → Prop
  | .go m' => Effect s m m'
  | .stop _ _ => True

/-! ### One instruction -/

theorem outline_onTop (m : Machine H) (f : Frame H → Frame H) (h : ∀ t, (f t).outline = t.outline) :
    (m.onTop f).outline = m.outline := by
  rw [outline, outline, onTop, Stack.toList_onTop]
  cases m.frames.toList with
  | nil => rfl
  | cons top below => rw [List.map_cons, List.map_cons, h]

/-- **A frame that was put on the stack** is there, and both limits had room for it. -/
theorem push_eq_go {s : Setting H} {l : List (Instr H)} {handover : Handover} {deepens : Bool}
    {m m' : Machine H} (h : m.push s l handover deepens = .go m') :
    m.frames.height < s.maxFrames ∧ (deepens = true → m.level < s.maxLevel) ∧
      m'.Stands m.world (if deepens then m.level + 1 else m.level)
        (⟨l, "", [], handover, deepens⟩ :: m.frames.toList) := by
  unfold push at h
  split at h
  · simp at h
  · rename_i hroom
    split at h
    · simp at h
    · rename_i hlevel
      obtain rfl := Turn.go.inj h
      refine ⟨Nat.lt_of_not_le hroom, ?_, rfl, rfl, Stack.toList_push _ _⟩
      intro hd
      simp only [hd, Bool.true_and, decide_eq_true_eq] at hlevel
      omega

theorem does_push (s : Setting H) (l : List (Instr H)) (handover : Handover) (deepens : Bool)
    {m m' : Machine H} (hf : m'.frames = m.frames) (hl : m'.level = m.level)
    (ht : m'.world.tags = m.world.tags) : Does s m (m'.push s l handover deepens) := by
  cases hp : m'.push s l handover deepens with
  | stop e m₁ => trivial
  | go m₁ =>
    obtain ⟨hroom, hlevel, h₁⟩ := push_eq_go hp
    rw [hf] at hroom
    rw [hl] at hlevel
    refine .entry ⟨l, "", [], handover, deepens⟩ ?_ hroom ?_ hlevel ?_
    · rw [h₁.frames, hf]
    · rw [h₁.level, hl]
    · rw [h₁.world, ht]

theorem does_pushChain (s : Setting H) (nodes : List (Node BagId)) (mods : List (Modifier BagId))
    (deepens : Bool) {m m' : Machine H} (hf : m'.frames = m.frames) (hl : m'.level = m.level)
    (ht : m'.world.tags = m.world.tags) : Does s m (pushChain s nodes mods deepens m') :=
  does_push s _ _ _ hf hl (by rw [← ht]; exact World.tags_sayAll _ _)

theorem does_append {s : Setting H} {m m' : Machine H} (text : String) (hf : m'.frames = m.frames)
    (hl : m'.level = m.level) (ht : m'.world.tags = m.world.tags) :
    Does s m (.go (m'.append text)) := by
  have h : (m'.append text).outline = m'.outline := outline_onTop m' _ fun _ => rfl
  refine .work (h.trans ?_) hl (.inl ht)
  rw [outline, outline, hf]

theorem does_reference (s : Setting H) (name : String) (mods : List (Modifier BagId))
    (m : Machine H) : Does s m (reference s name mods m) := by
  have ht := World.tags_resolve s m.level name m.world
  unfold reference
  split
  · rename_i hr
    rw [hr] at ht
    exact does_pushChain s _ _ _ rfl rfl ht
  · rename_i hr
    rw [hr] at ht
    exact does_append _ rfl rfl ht

theorem does_choice (s : Setting H) (site : BagId) (values : List (List (Node BagId)))
    (mods : List (Modifier BagId)) (m : Machine H) : Does s m (choice s site values mods m) := by
  unfold choice
  dsimp only
  split
  · exact does_pushChain s _ _ _ rfl rfl rfl
  · exact .work rfl rfl (.inl rfl)

theorem does_node (s : Setting H) (n : Node BagId) (m : Machine H) : Does s m (node s n m) := by
  unfold node
  cases n with
  | text text => exact does_append _ rfl rfl rfl
  | weight n => exact .work rfl rfl (.inl rfl)
  | rule name mods => exact does_reference s name mods m
  | choice site values mods => exact does_choice s site values mods m
  | tag name values => exact does_push s _ _ _ rfl rfl rfl
  | define name values => exact .work rfl rfl (.inl rfl)
  | ifBlock c yes no => exact does_push s _ _ _ rfl rfl rfl
  | whileBlock c body => exact does_push s _ _ _ rfl rfl rfl

theorem does_modify (s : Setting H) (name : String) (m : Machine H) :
    Does s m (.go (modify s name m)) := by
  unfold modify
  split
  · exact .work rfl rfl (.inl rfl)
  · exact .work (outline_onTop _ _ fun _ => rfl) rfl (.inl rfl)

theorem does_setTag (s : Setting H) (name : String) (selector : Selector H) (m : Machine H) :
    Does s m (step s (.setTag name selector) m) :=
  .work (outline_onTop _ _ fun _ => rfl) rfl (.inr ⟨name, _, World.tags_setTag _ _ _ _ _⟩)

theorem does_branch (s : Setting H) (op : Comparison) (yes : List (Node BagId))
    (no : Option (List (Node BagId))) (m : Machine H) : Does s m (branch s op yes no m) := by
  unfold branch
  split
  · trivial
  · exact does_push s _ _ _ rfl rfl rfl
  · split
    · exact does_push s _ _ _ rfl rfl rfl
    · exact .work rfl rfl (.inl rfl)

/-- **An instruction works on the top frame, or puts one frame on top.** -/
theorem does_step (s : Setting H) (i : Instr H) (m : Machine H) : Does s m (step s i m) := by
  cases i with
  | node n => exact does_node s n m
  | evaluate nodes => exact does_push s _ _ _ rfl rfl rfl
  | clearArguments => exact .work (outline_onTop _ _ fun _ => rfl) rfl (.inl rfl)
  | modify name => exact does_modify s name m
  | setTag name selector => exact does_setTag s name selector m
  | branch op yes no => exact does_branch s op yes no m

/-! ### One step -/

/-- What an instruction leads to, as a status. -/
def Turn.status : Turn H → Status H
  | .go m => .running m
  | .stop e m => .failed e m

/-- The machine whose top frame has handed out an instruction, and has this work left. -/
def taken (rest : List (Instr H)) (m : Machine H) : Machine H :=
  m.onTop fun top => { top with pending := rest }

theorem toList_taken {m : Machine H} {top : Frame H} {below : List (Frame H)}
    (rest : List (Instr H)) (h : m.frames.toList = top :: below) :
    (m.taken rest).frames.toList = { top with pending := rest } :: below := by
  show (m.frames.onTop _).toList = _
  rw [Stack.toList_onTop, h]

theorem top?_of_toList {m : Machine H} {top : Frame H} {below : List (Frame H)}
    (h : m.frames.toList = top :: below) : m.frames.top? = some top := by
  rw [Stack.top?_eq_head?, h]
  rfl

theorem advance_of_pending {s : Setting H} {m : Machine H} {top : Frame H} {below : List (Frame H)}
    {i : Instr H} {rest : List (Instr H)} (h : m.frames.toList = top :: below)
    (hp : top.pending = i :: rest) : m.advance s = Turn.status (step s i (m.taken rest)) := by
  unfold advance
  rw [top?_of_toList h]
  dsimp only
  rw [hp]
  show (match step s i (m.taken rest) with
    | .go m => Status.running m
    | .stop e m => .failed e m) = _
  cases step s i (m.taken rest) <;> rfl

theorem step_eq_go {s : Setting H} {m m' : Machine H} {top : Frame H}
    {below : List (Frame H)} {i : Instr H} {rest : List (Instr H)}
    (h : m.frames.toList = top :: below) (hp : top.pending = i :: rest)
    (hn : m.advance s = .running m') : step s i (m.taken rest) = .go m' := by
  rw [advance_of_pending h hp] at hn
  cases hs : step s i (m.taken rest) with
  | go m₁ =>
    rw [hs] at hn
    rw [Status.running.inj hn]
  | stop e m₁ =>
    rw [hs] at hn
    simp [Turn.status] at hn

theorem advance_of_root {m : Machine H} {top : Frame H} (s : Setting H)
    (h : m.frames.toList = [top]) (hp : top.pending = []) :
    m.advance s = .done top.result { m with frames := m.frames.clear } := by
  unfold advance
  rw [top?_of_toList h]
  dsimp only
  rw [hp]
  dsimp only
  rw [if_pos (by rw [← Stack.length_toList, h]; rfl)]

/-- The level after a frame was taken off. -/
def levelBelow (deepens : Bool) (level : Nat) : Nat :=
  if deepens then level - 1 else level

/-- The world after a frame was taken off, from the level the frame was on. -/
def worldBelow (deepens : Bool) (level : Nat) (w : World H) : World H :=
  if deepens then w.leave (level - 1) else w

/-- **A machine after its top frame was taken off.** -/
structure Popped (m m' : Machine H) (top parent : Frame H) (lower : List (Frame H)) : Prop where
  frames : m'.frames.toList = handOver top parent :: lower
  level : m'.level = levelBelow top.deepens m.level
  world : m'.world = worldBelow top.deepens m.level m.world

theorem popped_pop {m : Machine H} {top parent : Frame H} {lower : List (Frame H)}
    (h : m.frames.toList = top :: parent :: lower) :
    Popped m (m.pop top.deepens) top parent lower := by
  have hh : ¬m.frames.height < 2 := by rw [← Stack.length_toList, h]; simp
  have hl := Stack.toList_pop handOver h
  unfold pop
  rw [if_neg hh]
  refine ⟨?_, ?_, ?_⟩
  · cases top.deepens <;> exact hl
  · cases top.deepens <;> rfl
  · cases top.deepens <;> rfl

/-- A frame without work left is taken off, and hands its text to the one below it. -/
theorem advance_of_idle {m : Machine H} {top parent : Frame H} {lower : List (Frame H)}
    (s : Setting H) (h : m.frames.toList = top :: parent :: lower) (hp : top.pending = []) :
    m.advance s = .running (m.pop top.deepens) := by
  unfold advance
  rw [top?_of_toList h]
  dsimp only
  rw [hp]
  dsimp only
  rw [if_neg (by rw [← Stack.length_toList, h]; simp)]

/-- **A step that goes on** carries out an instruction of the top frame, or takes away a frame whose
work is done. -/
theorem advance_eq_running {s : Setting H} {m m' : Machine H} (h : m.advance s = .running m') :
    (∃ top below i rest, m.frames.toList = top :: below ∧ top.pending = i :: rest ∧
      step s i (m.taken rest) = .go m') ∨
    (∃ top parent lower, m.frames.toList = top :: parent :: lower ∧ top.pending = [] ∧
      Popped m m' top parent lower) := by
  cases hl : m.frames.toList with
  | nil =>
    have ht : m.frames.top? = none := by rw [Stack.top?_eq_head?, hl]; rfl
    rw [advance, ht] at h
    simp at h
  | cons top below =>
    cases hp : top.pending with
    | cons i rest =>
      left
      exact ⟨top, below, i, rest, rfl, hp, step_eq_go hl hp h⟩
    | nil =>
      cases below with
      | nil =>
        rw [advance_of_root s hl hp] at h
        simp at h
      | cons parent lower =>
        right
        rw [advance_of_idle s hl hp] at h
        obtain rfl := Status.running.inj h
        exact ⟨top, parent, lower, rfl, hp, popped_pop hl⟩

/-! ### Where a machine stands -/

theorem Stands.taken {m : Machine H} {w : World H} {level : Nat} {top : Frame H}
    {below : List (Frame H)} (h : m.Stands w level (top :: below)) (rest : List (Instr H)) :
    (m.taken rest).Stands w level ({ top with pending := rest } :: below) :=
  ⟨h.world, h.level, toList_taken rest h.frames⟩

theorem Stands.onTop {m : Machine H} {w : World H} {level : Nat} {top : Frame H}
    {below : List (Frame H)} (h : m.Stands w level (top :: below)) (f : Frame H → Frame H) :
    (m.onTop f).Stands w level (f top :: below) := by
  refine ⟨h.world, h.level, ?_⟩
  show (m.frames.onTop f).toList = _
  rw [Stack.toList_onTop, h.frames]

theorem Stands.arguments {m : Machine H} {w : World H} {level : Nat} {top : Frame H}
    {below : List (Frame H)} (h : m.Stands w level (top :: below)) :
    m.arguments = top.arguments := by
  rw [Machine.arguments, top?_of_toList h.frames]

theorem Stands.result {m : Machine H} {w : World H} {level : Nat} {top : Frame H}
    {below : List (Frame H)} (h : m.Stands w level (top :: below)) : m.result = top.result := by
  rw [Machine.result, top?_of_toList h.frames]

theorem Stands.inWorld {m : Machine H} {w : World H} {level : Nat} {frames : List (Frame H)}
    (h : m.Stands w level frames) (w' : World H) :
    ({ m with world := w' } : Machine H).Stands w' level frames :=
  ⟨rfl, h.level, h.frames⟩

end Machine

end TemplateGrammar
