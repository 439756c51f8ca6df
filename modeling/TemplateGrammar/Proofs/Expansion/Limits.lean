import TemplateGrammar.Expansion.Direct

/-!
# Limits only cut off

An expansion looks at its limits in one place, where a frame is entered, and all that it can learn
there is that it has to stop.  So when limits are raised, nothing changes as long as the expansion
was not stopped by one of those that are raised (`steady_expand`): the same text or error comes out,
and the same world.

Outcomes are compared by `Steady`, which asks for equality only where no raised limit has spoken.
It goes through every function of the evaluator, whatever frames are entered with, and then up
through the number of free frames.
-/

namespace TemplateGrammar

variable {H : Type}

/-- The setting with room for so many more levels and frames. -/
def Setting.raised (s : Setting H) (levels frames : Nat) : Setting H :=
  { s with maxLevel := s.maxLevel + levels, maxFrames := s.maxFrames + frames }

namespace Direct

variable {α β : Type} {s : Setting H} {levels frames : Nat} {entrance higher : Entrance H}

/-- **Not stopped by a limit that is raised.** -/
structure Unbarred (s : Setting H) (levels frames : Nat) (x : Expanded α H) : Prop where
  level : x.1 = .error (.levelLimit s.maxLevel) → levels = 0
  frame : x.1 = .error (.frameLimit s.maxFrames) → frames = 0

/-- The second outcome is the first, unless a limit that is raised has stopped the first. -/
def Steady (s : Setting H) (levels frames : Nat) (x y : Expanded α H) : Prop :=
  Unbarred s levels frames x → y = x

/-- Entering a frame is steady. -/
def EntersSteady (s : Setting H) (levels frames : Nat) (enter higher : Entrance H) : Prop :=
  ∀ level deepens t w, Steady s levels frames (enter level deepens t w) (higher level deepens t w)

theorem steady_same (x : Expanded α H) : Steady s levels frames x x :=
  fun _ => rfl

theorem Steady.andThen {x y : Expanded α H} {f g : α → World H → Expanded β H}
    (h : Steady s levels frames x y) (hfg : ∀ a w, Steady s levels frames (f a w) (g a w)) :
    Steady s levels frames (Direct.andThen x f) (Direct.andThen y g) := by
  intro hu
  obtain ⟨result, w⟩ := x
  cases result with
  | ok a =>
    have hy : y = (.ok a, w) := h ⟨fun he => by simp at he, fun he => by simp at he⟩
    rw [hy]
    exact hfg a w hu
  | error e =>
    -- the error stands in what comes out, so it is not one of a raised limit
    have hy : y = (.error e, w) := by
      refine h ⟨fun he => hu.level ?_, fun he => hu.frame ?_⟩
      · exact congrArg Except.error (Except.error.inj he)
      · exact congrArg Except.error (Except.error.inj he)
    rw [hy]
    rfl

section Entered

variable (he : EntersSteady s levels frames entrance higher)
include he

theorem steady_arguments (level : Nat) (values : List (List (Node BagId))) (w : World H) :
    Steady s levels frames (arguments entrance level values w)
      (arguments higher level values w) := by
  induction values generalizing w with
  | nil => exact steady_same _
  | cons value values ih =>
    rw [arguments, arguments]
    refine (he _ _ _ _).andThen fun text w₁ => ?_
    exact (ih w₁).andThen fun texts w₂ => steady_same _

theorem steady_block (level : Nat) (nodes : Option (List (Node BagId))) (w : World H) :
    Steady s levels frames (block entrance level nodes w) (block higher level nodes w) := by
  cases nodes with
  | none => exact steady_same _
  | some nodes => exact he _ _ _ _

theorem steady_branch (level : Nat) (op : Comparison) (yes : List (Node BagId))
    (no : Option (List (Node BagId))) (operands : List String) (w : World H) :
    Steady s levels frames (branch entrance level op yes no operands w)
      (branch higher level op yes no operands w) := by
  unfold branch
  split
  · exact steady_same _
  · exact steady_block he level _ _
  · exact steady_block he level _ _

theorem steady_node (level : Nat) (n : Node BagId) (w : World H) :
    Steady s levels frames (node s entrance level n w)
      (node (s.raised levels frames) higher level n w) := by
  cases n with
  | text text => exact steady_same _
  | weight n => exact steady_same _
  | rule name mods =>
    -- what a name stands for has nothing to do with limits
    have hr : w.resolve (s.raised levels frames) level name = w.resolve s level name := rfl
    rw [node, node, hr]
    rcases w.resolve s level name with ⟨resolution, w₁⟩
    cases resolution with
    | nodes nodes deepens => exact he _ _ _ _
    | stuck obstacle => exact steady_same _
  | choice site values mods =>
    rw [node, node]
    dsimp only
    split
    · exact he _ _ _ _
    · exact steady_same _
  | tag name values => exact he _ _ _ _
  | define name values => exact steady_same _
  | ifBlock c yes no => exact he _ _ _ _
  | whileBlock c body => exact he _ _ _ _

theorem steady_nodeList (level : Nat) (nodes : List (Node BagId)) (w : World H) :
    Steady s levels frames (nodeList s entrance level nodes w)
      (nodeList (s.raised levels frames) higher level nodes w) := by
  induction nodes generalizing w with
  | nil => exact steady_same _
  | cons n nodes ih =>
    rw [nodeList, nodeList]
    refine (steady_node he level n w).andThen fun text w₁ => ?_
    exact (ih w₁).andThen fun more w₂ => steady_same _

theorem steady_modify (level : Nat) (mods : List (Modifier BagId)) (text : String) (w : World H) :
    Steady s levels frames (modify s entrance level mods text w)
      (modify (s.raised levels frames) higher level mods text w) := by
  induction mods generalizing text w with
  | nil => exact steady_same _
  | cons mod mods ih =>
    have hm : (s.raised levels frames).methods[mod.name]? = s.methods[mod.name]? := rfl
    rw [modify, modify, hm]
    split
    · exact ih text w
    · exact (steady_arguments he level mod.parameters w).andThen fun args w₁ => ih _ _

theorem steady_perform (level : Nat) (t : Task) (w : World H) :
    Steady s levels frames (perform s entrance level t w)
      (perform (s.raised levels frames) higher level t w) := by
  cases t with
  | nodes nodes mods =>
    refine (steady_nodeList he level nodes w).andThen fun text w₁ => ?_
    exact steady_modify he level mods text w₁
  | tag name values site =>
    refine (steady_arguments he level values w).andThen fun texts w₁ => ?_
    exact steady_same _
  | condition operands op yes no =>
    refine (steady_arguments he level operands w).andThen fun texts w₁ => ?_
    exact steady_branch he level op yes no texts w₁

end Entered

/-! ### Where limits are looked at -/

/-- **Frames are entered alike,** however many are free and however many more there are. -/
theorem steady_enter (s : Setting H) (levels frames free : Nat) :
    EntersSteady s levels frames (enter s free)
      (enter (s.raised levels frames) (free + frames)) := by
  induction free with
  | zero =>
    intro level deepens t w hu
    obtain rfl : frames = 0 := hu.frame rfl
    rfl
  | succ free ih =>
    intro level deepens t w
    rw [Nat.add_right_comm]
    cases deepens with
    | false => exact steady_perform ih level t w
    | true =>
      rw [enter, enter]
      by_cases hlevel : s.maxLevel < level + 1
      · intro hu
        rw [if_pos hlevel] at hu ⊢
        obtain rfl : levels = 0 := hu.level rfl
        exact if_pos hlevel
      · have hhigher : ¬(s.raised levels frames).maxLevel < level + 1 := by
          show ¬s.maxLevel + levels < level + 1
          omega
        rw [if_neg hlevel, if_neg hhigher]
        exact (steady_perform ih (level + 1) t w).andThen fun text w₁ => steady_same _

theorem expand_of_room {s : Setting H} {free : Nat} (hframes : s.maxFrames = free + 1)
    (hlevel : s.maxLevel ≠ 0) (nodes : List (Node BagId)) (w : World H) :
    expand s nodes w = perform s (enter s free) 1 (.nodes nodes []) (w.leave 1) := by
  rw [expand, hframes]
  exact if_neg hlevel

/-- **Raised limits change no outcome** but that of an expansion which one of them has stopped. -/
theorem steady_expand (s : Setting H) (levels frames : Nat) (nodes : List (Node BagId))
    (w : World H) :
    Steady s levels frames (expand s nodes w) (expand (s.raised levels frames) nodes w) := by
  cases hframes : s.maxFrames with
  | zero =>
    have hx : expand s nodes w = (.error (.frameLimit s.maxFrames), w.say .frameLimit) := by
      rw [expand, hframes]
    intro hu
    obtain rfl : frames = 0 := hu.frame (congrArg Prod.fst hx)
    have hmore : (s.raised levels 0).maxFrames = 0 := hframes
    rw [expand, expand, hframes, hmore]
  | succ free =>
    have hmore : (s.raised levels frames).maxFrames = free + frames + 1 := by
      show s.maxFrames + frames = _
      omega
    by_cases hlevel : s.maxLevel = 0
    · have hx : expand s nodes w = (.error (.levelLimit s.maxLevel), w.say (.levelLimit 1)) := by
        rw [expand, hframes]
        exact (if_pos hlevel).trans (by rw [hlevel])
      intro hu
      obtain rfl : levels = 0 := hu.level (congrArg Prod.fst hx)
      have hnone : (s.raised 0 frames).maxLevel = 0 := hlevel
      rw [expand, expand, hframes, hmore]
      exact (if_pos hnone).trans (if_pos hlevel).symm
    · have hmoreLevels : (s.raised levels frames).maxLevel ≠ 0 := by
        show s.maxLevel + levels ≠ 0
        omega
      rw [expand_of_room hframes hlevel, expand_of_room hmore hmoreLevels]
      exact steady_perform (steady_enter s levels frames free) 1 _ _

end Direct

end TemplateGrammar
