import TemplateGrammar.Expansion.Countdown
import TemplateGrammar.Expansion.Move

/-!
# Running the machine

`Machine.run` steps a machine until it stops, and `Machine.expand` starts it on a list of nodes.
That it stops is proved with the countdown of the work left on each frame: a step takes an
instruction off the top frame and may put one frame above it, or it takes away a frame; and the
stack never holds more frames than the limit.
-/

namespace TemplateGrammar.Machine

variable {H : Type}

/-- The work left on each frame, the top one first. -/
def workLeft (m : Machine H) : List Nat :=
  m.frames.toList.map fun f => f.pending.length

theorem length_workLeft (m : Machine H) : m.workLeft.length = m.frames.height := by
  rw [workLeft, List.length_map, Stack.length_toList]

theorem workLeft_eq_outline (m : Machine H) : m.workLeft = m.outline.map fun o => o.1.length := by
  rw [workLeft, outline, List.map_map]
  rfl

theorem pending_handOver (child parent : Frame H) :
    (handOver child parent).pending = parent.pending := by
  unfold handOver
  split <;> rfl

/-! ### What a step does to the stack -/

/-- **A step takes work off the top frame, or takes the frame away.** -/
theorem workLeft_advance {s : Setting H} {m m' : Machine H} (h : m.advance s = .running m') :
    (∃ k below, m.workLeft = (k + 1) :: below ∧
      (m'.workLeft = k :: below ∨
        ∃ j, m'.workLeft = j :: k :: below ∧ below.length + 1 < s.maxFrames)) ∨
    (∃ k, m.workLeft = k :: m'.workLeft) := by
  rcases advance_eq_running h with ⟨top, below, i, rest, hf, hp, hs⟩
    | ⟨top, parent, lower, hf, _, hm⟩
  · left
    have hw : (m.taken rest).workLeft = rest.length :: below.map fun f => f.pending.length := by
      rw [workLeft, toList_taken rest hf]
      rfl
    refine ⟨rest.length, below.map fun f => f.pending.length, ?_, ?_⟩
    · rw [workLeft, hf, List.map_cons, hp]
      rfl
    · have hd := does_step s i (m.taken rest)
      rw [hs] at hd
      cases hd with
      | work outline =>
        left
        rw [workLeft_eq_outline, outline, ← workLeft_eq_outline, hw]
      | entry frame frames room =>
        right
        refine ⟨frame.pending.length, ?_, ?_⟩
        · rw [workLeft, frames, List.map_cons, ← workLeft, hw]
        · rw [← length_workLeft, hw, List.length_cons] at room
          exact room
  · right
    refine ⟨top.pending.length, ?_⟩
    rw [workLeft, workLeft, hf, hm.frames, List.map_cons, List.map_cons, List.map_cons,
      pending_handOver]

theorem height_frames_advance {s : Setting H} {m m' : Machine H} (h : m.advance s = .running m')
    (hm : m.frames.height ≤ s.maxFrames) : m'.frames.height ≤ s.maxFrames := by
  rw [← length_workLeft] at hm ⊢
  rcases workLeft_advance h with ⟨k, below, h1, h2 | ⟨j, h2, h3⟩⟩ | ⟨k, h1⟩
  · rw [h1] at hm
    rw [h2]
    simpa using hm
  · rw [h2, List.length_cons, List.length_cons]
    exact h3
  · rw [h1, List.length_cons] at hm
    omega

/-- The countdown of a machine. -/
def countdown (n : Nat) (m : Machine H) : Countdown n :=
  Countdown.ofWork n m.workLeft.reverse

/-- **Every step counts down.** -/
theorem countdown_advance {s : Setting H} {m m' : Machine H} (h : m.advance s = .running m')
    (hm : m.frames.height ≤ s.maxFrames) :
    (Countdown.order s.maxFrames).rel (m'.countdown s.maxFrames) (m.countdown s.maxFrames) := by
  rw [← length_workLeft] at hm
  unfold countdown
  rcases workLeft_advance h with ⟨k, below, h1, h2 | ⟨j, h2, h3⟩⟩ | ⟨k, h1⟩
  · rw [h1, List.length_cons] at hm
    rw [h1, h2, List.reverse_cons, List.reverse_cons]
    exact Countdown.ofWork_take _ _ _ _ _ (by rw [List.length_reverse]; omega)
  · rw [h1, h2, List.reverse_cons, List.reverse_cons, List.reverse_cons, List.append_assoc]
    exact Countdown.ofWork_take _ _ _ _ _ (by rw [List.length_reverse]; omega)
  · rw [h1, List.length_cons] at hm
    rw [h1, List.reverse_cons]
    exact Countdown.ofWork_drop _ _ _ _ (by rw [List.length_reverse]; omega)

/-! ### Running -/

/-- **Step a machine until it stops.** -/
def run (s : Setting H) (m : Machine H) (fits : m.frames.height ≤ s.maxFrames) :
    Except ExpansionError String × Machine H :=
  match stepped : m.advance s with
  | .running m' => run s m' (height_frames_advance stepped fits)
  | .done text m' => (.ok text, m')
  | .failed e m' => (.error e, m')
termination_by m.countdown s.maxFrames
decreasing_by exact countdown_advance stepped fits

/-- The stack and the level are as at the start of an expansion, whatever the last one left. -/
def reset (m : Machine H) : Machine H :=
  { m with frames := m.frames.clear, level := 0 }

/-- **Begin with a list of nodes.**  The root frame is put on the cleared stack; tags that a failed
expansion left above it are dropped. -/
def begin (s : Setting H) (nodes : List (Node BagId)) (m : Machine H) : Turn H :=
  match m.reset.push s (work nodes) .append true with
  | .go m => .go { m with world := m.world.leave m.level }
  | .stop e m => .stop e m

theorem begin_eq_go {s : Setting H} {nodes : List (Node BagId)} {m m' : Machine H}
    (h : m.begin s nodes = .go m') : 1 ≤ s.maxFrames ∧ 1 ≤ s.maxLevel ∧
      m'.Stands (m.world.leave 1) 1 [⟨work nodes, "", [], .append, true⟩] := by
  unfold begin at h
  cases hp : m.reset.push s (work nodes) .append true with
  | stop e m₁ =>
    rw [hp] at h
    simp at h
  | go m₁ =>
    rw [hp] at h
    obtain rfl := Turn.go.inj h
    obtain ⟨hroom, hlevel, hs⟩ := push_eq_go hp
    have hl : m₁.level = 1 := hs.level
    refine ⟨hroom, hlevel rfl, ?_, hl, ?_⟩
    · show m₁.world.leave m₁.level = m.world.leave 1
      rw [hs.world, hl]
      rfl
    · show m₁.frames.toList = _
      rw [hs.frames, reset, Stack.toList_clear]

theorem height_frames_begin {s : Setting H} {nodes : List (Node BagId)} {m m' : Machine H}
    (h : m.begin s nodes = .go m') : m'.frames.height ≤ s.maxFrames := by
  obtain ⟨hroom, _, hs⟩ := begin_eq_go h
  rw [← Stack.length_toList, hs.frames]
  exact hroom

/-- **Expand a list of nodes.** -/
def expand (s : Setting H) (nodes : List (Node BagId)) (m : Machine H) :
    Except ExpansionError String × Machine H :=
  match began : m.begin s nodes with
  | .stop e m' => (.error e, m')
  | .go m' => run s m' (height_frames_begin began)

end TemplateGrammar.Machine
