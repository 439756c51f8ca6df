import TemplateGrammar.Proofs.Expansion.Course

/-!
# Steps, levels and tags

For what concerns the level and the tags, a frame is no more than a mark that says whether it is on
a level of its own.  `move_of_next` reads off a step what it does to the marks, the level and the
tags: nothing but perhaps writing a tag on the present level, or one mark more, or one mark less,
and then the tags above the level below are gone.
-/

namespace TemplateGrammar.Machine

variable {H : Type} {s : Setting H}

/-- Which of the frames are on a level of their own, the top one first. -/
def marks (m : Machine H) : List Bool :=
  m.frames.toList.map Frame.deepens

theorem marks_eq_outline (m : Machine H) : m.marks = m.outline.map fun o => o.2.2 := by
  rw [marks, outline, List.map_map]
  rfl

theorem length_marks (m : Machine H) : m.marks.length = m.frames.height := by
  rw [marks, List.length_map, Stack.length_toList]

theorem deepens_handOver (child parent : Frame H) :
    (handOver child parent).deepens = parent.deepens := by
  unfold handOver
  split <;> rfl

theorem marks_taken {m : Machine H} {top : Frame H} {below : List (Frame H)} (rest : List (Instr H))
    (h : m.frames.toList = top :: below) : (m.taken rest).marks = m.marks := by
  rw [marks, marks, toList_taken rest h, h]
  rfl

/-- **What a step does** to the marks, the level and the tags. -/
inductive Move (s : Setting H) (m m' : Machine H) : Prop where
  | work (marks : m'.marks = m.marks) (level : m'.level = m.level)
      (tags : m'.world.tags = m.world.tags ∨
        ∃ name tag, m'.world.tags = m.world.tags.store m.level name tag)
  | entry (deepens : Bool) (marks : m'.marks = deepens :: m.marks)
    (room : m.marks.length < s.maxFrames)
      (level : m'.level = if deepens then m.level + 1 else m.level)
      (shallow : deepens = true → m.level < s.maxLevel) (tags : m'.world.tags = m.world.tags)
  | exit (deepens : Bool) (marks : m.marks = deepens :: m'.marks) (rest : m'.marks ≠ [])
      (level : m'.level = if deepens then m.level - 1 else m.level)
      (tags : m'.world.tags = if deepens then m.world.tags.leave (m.level - 1) else m.world.tags)

theorem move_of_next {m m' : Machine H} (h : Next s m m') : Move s m m' := by
  rcases advance_eq_running h with ⟨top, below, i, rest, hf, _, hs⟩
    | ⟨top, parent, lower, hf, _, hp⟩
  · have hd := does_step s i (m.taken rest)
    rw [hs] at hd
    cases hd with
    | work outline level tags =>
      refine .work ?_ level tags
      rw [marks_eq_outline, outline, ← marks_eq_outline, marks_taken rest hf]
    | entry frame frames room level shallow tags =>
      refine .entry frame.deepens ?_ ?_ level shallow tags
      · rw [marks, frames, List.map_cons, ← marks_taken rest hf]
        rfl
      · rw [← marks_taken rest hf, length_marks]
        exact room
  · refine .exit top.deepens ?_ ?_ hp.level ?_
    · rw [marks, marks, hf, hp.frames, List.map_cons, List.map_cons, List.map_cons,
        deepens_handOver]
    · rw [marks, hp.frames]
      exact List.cons_ne_nil _ _
    · rw [hp.world]
      cases top.deepens <;> rfl

end TemplateGrammar.Machine
