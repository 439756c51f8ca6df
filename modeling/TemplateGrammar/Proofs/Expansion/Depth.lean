import TemplateGrammar.Proofs.Expansion.Levels
import TemplateGrammar.Proofs.Tags.Layers

/-!
# Level, frames and tags in step

The level, the stack and the tags are changed in different places: putting a frame on the stack
raises the level, taking one off lowers it and drops tags, and setting a tag writes on the level.
`InStep` says how they hang together between any two steps, `inStep_next` that a step keeps it, and
`depth_of_reaches` what follows of every machine that an expansion comes through, whatever level,
frames and tags were there before it.
-/

namespace TemplateGrammar.Machine

variable {H : Type} {s : Setting H}

/-- **In step:** the level is the number of frames on a level of their own, the root is one of them,
both limits are kept, and no tag is above the level. -/
structure InStep (s : Setting H) (m : Machine H) : Prop where
  level : m.level = m.marks.count true
  root : m.marks.getLast? = some true
  shallow : m.level ≤ s.maxLevel
  fits : m.frames.height ≤ s.maxFrames
  within : m.world.tags.Within m.level

namespace InStep

variable {m : Machine H} (h : InStep s m)

include h

theorem level_pos : 1 ≤ m.level := by
  rw [h.level]
  exact List.count_pos_iff.2 (List.mem_of_getLast? h.root)

theorem height_pos : 1 ≤ m.frames.height := by
  rw [← length_marks]
  exact List.length_pos_of_mem (List.mem_of_getLast? h.root)

/-- Below a frame on a level of its own is another one, the root if no other. -/
theorem two_le_level {top parent : Frame H} {lower : List (Frame H)}
    (hf : m.frames.toList = top :: parent :: lower) (hd : top.deepens = true) : 2 ≤ m.level := by
  have hm : m.marks = true :: (parent :: lower).map Frame.deepens := by
    rw [marks, hf, List.map_cons, hd]
  have hroot : ((parent :: lower).map Frame.deepens).getLast? = some true := by
    have := h.root
    rwa [hm, List.map_cons, List.getLast?_cons_cons] at this
  have hpos := List.count_pos_iff.2 (List.mem_of_getLast? hroot)
  rw [h.level, hm, List.count_cons_self]
  omega

end InStep

/-! ### One step -/

theorem inStep_next {m m' : Machine H} (h : InStep s m) (hn : Next s m m') : InStep s m' := by
  have hfits := height_frames_advance hn h.fits
  cases move_of_next hn with
  | work marks level tags =>
    refine ⟨by rw [marks, level, h.level], by rw [marks, h.root],
      by rw [level]; exact h.shallow, hfits, ?_⟩
    rcases tags with htags | ⟨name, tag, htags⟩
    · rw [htags, level]
      exact h.within
    · rw [htags, level]
      exact h.within.store name tag
  | entry deepens marks room level shallow tags =>
    have hroot : m'.marks.getLast? = some true := by rw [marks, List.getLast?_cons, h.root]; rfl
    cases deepens with
    | false =>
      rw [if_neg Bool.false_ne_true] at level
      refine ⟨?_, hroot, by rw [level]; exact h.shallow, hfits, by rw [tags, level]; exact h.within⟩
      rw [marks, level, h.level, List.count_cons_of_ne Bool.false_ne_true]
    | true =>
      rw [if_pos rfl] at level
      refine ⟨?_, hroot, by rw [level]; exact shallow rfl, hfits, ?_⟩
      · rw [marks, level, h.level, List.count_cons_self]
      · rw [tags, level]
        exact h.within.mono (Nat.le_succ _)
  | exit deepens marks rest level tags =>
    have hroot : m'.marks.getLast? = some true := by
      obtain ⟨first, more, hm⟩ := List.exists_cons_of_ne_nil rest
      have := h.root
      rwa [marks, hm, List.getLast?_cons_cons, ← hm] at this
    have hcount := h.level
    rw [marks] at hcount
    cases deepens with
    | false =>
      rw [if_neg Bool.false_ne_true] at level tags
      rw [List.count_cons_of_ne Bool.false_ne_true] at hcount
      exact ⟨by rw [level, hcount], hroot, by rw [level]; exact h.shallow, hfits,
        by rw [tags, level]; exact h.within⟩
    | true =>
      rw [if_pos rfl] at level tags
      rw [List.count_cons_self] at hcount
      refine ⟨by omega, hroot, ?_, hfits, ?_⟩
      · have := h.shallow
        omega
      · rw [tags, level]
        exact TagStore.within_leave _ _

/-! ### From the start on -/

/-- **However an expansion is begun,** it is in step: deeper tags that an earlier one left have been
dropped. -/
theorem inStep_begin {nodes : List (Node BagId)} {m m₀ : Machine H} (h : m.begin s nodes = .go m₀) :
    InStep s m₀ := by
  obtain ⟨_, hlevel, hs⟩ := begin_eq_go h
  have hm : m₀.marks = [true] := by
    rw [marks, hs.frames]
    rfl
  refine ⟨by rw [hm, hs.level]; rfl, by rw [hm]; rfl, by rw [hs.level]; exact hlevel,
    height_frames_begin h, ?_⟩
  rw [hs.world, hs.level]
  exact TagStore.within_leave _ _

theorem inStep_of_reaches {nodes : List (Node BagId)} {m m₀ m₁ : Machine H}
    (h : m.begin s nodes = .go m₀) (hr : Reaches s m₀ m₁) : InStep s m₁ := by
  induction hr with
  | refl => exact inStep_begin h
  | tail _ hn ih => exact inStep_next ih hn

/-- **Level, frames and tags on the whole way** of an expansion.  The level is the number of frames
on a level of their own, of which the root is one; it is at least one and no more than its limit,
and so is the number of frames.  Nothing is stored above the level, so every higher level sees what
it sees.  Where a frame on a level of its own is taken off, the level goes down by one, and there is
one to go down. -/
theorem depth_of_reaches {nodes : List (Node BagId)} {m m₀ m₁ : Machine H}
    (h : m.begin s nodes = .go m₀) (hr : Reaches s m₀ m₁) :
    m₁.level = m₁.marks.count true ∧ m₁.marks.getLast? = some true ∧
      (1 ≤ m₁.level ∧ m₁.level ≤ s.maxLevel) ∧
      (1 ≤ m₁.frames.height ∧ m₁.frames.height ≤ s.maxFrames) ∧
      m₁.world.tags.Within m₁.level ∧
      (∀ high, m₁.level ≤ high → ∀ name, m₁.world.tags.get? high name =
        m₁.world.tags.get? m₁.level name) ∧
      (∀ top parent lower, m₁.frames.toList = top :: parent :: lower → top.deepens = true →
        (m₁.pop true).level + 1 = m₁.level ∧ 1 ≤ (m₁.pop true).level) := by
  have hi := inStep_of_reaches h hr
  refine ⟨hi.level, hi.root, ⟨hi.level_pos, hi.shallow⟩, ⟨hi.height_pos, hi.fits⟩, hi.within,
    fun high hl name => TagStore.get?_of_within hi.within hl name, ?_⟩
  intro top parent lower hf hd
  have htwo := hi.two_le_level hf hd
  have hp := popped_pop hf
  rw [hd] at hp
  have hlevel : (m₁.pop true).level = m₁.level - 1 := by rw [hp.level, hd]; rfl
  omega

/-! ### What an expansion that was broken off leaves -/

/-- The rule `r` is a text. -/
def plainRule : Setting Unit where
  rules := (∅ : Dict (Rule Unit)).insert "r" ⟨[⟨"x", [.text "x"]⟩], .first⟩
  objects := ∅
  methods := ∅
  maxLevel := 2
  maxFrames := 2

/-- Two frames stand on the stack, the level is five, and a tag is set on level seven. -/
def leftover : Machine Unit where
  world := ⟨.layered ((Layers.empty.insert 1 "t" ⟨["low"], .first⟩).insert 7 "t"
    ⟨["high"], .first⟩), ∅, ⟨.empty, .ofSeed 0, ()⟩, []⟩
  frames := (Stack.empty.push ⟨[], "", [], .append, true⟩).push ⟨[.clearArguments], "old", ["a"],
    .argument, false⟩
  level := 5

/-- In the frame of the rule, both limits are reached, and what was left above is not seen. -/
theorem depth_of_leftover : ∃ m₀ m₁, leftover.begin plainRule [.rule "r" []] = .go m₀ ∧
    Reaches plainRule m₀ m₁ ∧ m₁.marks = [true, true] ∧ m₁.level = 2 ∧ m₁.frames.height ≤ 2 ∧
    (m₁.world.tags.get? 7 "t").map Tag.values = some ["low"] := by
  obtain ⟨m₀, m₁, hb, hn, hm, ht⟩ : ∃ m₀ m₁, leftover.begin plainRule [.rule "r" []] = .go m₀ ∧
      m₀.advance plainRule = .running m₁ ∧ m₁.marks = [true, true] ∧
      (m₁.world.tags.get? 2 "t").map Tag.values = some ["low"] := ⟨_, _, rfl, rfl, rfl, rfl⟩
  obtain ⟨hlevel, _, _, hheight, _, hseen, _⟩ := depth_of_reaches hb (.single hn)
  have htwo : m₁.level = 2 := by rw [hlevel, hm]; rfl
  rw [htwo] at hseen
  refine ⟨m₀, m₁, hb, .single hn, hm, htwo, hheight.2, ?_⟩
  rw [hseen 7 (by decide)]
  exact ht

end TemplateGrammar.Machine
