import TemplateGrammar.Proofs.Expansion.Levels
import TemplateGrammar.Proofs.Tags.Layers

/-!
# Layered tags around a rule

A reference to a rule puts a frame on a level of its own.  Until that frame is taken off again,
everything runs on that level or above it, so the level below it sees the tags that it saw before
(`Inside`).  Taking the frame off drops what was written in the meantime (`Outside`).

`inside_next` says it of one step, `inside_or_outside` of all steps up to the one that takes the
frame off, and `tags_around_rule` of the whole expansion of the rule, with everything that is
expanded in it.
-/

namespace TemplateGrammar

variable {H : Type} {s : Setting H}

/-- **What makes a name stand for a rule:** it is the name of no tag that is seen and of no object,
but of a runtime rule or of a rule of the table. -/
structure World.NamesRule (s : Setting H) (level : Nat) (name : String) (w : World H) : Prop where
  named : name ≠ ""
  noTag : w.tags.get? level name = none
  noObject : s.objects[name]? = none
  rule : (w.runtime[name]?.or s.rules[name]?).isSome

theorem World.deepens_of_resolveRule {w : World H} {chooser : Chooser} {rule : Rule H}
    {nodes : List (Node BagId)} {deepens : Bool}
    (h : (w.resolveRule chooser rule).1 = .nodes nodes deepens) : deepens = true := by
  unfold resolveRule at h
  dsimp only at h
  split at h
  · exact (Resolution.nodes.inj h).2.symm
  · simp at h

theorem World.NamesRule.deepens {level : Nat} {name : String} {w : World H}
    (h : w.NamesRule s level name) {nodes : List (Node BagId)} {deepens : Bool}
    (hr : (w.resolve s level name).1 = .nodes nodes deepens) :
    deepens = true := by
  have hrule := h.rule
  unfold World.resolve at hr
  rw [if_neg h.named, h.noTag, h.noObject] at hr
  dsimp only at hr
  cases hw : w.runtime[name]? with
  | some rule =>
    rw [hw] at hr
    exact World.deepens_of_resolveRule hr
  | none =>
    rw [hw] at hr hrule
    cases ht : s.rules[name]? with
    | some rule =>
      rw [ht] at hr
      exact World.deepens_of_resolveRule hr
    | none =>
      rw [ht] at hrule
      simp at hrule

namespace Machine

/-- Some steps lead from a machine to another, each from a stack higher than so many frames. -/
abbrev ReachesAbove (s : Setting H) (height : Nat) : Machine H → Machine H → Prop :=
  Relation.ReflTransGen fun m m' => Next s m m' ∧ height < m.frames.height

/-- **A frame is put on the stack and taken off again.**  One step puts it there, the steps after
that have more on the stack than before, and the last of them takes it off. -/
def Returns (s : Setting H) (before after : Machine H) : Prop :=
  ∃ entered, Next s before entered ∧ before.frames.height < entered.frames.height ∧
    ReachesAbove s before.frames.height entered after ∧ after.frames.height = before.frames.height

/-- A level and those below it see the tags they saw in another machine. -/
def SeesAs (before m : Machine H) : Prop :=
  ∀ low ≤ before.level, ∀ name, m.world.tags.get? low name = before.world.tags.get? low name

/-- **On the way:** the frames of before are there with one on top that is on a level of its own,
and perhaps others above it.  The level is as high as they raise it, and below it the tags are seen
as before. -/
structure Inside (before m : Machine H) : Prop where
  level : ∃ above, m.marks = above ++ true :: before.marks ∧
    m.level = before.level + 1 + above.count true
  layered : m.world.tags.scoping = .layered
  seen : SeesAs before m

/-- **Back again:** the frames and the level are those of before, the tags are seen as before, and
there are no others. -/
structure Outside (before m : Machine H) : Prop where
  marks : m.marks = before.marks
  level : m.level = before.level
  layered : m.world.tags.scoping = .layered
  seen : SeesAs before m
  within : m.world.tags.Within before.level

theorem Inside.height_lt {before m : Machine H} (h : Inside before m) :
    before.frames.height < m.frames.height := by
  obtain ⟨above, hm, _⟩ := h.level
  rw [← length_marks, ← length_marks, hm, List.length_append, List.length_cons]
  omega

theorem Inside.level_lt {before m : Machine H} (h : Inside before m) : before.level < m.level := by
  obtain ⟨above, _, hl⟩ := h.level
  omega

/-! ### One step -/

theorem Inside.seesAs_store {before m m' : Machine H} (h : Inside before m)
    {name : String} {tag : Tag H} (ht : m'.world.tags = m.world.tags.store m.level name tag) :
    SeesAs before m' := by
  intro low hlow other
  have hlt : low < m.level := Nat.lt_of_le_of_lt hlow h.level_lt
  rw [ht, TagStore.get?_store_of_lt h.layered hlt]
  exact h.seen low hlow other

theorem Inside.seesAs_leave {before m m' : Machine H} (h : Inside before m) {level : Nat}
    (hlevel : before.level ≤ level) (ht : m'.world.tags = m.world.tags.leave level) :
    SeesAs before m' := by
  intro low hlow other
  rw [ht, TagStore.get?_leave_of_le _ (Nat.le_trans hlow hlevel)]
  exact h.seen low hlow other

theorem SeesAs.of_tags_eq {before m m' : Machine H} (h : SeesAs before m)
    (ht : m'.world.tags = m.world.tags) : SeesAs before m' := by
  intro low hlow other
  rw [ht]
  exact h low hlow other

/-- A step that takes a frame off, where it is one of those put on since, or the first of them. -/
theorem Inside.exit {before m m' : Machine H} (h : Inside before m) {deepens : Bool}
    (hmarks : m.marks = deepens :: m'.marks)
    (hlevel : m'.level = if deepens then m.level - 1 else m.level)
    (htags : m'.world.tags = if deepens then m.world.tags.leave (m.level - 1) else m.world.tags) :
    Inside before m' ∨ Outside before m' := by
  obtain ⟨above, hm, hl⟩ := h.level
  rw [hmarks] at hm
  cases above with
  | nil =>
    -- the frame of the rule itself is taken off
    right
    obtain ⟨rfl, hbefore⟩ := List.cons.inj hm
    rw [List.count_nil] at hl
    have hbelow : m.level - 1 = before.level := by omega
    rw [if_pos rfl, hbelow] at hlevel htags
    refine ⟨hbefore, hlevel, ?_, h.seesAs_leave (Nat.le_refl _) htags, ?_⟩
    · rw [htags, TagStore.scoping_leave, h.layered]
    · rw [htags]
      exact TagStore.within_leave _ _
  | cons first above =>
    left
    obtain ⟨rfl, hrest⟩ := List.cons.inj hm
    cases deepens with
    | false =>
      rw [if_neg Bool.false_ne_true] at hlevel htags
      rw [List.count_cons_of_ne (by decide)] at hl
      exact ⟨⟨above, hrest, by omega⟩, by rw [htags, h.layered], h.seen.of_tags_eq htags⟩
    | true =>
      rw [if_pos rfl] at hlevel htags
      rw [List.count_cons_self] at hl
      refine ⟨⟨above, hrest, by omega⟩, ?_, h.seesAs_leave (by omega) htags⟩
      rw [htags, TagStore.scoping_leave, h.layered]

/-- **A step from the inside** stays inside, or comes back. -/
theorem inside_next {before m m' : Machine H} (h : Inside before m) (hn : Next s m m') :
    Inside before m' ∨ Outside before m' := by
  obtain ⟨above, hm, hl⟩ := h.level
  cases move_of_next hn with
  | work marks level tags =>
    left
    have hlevel : ∃ above, m'.marks = above ++ true :: before.marks ∧
        m'.level = before.level + 1 + above.count true := ⟨above, marks.trans hm, level.trans hl⟩
    rcases tags with htags | ⟨name, tag, htags⟩
    · exact ⟨hlevel, by rw [htags, h.layered], h.seen.of_tags_eq htags⟩
    · exact ⟨hlevel, by rw [htags, TagStore.scoping_store, h.layered], h.seesAs_store htags⟩
  | entry deepens marks room level shallow tags =>
    left
    refine ⟨⟨deepens :: above, by rw [marks, hm]; rfl, ?_⟩, by rw [tags, h.layered],
      h.seen.of_tags_eq tags⟩
    rw [level, hl, List.count_cons]
    cases deepens <;> simp
    omega
  | exit deepens marks rest level tags => exact h.exit marks level tags

/-! ### The whole expansion of a rule -/

theorem height_append (m : Machine H) (text : String) :
    (m.append text).frames.height = m.frames.height := by
  have h : (m.append text).outline = m.outline := outline_onTop m _ fun _ => rfl
  rw [← length_marks, ← length_marks, marks_eq_outline, h, ← marks_eq_outline]

/-- **The frame of a rule** is on a level of its own.  A reference that is left as written puts no
frame on the stack. -/
theorem entry_of_reference {name : String} {mods : List (Modifier BagId)} {m entered : Machine H}
    (h : reference s name mods m = .go entered) (hrule : m.world.NamesRule s m.level name)
    (hheight : m.frames.height < entered.frames.height) :
    entered.marks = true :: m.marks ∧ entered.level = m.level + 1 ∧
    entered.world.tags = m.world.tags := by
  have htags := World.tags_resolve s m.level name m.world
  unfold reference at h
  split at h
  · rename_i nodes deepens w hr
    obtain rfl : deepens = true := hrule.deepens (congrArg Prod.fst hr)
    obtain ⟨_, _, hs⟩ := push_eq_go h
    refine ⟨?_, hs.level, ?_⟩
    · rw [marks, hs.frames]
      rfl
    · rw [hs.world, ← htags, hr]
      exact World.tags_sayAll _ _
  · obtain rfl := Turn.go.inj h
    rw [height_append] at hheight
    exact absurd hheight (Nat.lt_irrefl _)

/-- **After the first step** of a reference to a rule, the machine is inside. -/
theorem inside_of_reference {before entered : Machine H} {top : Frame H} {below : List (Frame H)}
    {name : String} {mods : List (Modifier BagId)} {rest : List (Instr H)}
    (layered : before.world.tags.scoping = .layered) (hf : before.frames.toList = top :: below)
    (hp : top.pending = .node (.rule name mods) :: rest)
    (hrule : before.world.NamesRule s before.level name) (hn : Next s before entered)
    (hheight : before.frames.height < entered.frames.height) : Inside before entered := by
  have hlength : (before.taken rest).frames.height = before.frames.height := by
    rw [← length_marks, marks_taken rest hf, length_marks]
  obtain ⟨hmarks, hlevel, htags⟩ :=
    entry_of_reference (m := before.taken rest) (step_eq_go hf hp hn) hrule (by rwa [hlength])
  rw [marks_taken rest hf] at hmarks
  replace htags : entered.world.tags = before.world.tags := htags
  refine ⟨⟨[], hmarks, hlevel⟩, by rw [htags, layered], ?_⟩
  intro low _ other
  rw [htags]

/-- **On the whole way** from the inside, as long as there is more on the stack than before, the
machine is inside; and with the last step it may be back. -/
theorem inside_or_outside {before entered m : Machine H} (h : Inside before entered)
    (hr : ReachesAbove s before.frames.height entered m) : Inside before m ∨ Outside before m := by
  induction hr with
  | refl => exact .inl h
  | tail _ hn ih =>
    obtain ⟨hn, hheight⟩ := hn
    rcases ih with hin | hout
    · exact inside_next hin hn
    · -- once it is back, the stack is too low for another step of the way
      rw [← length_marks, ← length_marks, hout.marks] at hheight
      exact absurd hheight (Nat.lt_irrefl _)

/-- **Layered tags around a rule.**  A reference to a rule is expanded, with everything that is
expanded in it, and its frame is taken off.  Then the level it stood on and those below it see of
every name what they saw before, the same texts with the same selector, and no tag of any layer is
above that level. -/
theorem tags_around_rule {before after : Machine H} {top : Frame H} {below : List (Frame H)}
    {name : String} {mods : List (Modifier BagId)} {rest : List (Instr H)}
    (layered : before.world.tags.scoping = .layered) (hf : before.frames.toList = top :: below)
    (hp : top.pending = .node (.rule name mods) :: rest)
    (hrule : before.world.NamesRule s before.level name) (h : Returns s before after) :
    after.level = before.level ∧ after.world.tags.scoping = .layered ∧
      (∀ low ≤ before.level, ∀ tag, after.world.tags.get? low tag =
        before.world.tags.get? low tag) ∧
      after.world.tags.Within before.level := by
  obtain ⟨entered, hn, hheight, hr, hback⟩ := h
  have hin := inside_of_reference layered hf hp hrule hn hheight
  rcases inside_or_outside hin hr with hinside | houtside
  · -- inside, the frame of the rule would still be there
    have := hinside.height_lt
    omega
  · exact ⟨houtside.level, houtside.layered, houtside.seen, houtside.within⟩

/-! ### A rule that sets a tag -/

/-- Step a machine until no more than so many frames are on its stack. -/
def descend (s : Setting H) (height : Nat) : Nat → Machine H → Option (Machine H)
  | 0, _ => none
  | n + 1, m =>
    if height < m.frames.height then
      match m.advance s with
      | .running m' => descend s height n m'
      | _ => none
    else some m

theorem reaches_of_descend {height n : Nat} {m m' : Machine H}
    (h : descend s height n m = some m') :
    ReachesAbove s height m m' := by
  induction n generalizing m with
  | zero => simp [descend] at h
  | succ n ih =>
    rw [descend] at h
    split at h
    · rename_i hheight
      split at h
      · rename_i hn
        exact .head ⟨hn, hheight⟩ (ih h)
      · simp at h
    · rw [Option.some.inj h]

/-- The rule `r` sets the tag `t`. -/
def shadowing : Setting Unit where
  rules := (∅ : Dict (Rule Unit)).insert "r" ⟨[⟨"[t:x]", [.tag "t" [[.text "x"]]]⟩], .first⟩
  objects := ∅
  methods := ∅
  maxLevel := 2
  maxFrames := 4

/-- A reference to the rule is next, and the tag is set on the level of the reference. -/
def beforeShadow : Machine Unit where
  world := ⟨.layered (Layers.empty.insert 1 "t" ⟨["y"], .first⟩), ∅, ⟨.empty, .ofSeed 0, ()⟩, []⟩
  frames := Stack.empty.push ⟨[.node (.rule "r" [])], "", [], .append, true⟩
  level := 1

/-- What the rule writes is gone when its frame is. -/
theorem tags_around_shadow : beforeShadow.world.NamesRule shadowing 1 "r" ∧
    ∃ after, Returns shadowing beforeShadow after ∧ after.level = 1 ∧
      (after.world.tags.get? 1 "t").map Tag.values = some ["y"] ∧ after.world.tags.Within 1 := by
  have hrule : beforeShadow.world.NamesRule shadowing 1 "r" := ⟨by decide, rfl, rfl, rfl⟩
  obtain ⟨after, hr⟩ : ∃ after, Returns shadowing beforeShadow after := by
    have first : ∃ entered, beforeShadow.advance shadowing = .running entered ∧
        1 < entered.frames.height ∧
        ∃ after, descend shadowing 1 9 entered = some after ∧ after.frames.height = 1 :=
      ⟨_, rfl, by decide, _, rfl, rfl⟩
    obtain ⟨entered, hn, hheight, after, hd, hback⟩ := first
    exact ⟨after, entered, hn, hheight, reaches_of_descend hd, hback⟩
  obtain ⟨hlevel, _, hseen, hwithin⟩ := tags_around_rule rfl (Stack.toList_push _ _) rfl hrule hr
  refine ⟨hrule, after, hr, hlevel, ?_, hwithin⟩
  rw [hseen 1 (Nat.le_refl 1)]
  rfl

end Machine

end TemplateGrammar
