import TemplateGrammar.Proofs.Engine.News
import TemplateGrammar.Proofs.Expansion.Kept

/-!
# The tags of the top level, over a whole history

With layered tags, what a rule sets on its own level is gone when the rule has been expanded.  A
call that is broken off inside rules leaves the levels of these rules as they are, and the next call
drops them when it begins.  So what a call finds when it starts to run its nodes are the tags that
were set while expansion was on the first level, since a call last forgot what there was
(`get?_of_starts`), whatever was done with the engine before.

Which tags these are is read off the journal, where every tag that is set is noted with the level
that it is set on: `Journal.topTags` for the news of one call, and `Engine.recalled` for all that
was done.
-/

namespace TemplateGrammar

variable {H : Type}

/-- **The tags of the first level** that a journal tells of, over those known before: for each name
the values that it was set to last. -/
def Journal.topTags (known : String → Option (List String)) : Journal → String →
    Option (List String)
  | [], name => known name
  | .setTag 1 other values :: earlier, name => if other = name then some values
    else topTags known earlier name
  | _ :: earlier, name => topTags known earlier name

/-- **Remembered:** tags are layered, there are none below the first level, and on it there are
those that the news since some journal tell of. -/
structure World.Remembers (j : Journal) (known : String → Option (List String))
    (w : World H) : Prop where
  layered : w.tags.scoping = .layered
  below : ∀ name, w.tags.get? 0 name = none
  news : ∃ new, w.journal = new ++ j ∧ ∀ name, (w.tags.get? 1 name).map Tag.values =
    new.topTags known name

namespace World.Remembers

variable {j : Journal} {known : String → Option (List String)} {w w' : World H}

theorem of_tags (h : w.Remembers j known) (htags : w'.tags = w.tags) (more : Journal)
    (hmore : w'.journal = more ++ w.journal)
    (hsame : ∀ new, Journal.topTags known (more ++ new) = new.topTags known) :
    w'.Remembers j known := by
  obtain ⟨new, hj, hnew⟩ := h.news
  refine ⟨htags ▸ h.layered, htags ▸ h.below, more ++ new, ?_, ?_⟩
  · rw [hmore, hj, List.append_assoc]
  · intro name
    rw [htags, hsame]
    exact hnew name

theorem say (h : w.Remembers j known) (n : Notice) : (w.say n).Remembers j known :=
  h.of_tags rfl [.notice n] rfl fun _ => rfl

theorem pick (h : w.Remembers j known) (chooser : Chooser) (selector : Selector H) (count : Nat) :
    (w.pick chooser selector count).2.Remembers j known :=
  h.of_tags rfl [.pick chooser count _] rfl fun _ => rfl

theorem leave (h : w.Remembers j known) {level : Nat} (hl : 1 ≤ level) :
    (w.leave level).Remembers j known := by
  obtain ⟨new, hj, hnew⟩ := h.news
  refine ⟨?_, ?_, new, hj, ?_⟩
  · exact (TagStore.scoping_leave _ _).trans h.layered
  · intro name
    exact (TagStore.get?_leave_of_le w.tags (Nat.zero_le level) name).trans (h.below name)
  · intro name
    show ((w.tags.leave level).get? 1 name).map Tag.values = _
    rw [TagStore.get?_leave_of_le w.tags hl]
    exact hnew name

/-- **Setting a tag** is remembered if it is done on the first level, and makes no difference to it
on any other. -/
theorem setTag (h : w.Remembers j known) {level : Nat} (hl : 1 ≤ level) (name : String)
    (values : List String) (selector : Selector H) :
    (w.setTag level name values selector).Remembers j known := by
  obtain ⟨new, hj, hnew⟩ := h.news
  obtain ⟨said, hsaid, hjournal⟩ : ∃ said : Journal,
    (∀ earlier, Journal.topTags known (said ++ earlier) =
      earlier.topTags known) ∧ (w.setTag level name values selector).journal =
        .setTag level name values :: (said ++ w.journal) := by
    unfold World.setTag
    split
    · exact ⟨[.notice (.tagSet name values), .notice (.tagReplaced name)], fun _ => rfl, rfl⟩
    · exact ⟨[.notice (.tagSet name values)], fun _ => rfl, rfl⟩
  refine ⟨?_, ?_, .setTag level name values :: (said ++ new), ?_, ?_⟩
  · rw [World.tags_setTag, TagStore.scoping_store]
    exact h.layered
  · intro other
    rw [World.tags_setTag, TagStore.get?_store_of_lt h.layered hl]
    exact h.below other
  · rw [hjournal, hj, List.cons_append, List.append_assoc]
  · intro other
    rw [World.tags_setTag]
    by_cases hone : level = 1
    · subst hone
      rw [TagStore.get?_store_self, Journal.topTags, hsaid, ← hnew]
      split <;> rfl
    · rw [TagStore.get?_store_of_lt h.layered (by omega)]
      have hskip : Journal.topTags known (.setTag level name values :: (said ++ new)) other =
          Journal.topTags known (said ++ new) other := by
        rw [Journal.topTags]
        intro _ _ he
        exact absurd (Entry.setTag.inj he).1 hone
      rw [hskip, hsaid]
      exact hnew other

/-- What the journal tells of is what is on the first level. -/
theorem top (h : w.Remembers j known) (new : Journal) (hnew : w.journal = new ++ j)
    (name : String) : (w.tags.get? 1 name).map Tag.values = new.topTags known name := by
  obtain ⟨new', hj, hsees⟩ := h.news
  obtain rfl : new = new' := List.append_cancel_right (hnew.symm.trans hj)
  exact hsees name

/-- **Where nothing is above the first level,** every level sees what is on it. -/
theorem sees (h : w.Remembers j known) (hw : w.tags.Within 1) {new : Journal}
    (hnew : w.journal = new ++ j) (level : Nat) (name : String) :
    (w.tags.get? level name).map Tag.values = if level = 0 then none
      else new.topTags known name := by
  by_cases hl : level = 0
  · subst hl
    rw [h.below]
    rfl
  · rw [if_neg hl, TagStore.get?_of_within hw (by omega)]
    exact h.top new hnew name

end World.Remembers

/-- **Every operation is remembered,** on whatever level above the ground. -/
theorem World.kept_remembers (s : Setting H) (j : Journal) (known : String → Option (List String)) :
    World.Kept s (fun _ => True) (World.Remembers j known) where
  text _ := trivial
  say n h := h.say n
  freshBag h := h.of_tags rfl [] rfl fun _ => rfl
  call _ name text arguments h :=
    h.of_tags rfl [.call name text arguments, .notice (.modifierRun name text arguments)]
      rfl fun _ => rfl
  leave hl h := h.leave hl
  readTag h _ := h.pick _ _ _
  runtimeRule h _ := ⟨h.pick _ _ _, Rule.every_of_forall (fun _ => trivial) _⟩
  tableRule h _ := ⟨h.pick _ _ _, Rule.every_of_forall (fun _ => trivial) _⟩
  choice h _ := h.pick _ _ _
  setTag texts h hl _ _ := h.setTag hl _ texts _
  define {_ name values} h _ _ := h.of_tags rfl [.define name values.length, .notice _] rfl fun _ =>
    rfl

theorem Machine.exists_begin {s : Setting H} (hlevel : 1 ≤ s.maxLevel) (hframes : 1 ≤ s.maxFrames)
    (nodes : List (Node BagId)) (m : Machine H) : ∃ m₀, m.begin s nodes = .go m₀ := by
  have hheight : ¬s.maxFrames ≤ m.reset.frames.height := by
    show ¬s.maxFrames ≤ 0
    omega
  have hroot : ¬(true && s.maxLevel < m.reset.level + 1) = true := by
    show ¬(true && s.maxLevel < 0 + 1) = true
    simpa using Nat.ne_of_gt hlevel
  unfold Machine.begin Machine.push
  rw [if_neg hheight, if_neg hroot]
  exact ⟨_, rfl⟩

namespace Engine

/-! ### What a history leaves -/

/-- What is known of the tags of the first level after something was done. -/
def learn (e : Engine H) (known : String → Option (List String)) : Act H → String →
    Option (List String)
  | .expand text keep => (e.news (.expand text keep)).topTags (if keep then known
    else fun _ => none)
  | _ => known

/-- **What is known of the tags of the first level** after one thing after another was done: the
latest values that each was set to there, of the time since a call last kept nothing. -/
def recalled (e : Engine H) (known : String → Option (List String)) : List (Act H) → String →
    Option (List String)
  | [] => known
  | a :: acts => (e.act a).recalled (e.learn known a) acts

/-- The first level of an engine holds the tags that are known. -/
def Recalls (e : Engine H) (known : String → Option (List String)) : Prop :=
  e.machine.world.Remembers e.journal known

variable {e : Engine H} {known : String → Option (List String)}

theorem Recalls.beginning (h : e.Recalls known) (keep : Bool) :
    (e.beginning keep).Remembers e.journal (if keep then known else fun _ => none) := by
  cases keep with
  | true => exact h
  | false =>
    have hempty : e.machine.world.tags.clear = .empty .layered := by
      rw [TagStore.clear_eq_empty, h.layered]
    refine ⟨?_, ?_, [], rfl, ?_⟩
    · show e.machine.world.tags.clear.scoping = .layered
      rw [hempty]
      rfl
    · intro name
      show e.machine.world.tags.clear.get? 0 name = none
      rw [hempty]
      rfl
    · intro name
      show (e.machine.world.tags.clear.get? 1 name).map Tag.values = none
      rw [hempty]
      rfl

/-- **What is known stays known,** through whatever is done. -/
theorem Recalls.act (h : e.Recalls known) (a : Act H) : (e.act a).Recalls (e.learn known a) := by
  rcases a.call_or with ⟨text, keep, rfl⟩ | hne
  · have hcall : (e.act (.expand text keep)).machine.world.Remembers e.journal
        (if keep then known else fun _ => none) := by
      rw [world_call]
      refine (World.kept_remembers e.setting e.journal _).evaluated_of_forall ?_ text
        (h.beginning keep)
      exact fun w nodes hw => hw.of_tags rfl [] rfl fun _ => rfl
    refine ⟨hcall.layered, hcall.below, [], rfl, ?_⟩
    intro name
    exact hcall.top _ (journal_call e text keep) name
  · have hknown : e.learn known a = known := by
      cases a with
      | expand text keep => exact absurd rfl (hne text keep)
      | _ => rfl
    have htags : (e.act a).machine.world.tags = e.machine.world.tags := by
      rcases e.world_act hne with ⟨ns, hw⟩ | hw
      · rw [hw, World.tags_sayAll]
      · rw [hw]
    rw [hknown]
    refine ⟨htags ▸ h.layered, htags ▸ h.below, [], rfl, ?_⟩
    intro name
    rw [htags]
    exact h.top [] rfl name

theorem Recalls.after (h : e.Recalls known) (acts : List (Act H)) :
    (e.after acts).Recalls (e.recalled known acts) := by
  induction acts generalizing e known with
  | nil => exact h
  | cons a acts ih => exact ih (h.act a)

theorem Made.recalls (he : Made e) (hl : e.options.tagScoping = .layered) :
    e.Recalls fun _ => none := by
  obtain ⟨random, host, ns, hw⟩ := he.world
  have htags : e.machine.world.tags = .empty .layered := by
    rw [hw, World.tags_sayAll, hl]
    rfl
  refine ⟨?_, ?_, [], rfl, ?_⟩
  · rw [htags]
    rfl
  · intro name
    rw [htags]
    rfl
  · intro name
    rw [htags]
    rfl

theorem options_after (e : Engine H) (acts : List (Act H)) :
    (e.after acts).options = e.options := by
  induction acts generalizing e with
  | nil => rfl
  | cons a acts ih => exact (ih (e.act a)).trans (e.options_act a)

/-! ### Where a call starts -/

/-- **The machine on which a call starts to run its nodes,** when it has read and taken up its
text. -/
def Starts (e : Engine H) (text : String) (keep : Bool) (m : Machine H) : Prop :=
  ∃ nodes, parseText text = .ok nodes ∧
    let taken := ((e.beginning keep).say (.input text)).takeUp nodes
    Machine.begin e.setting taken.1 { e.machine with world := taken.2 } = .go m

theorem tryExpand_of_parsed (e : Engine H) {text : String} (keep : Bool) {nodes : List (Node Unit)}
    (hp : parseText text = .ok nodes) :
    let taken := ((e.beginning keep).say (.input text)).takeUp nodes
    (e.tryExpand text keep).1 =
      (Machine.expand e.setting taken.1 { e.machine with world := taken.2 }).1.mapError
        .expansion := by
  have hkeep : ∀ e : Engine H, (e.tryExpand text true).1 =
      (Machine.expand e.setting ((e.machine.world.say (.input text)).takeUp nodes).1
        { e.machine with world := ((e.machine.world.say (.input text)).takeUp nodes).2 }).1.mapError
          .expansion := by
    intro e
    unfold Engine.tryExpand
    rw [hp]
    show ((e.sayAll [.input text]).run text nodes).1 = _
    unfold Engine.run
    dsimp only
    split
    · rename_i hm
      exact (congrArg (fun x => x.1.mapError EngineError.expansion) hm).symm
    · rename_i hm
      exact (congrArg (fun x => x.1.mapError EngineError.expansion) hm).symm
  cases keep with
  | true => exact hkeep e
  | false => exact hkeep (e.onWorld World.forget)

/-- With room for the root, a text that is a template starts to run, and what the machine comes to
is what the call answers. -/
theorem exists_starts (e : Engine H) {text : String} (keep : Bool) {nodes : List (Node Unit)}
    (hp : parseText text = .ok nodes) (hlevel : 1 ≤ e.options.maxLevel)
    (hframes : 1 ≤ e.options.maxFrames) :
    ∃ m, e.Starts text keep m ∧ ∃ fits,
      (e.tryExpand text keep).1 = (Machine.run e.setting m fits).1.mapError .expansion := by
  let taken := ((e.beginning keep).say (.input text)).takeUp nodes
  obtain ⟨m, hm⟩ := Machine.exists_begin (s := e.setting) hlevel hframes taken.1
    { e.machine with world := taken.2 }
  refine ⟨m, ⟨nodes, hp, hm⟩, Machine.height_frames_begin hm, ?_⟩
  rw [tryExpand_of_parsed e keep hp, Machine.expand_of_go hm]

theorem lookup_of_starts {e : Engine H} {known : String → Option (List String)}
    (h : e.Recalls known) {text : String} {keep : Bool} {m : Machine H} (hm : e.Starts text keep m)
    (level : Nat) (name : String) :
    (m.world.tags.get? level name).map Tag.values =
      if level = 0 then none else if keep then known name else none := by
  obtain ⟨nodes, -, hb⟩ := hm
  obtain ⟨-, -, hs⟩ := Machine.begin_eq_go hb
  let w := (((e.beginning keep).say (.input text)).takeUp nodes).2.leave 1
  have hw : w.Remembers e.journal (if keep then known else fun _ => none) := by
    have hsaid := (h.beginning keep).say (.input text)
    refine World.Remembers.leave ?_ (Nat.le_refl 1)
    exact hsaid.of_tags rfl [] rfl fun _ => rfl
  -- since the call began, the input is all that was noted
  have hjournal : w.journal = [.notice (.input text)] ++ e.journal := by
    cases keep <;> rfl
  rw [hs.world, hw.sees (TagStore.within_leave _ 1) hjournal]
  cases keep <;> rfl

/-- **A call finds the tags of the top level.**  Let tags be layered, and let anything have been
done with the engine since it was made, calls that were broken off inside rules among it.  When a
call starts to run its nodes, a look-up from any level that expansions run on finds the tags that
were set on the first level since a call last kept nothing, with the values that they were set to
last; a call that keeps nothing itself finds none.  Where the limits leave room for the root, every
text that is a template does start, and the call answers what the machine then comes to. -/
theorem get?_of_starts {e : Engine H} (he : Made e) (hl : e.options.tagScoping = .layered)
    (acts : List (Act H)) (text : String) (keep : Bool) :
    (∀ m, (e.after acts).Starts text keep m →
      ∀ level name, (m.world.tags.get? level name).map Tag.values =
        if level = 0 then none else if keep then e.recalled (fun _ => none) acts name else none) ∧
    (1 ≤ e.options.maxLevel → 1 ≤ e.options.maxFrames → ∀ nodes, parseText text = .ok nodes →
      ∃ m, (e.after acts).Starts text keep m ∧ ∃ fits, ((e.after acts).tryExpand text keep).1 =
        (Machine.run (e.after acts).setting m fits).1.mapError .expansion) := by
  constructor
  · intro m hm level name
    have hrecalls : (e.after acts).Recalls (e.recalled (fun _ => none) acts) :=
      (he.recalls hl).after acts
    exact lookup_of_starts hrecalls hm level name
  · intro hlevel hframes nodes hp
    have hoptions := e.options_after acts
    exact exists_starts _ keep hp (hoptions ▸ hlevel) (hoptions ▸ hframes)

/-! ### After an expansion that ran out of levels -/

/-- An engine with layered tags, and three levels. -/
def threeLevels : Engine Unit :=
  .start { tagScoping := .layered, maxLevel := 3, maxFrames := 20 } (.ofSeed 0) ()

/-- A rule that sets a tag and never ends, and a call that sets another tag before it runs into the
rule. -/
def overflow : List (Act Unit) :=
  [.addRule "r" (.text "[v:y]#r#"), .expand "[t:x]#r#" true]

theorem recalled_overflow :
    threeLevels.recalled (fun _ => none) overflow "t" = some ["x"] ∧
      threeLevels.recalled (fun _ => none) overflow "v" = none := by
  let e := threeLevels.act (.addRule "r" (.text "[v:y]#r#"))
  have hrecalled : threeLevels.recalled (fun _ => none) overflow =
      (e.news (.expand "[t:x]#r#" true)).topTags fun _ => none := rfl
  rw [hrecalled, news_call]
  decide +kernel

/-- The tag of the call is found afterwards, from every level, and that of the rule is not. -/
theorem get?_after_overflow : ∃ m, (threeLevels.after overflow).Starts "#t##v#" true m ∧
    ∀ level, 1 ≤ level → (m.world.tags.get? level "t").map Tag.values = some ["x"] ∧
      (m.world.tags.get? level "v").map Tag.values = none := by
  have hmade : Made threeLevels := .start _ _ _
  obtain ⟨hfinds, hstarts⟩ := get?_of_starts hmade rfl overflow "#t##v#" true
  have hparsed : (parseText "#t##v#").toOption.isSome = true := by decide +kernel
  cases hp : parseText "#t##v#" with
  | error failure =>
    rw [hp] at hparsed
    cases hparsed
  | ok nodes =>
    obtain ⟨m, hm, -⟩ := hstarts (by decide) (by decide) nodes hp
    refine ⟨m, hm, ?_⟩
    intro level hlevel
    have hlevel : level ≠ 0 := by omega
    rw [hfinds m hm, hfinds m hm, if_neg hlevel, if_neg hlevel, if_pos rfl, if_pos rfl]
    exact recalled_overflow

end Engine

end TemplateGrammar
