import TemplateGrammar.Proofs.Expansion.Related

/-!
# Twin worlds

Two worlds are twins if they have the same tags, the same rules of the run and the same chances, and
if their journals have gone on alike since two earlier ones.  What the journals held before then,
and how the bags are stored, is not seen by any operation (`respected_twin`).
-/

namespace TemplateGrammar

variable {H : Type}

/-- **The same chances:** the same state of every bag, the same random stream, the same memory of
the host. -/
structure Chance.Same (c d : Chance H) : Prop where
  bags : ∀ id, c.bags.get id = d.bags.get id
  next : c.bags.next = d.bags.next
  random : c.random = d.random
  host : c.host = d.host

theorem Bags.get_put_same {bs cs : Bags} (h : ∀ id, bs.get id = cs.get id) (id : BagId) (b : Bag)
    (other : BagId) : (bs.put id b).get other = (cs.put id b).get other := by
  by_cases hid : id = other
  · subst hid
    rw [get_put_self, get_put_self]
  · rw [get_put_of_ne b hid, get_put_of_ne b hid, h]

/-- **Selectors pick the same** from the same chances. -/
theorem Chance.Same.pick {c d : Chance H} (h : c.Same d) (selector : Selector H) (count : Nat) :
    (selector.pick count c).1 = (selector.pick count d).1 ∧
      (selector.pick count c).2.Same (selector.pick count d).2 := by
  obtain ⟨hbags, hnext, hrandom, hhost⟩ := h
  cases selector with
  | first => exact ⟨rfl, hbags, hnext, hrandom, hhost⟩
  | bag id =>
    unfold Selector.pick
    dsimp only
    rw [hbags id, hrandom]
    exact ⟨rfl, Bags.get_put_same hbags id _, hnext, rfl, hhost⟩
  | weighted weights =>
    unfold Selector.pick
    dsimp only
    split
    · exact ⟨rfl, hbags, hnext, hrandom, hhost⟩
    · rw [hrandom]
      exact ⟨rfl, hbags, hnext, rfl, hhost⟩
  | host choose =>
    unfold Selector.pick
    dsimp only
    rw [hrandom, hhost]
    exact ⟨rfl, hbags, hnext, rfl, rfl⟩

namespace World

/-- **Twins:** worlds that differ in nothing but what their journals, now gone on alike, held
before. -/
structure Twin (j k : Journal) (w v : World H) : Prop where
  tags : w.tags = v.tags
  runtime : w.runtime = v.runtime
  chance : w.chance.Same v.chance
  journal : ∃ new, w.journal = new ++ j ∧ v.journal = new ++ k

namespace Twin

variable {j k : Journal} {w v : World H}

theorem enter (h : Twin j k w v) (e : Entry) : Twin j k (w.enter e) (v.enter e) := by
  obtain ⟨new, hw, hv⟩ := h.journal
  refine ⟨h.tags, h.runtime, h.chance, e :: new, ?_, ?_⟩
  · rw [World.enter, hw]
    rfl
  · rw [World.enter, hv]
    rfl

theorem say (h : Twin j k w v) (n : Notice) : Twin j k (w.say n) (v.say n) :=
  h.enter (.notice n)

theorem pick (h : Twin j k w v) (chooser : Chooser) (selector : Selector H) (count : Nat) :
    (w.pick chooser selector count).1 = (v.pick chooser selector count).1 ∧
      Twin j k (w.pick chooser selector count).2 (v.pick chooser selector count).2 := by
  obtain ⟨hi, hchance⟩ := h.chance.pick selector count
  obtain ⟨new, hw, hv⟩ := h.journal
  refine ⟨hi, h.tags, h.runtime, hchance, .pick chooser count (selector.pick count v.chance).1 ::
    new, ?_, ?_⟩
  · show Entry.pick chooser count (selector.pick count w.chance).1 :: w.journal = _
    rw [hi, hw]
    rfl
  · show Entry.pick chooser count (selector.pick count v.chance).1 :: v.journal = _
    rw [hv]
    rfl

theorem freshBag (h : Twin j k w v) :
    w.freshBag.1 = v.freshBag.1 ∧ Twin j k w.freshBag.2 v.freshBag.2 := by
  obtain ⟨hbags, hnext, hrandom, hhost⟩ := h.chance
  refine ⟨congrArg BagId.fresh hnext, h.tags, h.runtime, ⟨hbags, ?_, hrandom, hhost⟩, h.journal⟩
  exact congrArg Nat.succ hnext

theorem leave (h : Twin j k w v) (level : Nat) : Twin j k (w.leave level) (v.leave level) := by
  refine ⟨?_, h.runtime, h.chance, h.journal⟩
  exact congrArg (fun ts : TagStore H => ts.leave level) h.tags

theorem setTag (h : Twin j k w v) (level : Nat) (name : String) (values : List String)
    (selector : Selector H) :
    Twin j k (w.setTag level name values selector) (v.setTag level name values selector) := by
  have stored : ∀ {w v : World H}, Twin j k w v →
      Twin j k { w with tags := w.tags.store level name ⟨values, selector⟩ }
        { v with tags := v.tags.store level name ⟨values, selector⟩ } := by
    intro w v h
    exact ⟨congrArg (fun ts : TagStore H => ts.store level name _) h.tags, h.runtime,
      h.chance, h.journal⟩
  unfold World.setTag
  rw [h.tags]
  dsimp only
  split
  · exact stored (((h.say _).say _).enter _)
  · exact stored ((h.say _).enter _)

theorem define (h : Twin j k w v) (name : String) (values : List (List (Node BagId))) :
    Twin j k (w.define name values) (v.define name values) := by
  have hsaid := h.say (if v.runtime.contains name then .runtimeRuleReplaced name
    else .runtimeRuleAdded name)
  obtain ⟨hid, hfresh⟩ := hsaid.freshBag
  have hentered := hfresh.enter (.define name values.length)
  unfold World.define
  rw [h.runtime]
  dsimp only
  rw [hid]
  exact ⟨hentered.tags, congrArg (fun rules : Dict (Rule H) => rules.insert name _)
    hentered.runtime, hentered.chance, hentered.journal⟩

theorem call (h : Twin j k w v) (method : Method H) (name text : String) (arguments : List String) :
    (w.call method name text arguments).1 = (v.call method name text arguments).1 ∧
      Twin j k (w.call method name text arguments).2 (v.call method name text arguments).2 := by
  have hentered := (h.say (.modifierRun name text arguments)).enter (.call name text arguments)
  obtain ⟨hbags, hnext, hrandom, hhost⟩ := hentered.chance
  unfold World.call
  dsimp only
  rw [hhost]
  exact ⟨rfl, hentered.tags, hentered.runtime, ⟨hbags, hnext, hrandom, rfl⟩, hentered.journal⟩

end Twin

/-- **No operation tells twins apart,** and twins they remain. -/
theorem respected_twin (j k : Journal) : World.Respected (Twin (H := H) j k) where
  tags h := h.tags
  runtime h := h.runtime
  say h n := h.say n
  freshBag h := h.freshBag
  pick h chooser selector count := h.pick chooser selector count
  call h method name text arguments := h.call method name text arguments
  define h name values := h.define name values
  setTag h level name values selector := h.setTag level name values selector
  leave h level := h.leave level

end World

end TemplateGrammar
