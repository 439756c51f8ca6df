import TemplateGrammar.Proofs.Engine.History
import TemplateGrammar.Proofs.Expansion.Twins

/-!
# Clean slates

A call that keeps nothing does not depend on what was done with the engine before.  Two engines
agree (`Engine.Agree`) if they have the same options, rules, objects, methods, and the same random
stream, memory of the host and bags but for those of runs; they may differ in the tags, in the rules
of the run, and in the frames that stand on their machines because an expansion was broken off.  On
engines that agree such a call answers the same, adds the same to the journals, leaves the same tags
and rules of the run, and leaves engines that agree (`tryExpand_of_agree`).

The call forgets first, and then the worlds of the two engines are twins (`twin_forget`); what the
machines hold besides their worlds has no part in a call (`outcome_forgetting`), and no expansion
tells twins apart.
-/

namespace TemplateGrammar

variable {H : Type}

/-! ### Forgetting -/

theorem TagStore.clear_eq_empty (ts : TagStore H) : ts.clear = .empty ts.scoping := by
  cases ts <;> rfl

/-- Settling keeps the bags that are not those of a run. -/
theorem Bags.get_settle (bs : Bags) (id : BagId) :
    bs.settle.get id = if id.isFresh then Bag.empty else bs.get id := by
  unfold get settle
  cases hid : id.isFresh with
  | true => simp [hid]
  | false =>
    have hkept : (bs.store.filter fun id _ => !id.isFresh)[id]? = bs.store[id]? := by
      cases hb : bs.store[id]? <;> simp [hid, hb]
    rw [hkept]
    rfl

namespace Engine

/-- **Engines that agree:** they differ at most in what a clean slate wipes off. -/
structure Agree (e f : Engine H) : Prop where
  options : e.options = f.options
  rules : e.rules.rules = f.rules.rules
  objects : e.objects = f.objects
  methods : e.methods = f.methods
  random : e.machine.world.chance.random = f.machine.world.chance.random
  host : e.machine.world.chance.host = f.machine.world.chance.host
  bags : ∀ id, id.isFresh = false → e.machine.world.chance.bags.get id =
    f.machine.world.chance.bags.get id

/-- The journal of an engine. -/
def journal (e : Engine H) : Journal :=
  e.machine.world.journal

variable {e f : Engine H}

theorem Agree.setting (h : Agree e f) : e.setting = f.setting := by
  unfold Engine.setting
  rw [h.options, h.rules, h.objects, h.methods]

/-- **After a clean slate,** the worlds of engines that agree are twins. -/
theorem Agree.twin_forget (h : Agree e f) (he : e.Scoped) (hf : f.Scoped) :
    World.Twin e.journal f.journal e.machine.world.forget f.machine.world.forget := by
  refine ⟨?_, rfl, ⟨fun id => ?_, rfl, h.random, h.host⟩, [], rfl, rfl⟩
  · show e.machine.world.tags.clear = f.machine.world.tags.clear
    rw [TagStore.clear_eq_empty, TagStore.clear_eq_empty, he, hf, h.options]
  · show e.machine.world.chance.bags.settle.get id = f.machine.world.chance.bags.settle.get id
    rw [Bags.get_settle, Bags.get_settle]
    cases hid : id.isFresh with
    | true => rfl
    | false => exact h.bags id hid

/-! ### One call -/

theorem twin_takeUp {j k : Journal} {w v : World H} (h : World.Twin j k w v)
    (nodes : List (Node Unit)) :
    (w.takeUp nodes).1 = (v.takeUp nodes).1 ∧
    World.Twin j k (w.takeUp nodes).2 (v.takeUp nodes).2 := by
  obtain ⟨hbags, hnext, hrandom, hhost⟩ := h.chance
  unfold World.takeUp
  dsimp only
  rw [hnext]
  exact ⟨rfl, h.tags, h.runtime, ⟨hbags, rfl, hrandom, hhost⟩, h.journal⟩

theorem Agree.of_twin {j k : Journal} {e' f' : Engine H} (h : Agree e f)
    (he : ∃ m, e' = { e with machine := m }) (hf : ∃ m, f' = { f with machine := m })
    (htwin : World.Twin j k e'.machine.world f'.machine.world) : Agree e' f' := by
  obtain ⟨_, rfl⟩ := he
  obtain ⟨_, rfl⟩ := hf
  exact ⟨h.options, h.rules, h.objects, h.methods, htwin.chance.random, htwin.chance.host,
    fun id _ => htwin.chance.bags id⟩

/-- **Calls that keep nothing** on engines that agree leave twin worlds. -/
theorem Agree.tryExpand (h : Agree e f) (he : e.Scoped) (hf : f.Scoped) (text : String) :
    (e.tryExpand text false).1 = (f.tryExpand text false).1 ∧
      World.Twin e.journal f.journal (e.tryExpand text false).2.machine.world
        (f.tryExpand text false).2.machine.world := by
  -- after forgetting, whatever the machines hold besides their worlds has dropped out of the
  -- outcome
  exact related_tryExpand h.setting.symm
    (alike_evaluated (World.respected_twin _ _) twin_takeUp e.setting text (h.twin_forget he hf))

/-- **A call that keeps nothing starts from a clean slate.**  Whatever was done before with two
engines that now agree, it answers the same text or error, adds the same to the journal, and leaves
the same tags and rules of the run; and the engines agree again. -/
theorem tryExpand_of_agree (he : Used e) (hf : Used f) (h : Agree e f) (text : String) :
    (e.tryExpand text false).1 = (f.tryExpand text false).1 ∧
      (∃ new, (e.tryExpand text false).2.journal = new ++ e.journal ∧
        (f.tryExpand text false).2.journal = new ++ f.journal) ∧
      (e.tryExpand text false).2.machine.world.tags =
        (f.tryExpand text false).2.machine.world.tags ∧
      (e.tryExpand text false).2.machine.world.runtime =
        (f.tryExpand text false).2.machine.world.runtime ∧
      Agree (e.tryExpand text false).2 (f.tryExpand text false).2 := by
  obtain ⟨hresult, htwin⟩ := h.tryExpand (scoping_of_used he) (scoping_of_used hf) text
  exact ⟨hresult, htwin.journal, htwin.tags, htwin.runtime,
    h.of_twin (given_tryExpand e text false) (given_tryExpand f text false) htwin⟩

/-! ### An expansion that was broken off -/

/-- An engine without rules, with room for three frames. -/
def untouched : Engine Unit :=
  .start { tagScoping := .layered, maxLevel := 2, maxFrames := 3 } (.ofSeed 0) ()

/-- A template that sets a tag, and then needs a fourth frame. -/
def tooHigh : String := "[t:x][u:[v:y]]"

/-- The engine on which it was tried. -/
def brokenOff : Engine Unit :=
  untouched.act (.expand tooHigh true)

theorem world_brokenOff :
    brokenOff.machine.world = (evaluated untouched.setting tooHigh untouched.machine.world).2 :=
  congrArg Prod.snd (outcome_tryExpand untouched tooHigh)

theorem agree_brokenOff : Agree brokenOff untouched := by
  -- values that stand alone need no pick, so neither the random stream nor a bag was touched
  obtain ⟨m, hm⟩ : ∃ m, brokenOff = { untouched with machine := m } := given_tryExpand _ _ _
  have hstore : brokenOff.machine.world.chance.bags.store = ∅ := by
    rw [world_brokenOff, ← Std.ExtTreeMap.isEmpty_iff]
    decide +kernel
  refine ⟨by rw [hm], by rw [hm], by rw [hm], by rw [hm], ?_, rfl, fun id _ => ?_⟩
  · rw [world_brokenOff]
    decide +kernel
  · unfold Bags.get
    rw [hstore]
    rfl

/-- The tag that was left is not seen by a call that keeps nothing. -/
theorem tryExpand_after_brokenOff :
    shown (untouched.tryExpand tooHigh true).1 =
      "error: stack overflow: more than 3 execution contexts live" ∧
      (brokenOff.machine.world.tags.get? 1 "t").isSome ∧ Agree brokenOff untouched ∧
      (brokenOff.tryExpand "#t#" false).1 = (untouched.tryExpand "#t#" false).1 := by
  have hused : Used untouched := .start _ _ _
  refine ⟨?_, ?_, agree_brokenOff, (tryExpand_of_agree (hused.act _) hused agree_brokenOff "#t#").1⟩
  · rw [show (untouched.tryExpand tooHigh true).1 =
        (evaluated untouched.setting tooHigh untouched.machine.world).1 from
      congrArg Prod.fst (outcome_tryExpand untouched tooHigh)]
    decide +kernel
  · rw [world_brokenOff]
    decide +kernel

end Engine

end TemplateGrammar
