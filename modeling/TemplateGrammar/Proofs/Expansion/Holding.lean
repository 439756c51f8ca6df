import TemplateGrammar.Proofs.Expansion.Arguments
import TemplateGrammar.Proofs.Expansion.Depth
import TemplateGrammar.Proofs.Expansion.Kept

/-!
# What holds on the way of an expansion

What every operation keeps (`World.Kept`) holds after an expansion, and it holds at every machine on
its way.  With it goes what is said of the nodes: the work that is left on the frames is good
(`Machine.Holds`).  A step carries an instruction out, which is an operation on the world; or it
calls a task, which is made of the nodes of the instruction or of those that a rule stands for; or
it takes a frame away.  None of these brings in work that is not good (`Kept.holds_next`), so it
holds wherever an expansion comes through (`Kept.holds_of_reaches`).
-/

namespace TemplateGrammar

variable {H : Type} {s : Setting H} {good : Node BagId → Prop} {P : World H → Prop}

/-- It holds of every node of an instruction.  A tag is one that a node sets, with a bag made for
it, one of the first `k`. -/
def Instr.Every (good : Node BagId → Prop) (k : Nat) : Instr H → Prop
  | .node n => Node.Every good [n]
  | .evaluate nodes => Node.Every good nodes
  | .setTag name selector => ∃ values, (∃ n < k, selector = .default values (.fresh n)) ∧
    good (.tag name values)
  | .branch _ yes no => Node.Every good yes ∧ ∀ v ∈ no, Node.Every good v
  | .clearArguments => True
  | .modify _ => True

theorem Instr.Every.mono {k l : Nat} {i : Instr H} (h : i.Every good k) (hk : k ≤ l) :
    i.Every good l := by
  cases i with
  | setTag name selector =>
    obtain ⟨values, ⟨n, hn, hs⟩, hgood⟩ := h
    exact ⟨values, ⟨n, Nat.lt_of_lt_of_le hn hk, hs⟩, hgood⟩
  | _ => exact h

namespace Machine

/-- The property holds of the world, and all work that is left is good. -/
structure Holds (good : Node BagId → Prop) (P : World H → Prop) (m : Machine H) : Prop where
  world : P m.world
  work : ∀ f ∈ m.frames.toList, ∀ i ∈ f.pending, i.Every good m.world.issued

variable {k : Nat}

theorem every_of_mem_work {nodes : List (Node BagId)} (h : Node.Every good nodes) {i : Instr H}
    (hi : i ∈ work nodes) : i.Every good k := by
  obtain ⟨n, hn, rfl⟩ := List.mem_map.mp hi
  exact h.single hn

theorem every_of_mem_evaluate {values : List (List (Node BagId))}
    (h : ∀ v ∈ values, Node.Every good v) {i : Instr H} (hi : i ∈ values.map Instr.evaluate) :
    i.Every good k := by
  obtain ⟨v, hv, rfl⟩ := List.mem_map.mp hi
  exact h v hv

theorem every_of_mem_chainWork {mods : List (Modifier BagId)}
    (h : ∀ v ∈ mods.flatMap Modifier.parameters, Node.Every good v) {i : Instr H}
    (hi : i ∈ chainWork s mods) :
    i.Every good k := by
  obtain ⟨mod, hmod, hi⟩ := List.mem_flatMap.mp hi
  rcases List.mem_append.mp hi with hi | hi
  · have hparameters : ∀ v ∈ mod.parameters, Node.Every good v := fun v hv =>
      h v (List.mem_flatMap.mpr ⟨mod, (List.mem_filter.mp hmod).1, hv⟩)
    exact every_of_mem_evaluate hparameters hi
  · rcases List.mem_cons.mp hi with rfl | hi
    · trivial
    · rw [List.mem_singleton.mp hi]
      trivial

/-- **The work of a good task is good.** -/
theorem every_of_mem_taskWork {t : Task} (h : t.Every good k) {i : Instr H} (hi : i ∈ t.work s) :
    i.Every good k := by
  cases t with
  | nodes nodes mods =>
    rcases List.mem_append.mp hi with hi | hi
    · exact every_of_mem_work h.1 hi
    · exact every_of_mem_chainWork h.2 hi
  | tag name values site =>
    obtain ⟨hgood, ⟨n, hn, rfl⟩, hvalues⟩ := h
    rcases List.mem_append.mp hi with hi | hi
    · exact every_of_mem_evaluate hvalues hi
    · rw [List.mem_singleton.mp hi]
      exact ⟨values, ⟨n, hn, rfl⟩, hgood⟩
  | condition operands op yes no =>
    obtain ⟨hoperands, hyes, hno⟩ := h
    rcases List.mem_append.mp hi with hi | hi
    · exact every_of_mem_evaluate hoperands hi
    · rw [List.mem_singleton.mp hi]
      exact ⟨hyes, hno⟩

theorem Calls.issued_le {level : Nat} {i : Instr H} {args : List String} {w w' : World H} {t : Task}
    {handover : Handover} {deepens : Bool} (h : Calls s level i args w t handover deepens w') :
    w.issued ≤ w'.issued := by
  cases h with
  | @reference name _ _ _ _ _ w₁ h =>
    have hresolve := w.issued_resolve s level name
    rw [h] at hresolve
    exact Nat.le_of_eq (hresolve.symm.trans (w₁.issued_sayAll _).symm)
  | @choice site values _ _ _ _ _ w₁ h hget =>
    have hpick := w.issued_pick .inline (.default values site) values.length
    rw [h] at hpick
    exact Nat.le_of_eq (hpick.symm.trans (w₁.issued_sayAll _).symm)
  | tag => exact Nat.le_succ _
  | _ => exact Nat.le_refl _

end Machine

namespace World.Kept

open Direct (Leaves EntersKeeping)

variable (hK : World.Kept s good P)

include hK

theorem carryOut {entrance : Entrance H} (he : EntersKeeping good P entrance) {level : Nat}
    (hl : 1 ≤ level) {i : Instr H} {held : Held} {w : World H}
    (hi : i.Every good w.issued) (hw : P w) :
    Leaves (World.After w.issued P) (Direct.carryOut s entrance level i held w) := by
  have here : World.After w.issued P w := ⟨hw, Nat.le_refl _⟩
  cases i with
  | node n => exact (hK.node he hl hi here).andThen fun _ _ hw₁ => hw₁
  | evaluate nodes => exact Leaves.andThen (he _ _ _ _ _ hl ⟨hi, by simp⟩ here) fun _ _ hw₁ => hw₁
  | clearArguments => exact here
  | modify name =>
    rw [Direct.carryOut]
    split
    · exact ⟨hK.say _ hw, Nat.le_refl _⟩
    · exact ⟨hK.call _ _ _ _ hw, Nat.le_refl _⟩
  | setTag name selector =>
    obtain ⟨values, ⟨n, hn, rfl⟩, hgood⟩ := hi
    exact ⟨hK.setTag _ hw hl hgood hn, Nat.le_of_eq (w.issued_setTag _ _ _ _).symm⟩
  | branch op yes no => exact (hK.branch he hl hi.1 hi.2 _ here).andThen fun _ _ hw₁ => hw₁

/-- **A good instruction calls good tasks,** and calling keeps the property. -/
theorem calls {level : Nat} {i : Instr H} {args : List String} {w w' : World H} {t : Task}
    {handover : Handover} {deepens : Bool}
    (h : Machine.Calls s level i args w t handover deepens w') (hi : i.Every good w.issued)
    (hw : P w) : t.Every good w'.issued ∧ P w' := by
  -- what a node is made of is good
  have hpart : ∀ {n : Node BagId}, Node.Every good [n] → ∀ part ∈ n.parts, Node.Every good part :=
    fun hn part hp => hn.part List.mem_cons_self hp
  have hcondition : ∀ {c : Condition BagId}, Node.Every good c.left → Node.Every good c.right →
      ∀ v ∈ c.operands s level w, Node.Every good v :=
      fun hleft hright => hK.operands hleft hright hw
  cases h with
  | reference h =>
    obtain ⟨hw₁, hnodes⟩ := hK.resolve level _ hw
    rw [h] at hw₁ hnodes
    exact ⟨⟨hnodes _ _ rfl, hpart hi⟩, hK.sayUnknown _ hw₁⟩
  | choice h hget =>
    have hpick := hK.choice hw (hi.here _ List.mem_cons_self)
    rw [h] at hpick
    refine ⟨⟨hpart hi _ (List.mem_append_left _ (List.mem_of_getElem? hget)), ?_⟩,
      hK.sayUnknown _ hpick⟩
    exact fun v hv => hpart hi v (List.mem_append_right _ hv)
  | tag =>
    have hid : ∃ n < w.freshBag.2.issued, w.freshBag.1 = .fresh n :=
      ⟨w.issued, Nat.lt_succ_self _, rfl⟩
    exact ⟨⟨hi.here _ List.mem_cons_self, hid, hpart hi⟩, hK.freshBag hw⟩
  | @ifBlock c yes no =>
    refine ⟨⟨hcondition (hpart hi _ (by simp [Node.parts])) (hpart hi _ (by simp [Node.parts])),
      hpart hi _ (by simp [Node.parts]), ?_⟩, hw⟩
    rintro v rfl
    exact hpart hi v (by simp [Node.parts])
  | @whileBlock c body =>
    have hbody : Node.Every good (body ++ [.whileBlock c body]) :=
      (hpart hi body (by simp [Node.parts])).append hi
    exact ⟨⟨hcondition (hpart hi _ (by simp [Node.parts])) (hpart hi _ (by simp [Node.parts])),
      hbody, by simp⟩, hw⟩
  | evaluate => exact ⟨⟨hi, by simp⟩, hw⟩
  | yes => exact ⟨⟨hi.1, by simp⟩, hK.say _ hw⟩
  | no => exact ⟨⟨hi.2 _ rfl, by simp⟩, hK.say _ hw⟩

/-- **A step** leads from a machine where it holds to another one. -/
theorem holds_next {m m' : Machine H} (hstep : Machine.InStep s m) (h : m.Holds good P)
    (hn : Machine.Next s m m') : m'.Holds good P := by
  rcases Machine.advance_eq_running hn with ⟨top, below, i, rest, hf, hp, -⟩
    | ⟨top, parent, lower, hf, hp, hm⟩
  · have hwork := h.work
    rw [hf] at hwork
    obtain ⟨pending, text, args, handover, deepens⟩ := top
    obtain rfl : pending = i :: rest := hp
    have hi : i.Every good m.world.issued := hwork _ List.mem_cons_self i List.mem_cons_self
    have hrest : ∀ k, m.world.issued ≤ k → ∀ j ∈ rest, j.Every good k := fun k hk j hj =>
      (hwork _ List.mem_cons_self j (List.mem_cons_of_mem i hj)).mono hk
    have hbelow : ∀ k, m.world.issued ≤ k → ∀ f ∈ below, ∀ j ∈ f.pending, j.Every good k :=
      fun k hk f hf j hj => (hwork f (List.mem_cons_of_mem _ hf) j hj).mono hk
    have stood : m.Stands m.world m.level ((Held.mk text args).frame (i :: rest) handover
        deepens :: below) := ⟨rfl, rfl, hf⟩
    rcases Machine.carried_or_called stood hn with ⟨held, w, stands, hc⟩
      | ⟨t, ho, d, w, hc, -, -, stands⟩
    · -- whoever enters frames, none is entered, so one that refuses everything will do
      let refuse : Entrance H := fun _ _ _ w => (.error (.frameLimit 0), w)
      have hkeep : EntersKeeping good P refuse := fun _ _ _ _ _ _ _ hw => hw
      have hleaves : Leaves (World.After m.world.issued P)
          (Direct.carryOut s refuse m.level i ⟨text, args⟩ m.world) :=
        hK.carryOut hkeep hstep.level_pos hi h.world
      rw [hc] at hleaves
      obtain ⟨hw, hissued⟩ : World.After m.world.issued P m'.world := stands.world ▸ hleaves
      refine ⟨hw, ?_⟩
      rw [stands.frames]
      intro f hf
      rcases List.mem_cons.mp hf with rfl | hf
      · exact hrest _ hissued
      · exact hbelow _ hissued f hf
    · obtain ⟨ht, hw⟩ := hK.calls hc hi h.world
      have hissued := hc.issued_le
      rw [← stands.world] at ht hw hissued
      refine ⟨hw, ?_⟩
      rw [stands.frames]
      intro f hf
      rcases List.mem_cons.mp hf with rfl | hf
      · exact fun j hj => Machine.every_of_mem_taskWork ht hj
      rcases List.mem_cons.mp hf with rfl | hf
      · exact hrest _ hissued
      · exact hbelow _ hissued f hf
  · have hwork := h.work
    rw [hf] at hwork
    have hissued : m'.world.issued = m.world.issued := by
      rw [hm.world, Machine.worldBelow]
      split <;> rfl
    refine ⟨?_, ?_⟩
    · rw [hm.world, Machine.worldBelow]
      split
      · rename_i hdeep
        have htwo := hstep.two_le_level hf hdeep
        exact hK.leave (by omega) h.world
      · exact h.world
    · rw [hm.frames, hissued]
      intro f hf
      rcases List.mem_cons.mp hf with rfl | hf
      · rw [Machine.pending_handOver]
        exact hwork parent (List.mem_cons_of_mem _ List.mem_cons_self)
      · exact hwork f (List.mem_cons_of_mem _ (List.mem_cons_of_mem _ hf))

/-- **Wherever an expansion of good nodes comes through,** what every operation keeps holds, and the
work that is left is good. -/
theorem holds_of_reaches {nodes : List (Node BagId)} {m m₀ m₁ : Machine H}
    (hn : Node.Every good nodes) (hw : P m.world) (hb : m.begin s nodes = .go m₀)
    (hr : Machine.Reaches s m₀ m₁) : m₁.Holds good P := by
  induction hr with
  | refl =>
    obtain ⟨-, -, stands⟩ := Machine.begin_eq_go hb
    refine ⟨stands.world ▸ hK.leave (Nat.le_refl 1) hw, ?_⟩
    rw [stands.frames]
    intro f hf
    rw [List.mem_singleton.mp hf]
    exact fun i hi => Machine.every_of_mem_work hn hi
  | tail hr hnext ih => exact hK.holds_next (Machine.inStep_of_reaches hb hr) ih hnext

end World.Kept

end TemplateGrammar
