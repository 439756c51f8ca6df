import TemplateGrammar.Proofs.Expansion.Parallel

/-!
# Expansions of related worlds

A relation between worlds is respected if related worlds have the same tags and the same rules of
the run, and every operation on worlds answers the same for related worlds and leaves them related.
Then whole expansions answer the same and leave the worlds related (`alike_expand`): the evaluator
does nothing with a world but apply these operations, and whatever the nodes are, it does so in
parallel.

A property of the tags is a relation too, of a world with itself, and it is respected if writing a
tag and leaving a level keep it (`respected_of_tags`).
-/

namespace TemplateGrammar

variable {H : Type}

/-- **A relation that no operation on worlds breaks or betrays.** -/
structure World.Respected (R : World H → World H → Prop) : Prop where
  tags : ∀ {w v}, R w v → w.tags = v.tags
  runtime : ∀ {w v}, R w v → w.runtime = v.runtime
  say : ∀ {w v}, R w v → ∀ n, R (w.say n) (v.say n)
  freshBag : ∀ {w v}, R w v → w.freshBag.1 = v.freshBag.1 ∧ R w.freshBag.2 v.freshBag.2
  pick : ∀ {w v}, R w v → ∀ chooser selector count,
    (w.pick chooser selector count).1 = (v.pick chooser selector count).1 ∧
      R (w.pick chooser selector count).2 (v.pick chooser selector count).2
  call : ∀ {w v}, R w v → ∀ method name text arguments,
    (w.call method name text arguments).1 = (v.call method name text arguments).1 ∧
      R (w.call method name text arguments).2 (v.call method name text arguments).2
  define : ∀ {w v}, R w v → ∀ name values, R (w.define name values) (v.define name values)
  setTag : ∀ {w v}, R w v → ∀ level name values selector,
    R (w.setTag level name values selector) (v.setTag level name values selector)
  leave : ∀ {w v}, R w v → ∀ level, R (w.leave level) (v.leave level)

theorem World.Respected.parallel {R : World H → World H → Prop} (hR : World.Respected R)
    (s : Setting H) : World.Parallel s (fun _ _ => True) R where
  say n h := hR.say h n
  freshBag h := hR.freshBag h
  call m name text args h := hR.call h m name text args
  leave _ h := hR.leave h _
  resolve name _ h := by
    obtain ⟨hresult, hw⟩ := World.alike_resolve (fun n h => hR.say h n)
      (fun chooser selector count h => hR.pick h chooser selector count) h (by rw [hR.tags h])
        (hR.runtime h)
    exact ⟨hresult, hw, fun nodes _ _ => Node.every_of_forall (fun _ => trivial) nodes⟩
  parameters _ _ part _ := Node.every_of_forall (fun _ => trivial) part
  operands _ h _ _ := by
    refine ⟨Condition.operands_congr (fun name => ?_) (hR.runtime h) _, fun part _ => ?_⟩
    · rw [hR.tags h]
    · exact Node.every_of_forall (fun _ => trivial) part
  choice h _ := hR.pick h _ _ _
  setTag texts h _ _ _ := hR.setTag h _ _ texts _
  define h _ _ := hR.define h _ _

/-- **Related worlds give the same expansion,** and stay related. -/
theorem Direct.alike_expand {R : World H → World H → Prop} (hR : World.Respected R) (s : Setting H)
    (nodes : List (Node BagId)) {w v : World H} (h : R w v) : Alike R (expand s nodes w)
      (expand s nodes v) :=
  (hR.parallel s).expand (Node.every_of_forall (fun _ => trivial) nodes) h

/-! ### Properties of the tags -/

/-- **What writing and leaving keep** is kept by every operation on worlds. -/
theorem World.respected_of_tags {P : TagStore H → Prop}
    (store : ∀ ts level name tag, P ts → P (ts.store level name tag))
    (leave : ∀ ts level, P ts → P (ts.leave level)) :
    World.Respected fun w v : World H => w = v ∧ P w.tags where
  tags h := congrArg World.tags h.1
  runtime h := congrArg World.runtime h.1
  say h n := ⟨congrArg (World.say · n) h.1, h.2⟩
  freshBag h := by
    obtain ⟨rfl, hp⟩ := h
    exact ⟨rfl, rfl, hp⟩
  pick h chooser selector count := by
    obtain ⟨rfl, hp⟩ := h
    exact ⟨rfl, rfl, hp⟩
  call h method name text arguments := by
    obtain ⟨rfl, hp⟩ := h
    exact ⟨rfl, rfl, hp⟩
  define h name values := ⟨congrArg (World.define · name values) h.1, h.2⟩
  setTag h level name values selector := by
    obtain ⟨rfl, hp⟩ := h
    refine ⟨rfl, ?_⟩
    rw [World.tags_setTag]
    exact store _ level name _ hp
  leave h level := ⟨congrArg (World.leave · level) h.1, leave _ level h.2⟩

end TemplateGrammar
