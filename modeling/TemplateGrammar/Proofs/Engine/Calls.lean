import TemplateGrammar.Engine.Basic
import TemplateGrammar.Proofs.Expansion.Outcome
import TemplateGrammar.Proofs.Expansion.Related

/-!
# One call

A call of an engine is said without its machine: the template is read, taken up and expanded by the
recursive evaluator, from world to world (`Engine.evaluated`).  `outcome_tryExpand` says that calls
which keep what earlier ones left do just that; a call that keeps nothing is one that does, in a
world that has forgotten.  What an engine is given, its options, rules, objects and methods, no call
changes.

So what is respected by the operations on worlds is respected by calls (`alike_evaluated`).
-/

namespace TemplateGrammar.Engine

variable {H : Type}

/-- The outcome of an expansion, for the caller. -/
def settled (text : String) : Expanded String H → Except EngineError String × World H
  | (.ok out, w) => (.ok out, w.say (.output text out))
  | (.error cause, w) => (.error (.expansion cause), w)

/-- **A call, from world to world.** -/
def evaluated (s : Setting H) (text : String) (w : World H) : Except EngineError String × World H :=
  match parseText text with
  | .error failure => (.error (.parse failure), w.say (.input text))
  | .ok nodes =>
    match (w.say (.input text)).takeUp nodes with
    | (placed, w) => settled text (Direct.expand s placed w)

theorem evaluated_of_parse (s : Setting H) {text : String} {nodes : List (Node Unit)}
    (hp : parseText text = .ok nodes) (w : World H) : evaluated s text w =
      settled text (Direct.expand s ((w.say (.input text)).takeUp nodes).1
        ((w.say (.input text)).takeUp nodes).2) := by
  rw [evaluated, hp]

theorem outcome_run (e : Engine H) (text : String) (nodes : List (Node Unit)) :
    ((e.run text nodes).1, (e.run text nodes).2.machine.world) =
      settled text (Direct.expand e.setting (e.machine.world.takeUp nodes).1
        (e.machine.world.takeUp nodes).2) := by
  have h := Machine.outcome_expand e.setting (e.machine.world.takeUp nodes).1
    { e.machine with world := (e.machine.world.takeUp nodes).2 }
  rw [← h]
  unfold Engine.run
  dsimp only
  split
  · rename_i hm
    rw [hm]
    rfl
  · rename_i hm
    rw [hm]
    rfl

/-- **The outcome of a call is the evaluator's.** -/
theorem outcome_tryExpand (e : Engine H) (text : String) :
    ((e.tryExpand text true).1, (e.tryExpand text true).2.machine.world) =
      evaluated e.setting text e.machine.world := by
  unfold Engine.tryExpand evaluated
  cases parseText text with
  | error failure => rfl
  | ok nodes => exact outcome_run (e.sayAll [.input text]) text nodes

theorem outcome_forgetting (e : Engine H) (text : String) :
    ((e.tryExpand text false).1, (e.tryExpand text false).2.machine.world) =
      evaluated e.setting text e.machine.world.forget :=
  outcome_tryExpand (e.onWorld World.forget) text

/-- The world in which a call begins: as it is, or forgotten. -/
def beginning (e : Engine H) (keep : Bool) : World H :=
  if keep then e.machine.world else e.machine.world.forget

/-- **The outcome of a call,** whether it keeps anything or not. -/
theorem outcome_call (e : Engine H) (text : String) (keep : Bool) :
    ((e.tryExpand text keep).1, (e.tryExpand text keep).2.machine.world) =
      evaluated e.setting text (e.beginning keep) := by
  cases keep with
  | true => exact outcome_tryExpand e text
  | false => exact outcome_forgetting e text

/-- **Calls on engines that are given the same** answer the same and leave related worlds, if the
evaluator does. -/
theorem related_tryExpand {R : World H → World H → Prop} {e f : Engine H}
    (hsetting : f.setting = e.setting) {text : String} {keep : Bool}
    (h : (evaluated e.setting text (e.beginning keep)).1 =
      (evaluated e.setting text (f.beginning keep)).1 ∧
      R (evaluated e.setting text (e.beginning keep)).2
        (evaluated e.setting text (f.beginning keep)).2) :
    (e.tryExpand text keep).1 = (f.tryExpand text keep).1 ∧
      R (e.tryExpand text keep).2.machine.world (f.tryExpand text keep).2.machine.world := by
  have he := e.outcome_call text keep
  have hf := f.outcome_call text keep
  rw [hsetting] at hf
  rwa [← he, ← hf] at h

/-! ### What a call leaves -/

theorem given_run (e : Engine H) (text : String) (nodes : List (Node Unit)) :
    ∃ m, (e.run text nodes).2 = { e with machine := m } := by
  unfold Engine.run
  dsimp only
  split <;> exact ⟨_, rfl⟩

/-- **What an engine is given stays through a call.** -/
theorem given_tryExpand (e : Engine H) (text : String) (keep : Bool) :
    ∃ m, (e.tryExpand text keep).2 = { e with machine := m } := by
  have kept : ∀ e : Engine H, ∃ m, (e.tryExpand text true).2 = { e with machine := m } := by
    intro e
    unfold Engine.tryExpand
    cases parseText text with
    | error failure => exact ⟨_, rfl⟩
    | ok nodes => exact given_run (e.sayAll [.input text]) text nodes
  cases keep with
  | true => exact kept e
  | false => exact kept (e.onWorld World.forget)

theorem setting_tryExpand (e : Engine H) (text : String) (keep : Bool) :
    (e.tryExpand text keep).2.setting = e.setting := by
  obtain ⟨m, hm⟩ := e.given_tryExpand text keep
  rw [hm]
  rfl

/-! ### Calls in related worlds -/

section

variable {R : World H → World H → Prop} {w v : World H}

theorem alike_settled (say : ∀ {w v}, R w v → ∀ n, R (w.say n) (v.say n)) {text : String}
    {x y : Expanded String H} (h : Direct.Alike R x y) :
    (settled text x).1 = (settled text y).1 ∧ R (settled text x).2 (settled text y).2 := by
  obtain ⟨result, w⟩ := x
  obtain ⟨result', v⟩ := y
  obtain ⟨rfl, hw⟩ := h
  cases result with
  | ok out => exact ⟨rfl, say hw _⟩
  | error cause => exact ⟨rfl, hw⟩

/-- **Calls in related worlds** answer the same and leave related worlds, if templates are taken up
alike. -/
theorem alike_evaluated (hR : World.Respected R) (takeUp : ∀ {w v}, R w v → ∀ nodes,
      (w.takeUp nodes).1 = (v.takeUp nodes).1 ∧ R (w.takeUp nodes).2 (v.takeUp nodes).2)
    (s : Setting H) (text : String) (h : R w v) :
    (evaluated s text w).1 = (evaluated s text v).1 ∧
    R (evaluated s text w).2 (evaluated s text v).2 := by
  have hsaid := hR.say h (.input text)
  unfold evaluated
  cases parseText text with
  | error failure => exact ⟨rfl, hsaid⟩
  | ok nodes =>
    obtain ⟨hplaced, htaken⟩ := takeUp hsaid nodes
    dsimp only
    rw [hplaced]
    exact alike_settled hR.say (Direct.alike_expand hR s _ htaken)

end

end TemplateGrammar.Engine
