import TemplateGrammar.Proofs.Expansion.Carrying
import TemplateGrammar.Proofs.Expansion.Depth
import TemplateGrammar.Proofs.Expansion.Limits
import TemplateGrammar.Proofs.Expansion.Outcome

/-!
# One list of nodes after another

An expansion that ends with a text leaves no tag above the level of the root (`within_of_expand`).
So what the next expansion does first, dropping deeper tags, changes nothing, and it goes on where
the first one has ended.  Two lists of nodes that are expanded one after the other, with all that
the first one leaves, are therefore expanded as one list (`expand_append_iff`).
-/

namespace TemplateGrammar

variable {H : Type} {s : Setting H}

theorem TagStore.leave_of_within {ts : TagStore H} {level : Nat} (h : ts.Within level) :
    ts.leave level = ts := by
  cases ts with
  | flat tags => rfl
  | layered tags =>
    obtain ⟨layers, descending⟩ := tags
    have hlayers : Layers.upTo level layers = layers := Layers.upTo_of_forall_le h
    exact congrArg TagStore.layered (by simp only [Layers.leave]; congr)

theorem World.leave_of_within {w : World H} {level : Nat} (h : w.tags.Within level) :
    w.leave level = w := by
  rw [World.leave, TagStore.leave_of_within h]

/-! ### Nodes after nodes -/

namespace Direct

variable {α β : Type}

theorem andThen_eq_ok_iff {x : Expanded α H} {f : α → World H → Expanded β H} {b : β}
    {w : World H} : andThen x f = (.ok b, w) ↔ ∃ a w₁, x = (.ok a, w₁) ∧ f a w₁ = (.ok b, w) := by
  constructor
  · intro h
    obtain ⟨result, w₁⟩ := x
    cases result with
    | ok a => exact ⟨a, w₁, rfl, h⟩
    | error e => exact absurd (Prod.mk.inj h).1 (by simp)
  · rintro ⟨a, w₁, rfl, h⟩
    exact h

theorem nodeList_append (enter : Entrance H) (level : Nat) (xs ys : List (Node BagId))
    (w : World H) : nodeList s enter level (xs ++ ys) w =
      andThen (nodeList s enter level xs w) fun a w =>
        andThen (nodeList s enter level ys w) fun b w => (.ok (a ++ b), w) := by
  induction xs generalizing w with
  | nil =>
    show nodeList s enter level ys w = andThen (nodeList s enter level ys w) fun b w =>
      (.ok ("" ++ b), w)
    rcases nodeList s enter level ys w with ⟨result, w₁⟩
    cases result with
    | ok b => rw [andThen, String.empty_append]
    | error e => rfl
  | cons n xs ih =>
    rw [List.cons_append, nodeList, nodeList, andThen_assoc]
    refine andThen_congr fun text w => ?_
    rw [ih, andThen_assoc, andThen_assoc]
    refine andThen_congr fun a w => ?_
    rw [andThen_assoc]
    exact andThen_congr fun b w => by rw [andThen, String.append_assoc]

theorem perform_nodes (enter : Entrance H) (level : Nat) (nodes : List (Node BagId)) (w : World H) :
    perform s enter level (.nodes nodes []) w = nodeList s enter level nodes w := by
  rw [perform]
  rcases nodeList s enter level nodes w with ⟨result, w₁⟩
  cases result <;> rfl

end Direct

/-! ### Expansions after expansions -/

namespace Machine

theorem advance_eq_done {m m' : Machine H} {text : String} (h : m.advance s = .done text m') :
    m.frames.height ≤ 1 ∧ m'.world = m.world := by
  cases hf : m.frames.toList with
  | nil =>
    have hnone : m.frames.top? = none := by rw [Stack.top?_eq_head?, hf]; rfl
    unfold advance at h
    rw [hnone] at h
    obtain ⟨-, rfl⟩ := Status.done.inj h
    rw [← Stack.length_toList, hf]
    exact ⟨Nat.zero_le 1, rfl⟩
  | cons top below =>
    cases hp : top.pending with
    | cons i rest =>
      rw [advance_of_pending hf hp] at h
      cases hs : step s i (m.taken rest) <;> rw [hs] at h <;> cases h
    | nil =>
      cases below with
      | nil =>
        rw [advance_of_root s hf hp] at h
        obtain ⟨-, rfl⟩ := Status.done.inj h
        rw [← Stack.length_toList, hf]
        exact ⟨Nat.le_refl 1, rfl⟩
      | cons parent lower =>
        rw [advance_of_idle s hf hp] at h
        cases h

/-- **An expansion that ends with a text** leaves nothing above the level of the root. -/
theorem within_of_expand {nodes : List (Node BagId)} {m m' : Machine H} {out : String}
    (h : m.expand s nodes = (.ok out, m')) : m'.world.tags.Within 1 := by
  cases hb : m.begin s nodes with
  | stop e m₂ =>
    rw [expand_of_stop hb] at h
    cases (Prod.mk.inj h).1
  | go m₀ =>
    obtain ⟨m₁, hr, hend⟩ := exists_end s m₀ (height_frames_begin hb)
    cases ha : m₁.advance s with
    | running m₂ => exact absurd ha (hend m₂)
    | failed e m₂ =>
      rw [expand_of_failed hb hr ha] at h
      cases (Prod.mk.inj h).1
    | done text m₂ =>
      obtain ⟨-, rfl⟩ := Prod.mk.inj ((expand_of_done hb hr ha).symm.trans h)
      obtain ⟨hheight, hworld⟩ := advance_eq_done ha
      -- the level counts frames, and no more than the root is left
      have hi := inStep_of_reaches hb hr
      have hlevel : m₁.level ≤ 1 := by
        rw [hi.level]
        refine Nat.le_trans List.count_le_length ?_
        rwa [length_marks]
      rw [hworld]
      exact hi.within.mono hlevel

end Machine

namespace Direct

theorem leave_of_expand {nodes : List (Node BagId)} {w w' : World H} {out : String}
    (h : expand s nodes w = (.ok out, w')) : w'.leave 1 = w' := by
  -- any machine in this world will do
  let m : Machine H := ⟨w, .empty, 0⟩
  have houtcome := (Machine.outcome_expand s nodes m).trans h
  obtain ⟨hout, hworld⟩ := Prod.mk.inj houtcome
  rw [← hworld]
  exact World.leave_of_within (Machine.within_of_expand (Prod.ext hout rfl))

/-- **Nodes are expanded to a text after others** as they are behind them in one list. -/
theorem expand_append_iff (xs ys : List (Node BagId)) (w w' : World H) (out : String) :
    expand s (xs ++ ys) w = (.ok out, w') ↔
      ∃ a w₁ b, expand s xs w = (.ok a, w₁) ∧ expand s ys w₁ = (.ok b, w') ∧ a ++ b = out := by
  by_cases hroom : s.maxFrames = 0 ∨ s.maxLevel = 0
  · -- without room for the root nothing is expanded to a text
    have hnone : ∀ (nodes : List (Node BagId)) (w w' : World H) (out : String),
        expand s nodes w ≠ (.ok out, w') := by
      intro nodes w w' out h
      unfold expand at h
      split at h
      · cases (Prod.mk.inj h).1
      · rename_i hframes
        rw [if_pos (hroom.resolve_left (by omega))] at h
        cases (Prod.mk.inj h).1
    constructor
    · exact fun h => absurd h (hnone _ _ _ _)
    · rintro ⟨a, w₁, b, h, -, -⟩
      exact absurd h (hnone _ _ _ _)
  · obtain ⟨free, hfree⟩ := Nat.exists_eq_succ_of_ne_zero fun h => hroom (.inl h)
    have hlevel : s.maxLevel ≠ 0 := fun h => hroom (.inr h)
    have hexpand : ∀ (nodes : List (Node BagId)) (w : World H),
        expand s nodes w = nodeList s (enter s free) 1 nodes (w.leave 1) :=
      fun nodes w => (expand_of_room hfree hlevel nodes w).trans (perform_nodes _ _ _ _)
    rw [hexpand, nodeList_append, andThen_eq_ok_iff]
    constructor
    · rintro ⟨a, w₁, hxs, h⟩
      obtain ⟨b, w₂, hys, h⟩ := andThen_eq_ok_iff.mp h
      obtain ⟨hout, rfl⟩ := Prod.mk.inj h
      rw [← hexpand] at hxs
      refine ⟨a, w₁, b, hxs, ?_, Except.ok.inj hout⟩
      rwa [hexpand, leave_of_expand hxs]
    · rintro ⟨a, w₁, b, hxs, hys, rfl⟩
      rw [hexpand, leave_of_expand hxs] at hys
      rw [hexpand] at hxs
      exact ⟨a, w₁, hxs, andThen_eq_ok_iff.mpr ⟨b, w', hys, rfl⟩⟩

end Direct

namespace Machine

/-- **Expansions compose.**  Expanding one list of nodes to a text and then, with all that this
leaves, another, and expanding both as one list, come to the same: the texts one behind the other,
and the same world, which is the tags, flat or layered, the rules of the run, the random stream, the
bags of the selectors, the memory of the host and the journal.  Where one of the two ways comes to a
text, the other does. -/
theorem expand_append (s : Setting H) (xs ys : List (Node BagId)) (m : Machine H) (out : String)
    (w : World H) : ((m.expand s (xs ++ ys)).1 = .ok out ∧ (m.expand s (xs ++ ys)).2.world = w) ↔
      ∃ a m₁ b m₂, m.expand s xs = (.ok a, m₁) ∧ m₁.expand s ys = (.ok b, m₂) ∧ a ++ b = out ∧
      m₂.world = w := by
  -- what the machines hold besides their worlds has no part in the outcomes
  have hdirect : ∀ (nodes : List (Node BagId)) (m : Machine H) (out : String) (w : World H),
      Direct.expand s nodes m.world = (.ok out, w) ↔ ∃ m₁, m.expand s nodes = (.ok out, m₁) ∧
      m₁.world = w := by
    intro nodes m out w
    rw [← outcome_expand]
    constructor
    · intro h
      obtain ⟨hout, hworld⟩ := Prod.mk.inj h
      exact ⟨_, Prod.ext hout rfl, hworld⟩
    · rintro ⟨m₁, h, rfl⟩
      rw [h]
  have hone : ((m.expand s (xs ++ ys)).1 = .ok out ∧ (m.expand s (xs ++ ys)).2.world = w) ↔
      Direct.expand s (xs ++ ys) m.world = (.ok out, w) := by
    rw [← outcome_expand, Prod.mk.injEq]
  rw [hone, Direct.expand_append_iff]
  constructor
  · rintro ⟨a, w₁, b, hxs, hys, hout⟩
    obtain ⟨m₁, h₁, rfl⟩ := (hdirect xs m a w₁).mp hxs
    obtain ⟨m₂, h₂, hw⟩ := (hdirect ys m₁ b w).mp hys
    exact ⟨a, m₁, b, m₂, h₁, h₂, hout, hw⟩
  · rintro ⟨a, m₁, b, m₂, h₁, h₂, hout, hw⟩
    exact ⟨a, m₁.world, b, (hdirect xs m a _).mpr ⟨m₁, h₁, rfl⟩,
      (hdirect ys m₁ b w).mpr ⟨m₂, h₂, hw⟩, hout⟩

end Machine

end TemplateGrammar
