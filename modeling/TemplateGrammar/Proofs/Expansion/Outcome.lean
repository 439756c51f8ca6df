import TemplateGrammar.Proofs.Expansion.Errors
import TemplateGrammar.Proofs.Expansion.Levels
import TemplateGrammar.Proofs.Expansion.Simulation

/-!
# What an expansion answers

The machine with its frames and the evaluator without them answer the same (`expand_eq_direct`),
from the same world to the same world: tags, rules of the run, bags, random stream, what the host
remembers, and the journal with every pick, call and writing in order.  What the machine held
before, frames of an expansion that was broken off among it, has no part in that.

Every expansion ends (`expand_ends`).  On the way the machine is never without a top frame, and a
frame that is taken off has one below it; at the end stands a text, or the error of one of the two
limits.
-/

namespace TemplateGrammar.Machine

variable {H : Type} {s : Setting H}

/-! ### From a course to its outcome -/

theorem expand_of_stop {nodes : List (Node BagId)} {m m' : Machine H} {e : ExpansionError}
    (h : m.begin s nodes = .stop e m') : m.expand s nodes = (.error e, m') := by
  unfold expand
  split
  · rename_i h₁
    obtain ⟨rfl, rfl⟩ := Turn.stop.inj (h.symm.trans h₁)
    rfl
  · rename_i h₁
    exact absurd (h.symm.trans h₁) (by simp)

theorem expand_of_go {nodes : List (Node BagId)} {m m₀ : Machine H} (h : m.begin s nodes = .go m₀) :
    m.expand s nodes = run s m₀ (height_frames_begin h) := by
  unfold expand
  split
  · rename_i h₁
    exact absurd (h.symm.trans h₁) (by simp)
  · rename_i h₁
    obtain rfl := Turn.go.inj (h.symm.trans h₁)
    rfl

theorem expand_of_done {nodes : List (Node BagId)} {m m₀ m₁ m₂ : Machine H} {text : String}
    (h : m.begin s nodes = .go m₀) (hr : Reaches s m₀ m₁) (hd : m₁.advance s = .done text m₂) :
    m.expand s nodes = (.ok text, m₂) := by
  rw [expand_of_go h, run_eq_of_reaches hr, run_of_done hd]

theorem expand_of_failed {nodes : List (Node BagId)} {m m₀ m₁ m₂ : Machine H} {e : ExpansionError}
    (h : m.begin s nodes = .go m₀) (hr : Reaches s m₀ m₁) (hf : m₁.advance s = .failed e m₂) :
    m.expand s nodes = (.error e, m₂) := by
  rw [expand_of_go h, run_eq_of_reaches hr, run_of_failed hf]

theorem outcome_expand (s : Setting H) (nodes : List (Node BagId)) (m : Machine H) :
    ((m.expand s nodes).1, (m.expand s nodes).2.world) = Direct.expand s nodes m.world := by
  cases hb : m.begin s nodes with
  | stop e m' => rw [expand_of_stop hb, expand_of_begin_stop hb]
  | go m₀ =>
    have hf := follows_begin hb
    rcases hx : Direct.expand s nodes m.world with ⟨result, w⟩
    rw [hx] at hf
    cases result with
    | ok text =>
      obtain ⟨m₁, hr, args, h₁⟩ := hf
      rw [expand_of_done hb hr (advance_of_root s h₁.frames rfl), ← h₁.world]
    | error e =>
      obtain ⟨m₁, m₂, hr, ha, hw⟩ := hf
      rw [expand_of_failed hb hr ha, hw]

/-- **The machine computes the recursive evaluator:** the same text or the same error, which is that
of a limit, and the same world, with the same doings in the same order in its journal. -/
theorem expand_eq_direct (s : Setting H) (nodes : List (Node BagId)) (m : Machine H) :
    (m.expand s nodes).1 = (Direct.expand s nodes m.world).1 ∧
      (m.expand s nodes).2.world = (Direct.expand s nodes m.world).2 ∧
      ∀ e, (Direct.expand s nodes m.world).1 = .error e → e.IsLimit s := by
  have h := outcome_expand s nodes m
  exact ⟨congrArg Prod.fst h, congrArg Prod.snd h, Direct.onlyLimits_expand s nodes m.world⟩

/-! ### On the way -/

/-- **Nothing is missing for a step:** there is a top frame, also once its next instruction has been
taken, and a frame without work either is the root that ends the expansion, or has a frame below
it. -/
structure Live (m : Machine H) : Prop where
  top : ∃ top, m.frames.top? = some top
  working : ∀ rest, ∃ top, (m.taken rest).frames.top? = some top
  below : ∀ top, m.frames.top? = some top → top.pending = [] → m.frames.height ≠ 1 →
    2 ≤ m.frames.height

theorem live_of_ne_nil {m : Machine H} (h : m.frames.toList ≠ []) : m.Live := by
  obtain ⟨top, below, hf⟩ := List.exists_cons_of_ne_nil h
  have hh : m.frames.height = below.length + 1 := by
    rw [← Stack.length_toList, hf, List.length_cons]
  refine ⟨⟨top, top?_of_toList hf⟩, fun rest => ⟨_, top?_of_toList (toList_taken rest hf)⟩, ?_⟩
  intro _ _ _ hne
  omega

theorem marks_ne_nil_next {m m' : Machine H} (h : Next s m m') (hm : m.marks ≠ []) :
    m'.marks ≠ [] := by
  cases move_of_next h with
  | work marks => rwa [marks]
  | entry deepens marks =>
    rw [marks]
    exact List.cons_ne_nil _ _
  | exit deepens marks rest => exact rest

theorem live_reaches {nodes : List (Node BagId)} {m m₀ m₁ : Machine H}
    (h : m.begin s nodes = .go m₀) (hr : Reaches s m₀ m₁) : m₁.Live := by
  have hm : m₁.marks ≠ [] := by
    induction hr with
    | refl =>
      rw [marks, (begin_eq_go h).2.2.frames]
      exact List.cons_ne_nil _ _
    | tail _ hn ih => exact marks_ne_nil_next hn ih
  exact live_of_ne_nil fun hf => hm (by rw [marks, hf]; rfl)

/-- **Every expansion ends,** whatever the selectors pick and the methods answer: it is refused at
once by a limit, or some steps lead from its start to its end, which is a text or the error of a
limit.  At none of these steps is a frame missing. -/
theorem expand_ends (s : Setting H) (nodes : List (Node BagId)) (m : Machine H) :
    (∃ e m', m.begin s nodes = .stop e m' ∧ e.IsLimit s ∧ m.expand s nodes = (.error e, m')) ∨
    (∃ m₀ m₁, m.begin s nodes = .go m₀ ∧ Reaches s m₀ m₁ ∧ (∀ m₂, Reaches s m₀ m₂ → m₂.Live) ∧
      ((∃ text m₂, m₁.advance s = .done text m₂ ∧ m.expand s nodes = (.ok text, m₂)) ∨
        (∃ e m₂, m₁.advance s = .failed e m₂ ∧ e.IsLimit s ∧
          m.expand s nodes = (.error e, m₂)))) := by
  have limited : ∀ e m', m.expand s nodes = (.error e, m') → e.IsLimit s := by
    intro e m' he
    have h := outcome_expand s nodes m
    rw [he] at h
    exact Direct.onlyLimits_expand s nodes m.world e (congrArg Prod.fst h.symm)
  cases hb : m.begin s nodes with
  | stop e m' =>
    have he := expand_of_stop hb
    exact .inl ⟨e, m', rfl, limited e m' he, he⟩
  | go m₀ =>
    right
    obtain ⟨m₁, hr, hend⟩ := exists_end s m₀ (height_frames_begin hb)
    refine ⟨m₀, m₁, rfl, hr, fun m₂ h₂ => live_reaches hb h₂, ?_⟩
    cases ha : m₁.advance s with
    | running m₂ => exact absurd ha (hend m₂)
    | done text m₂ => exact .inl ⟨text, m₂, rfl, expand_of_done hb hr ha⟩
    | failed e m₂ =>
      have he := expand_of_failed hb hr ha
      exact .inr ⟨e, m₂, rfl, limited e m₂ he, he⟩

end TemplateGrammar.Machine
