import Mathlib.Logic.Relation
import TemplateGrammar.Expansion.Run

/-!
# Courses of a machine

`Reaches s m m'` says that some steps lead from `m` to `m'`.  A machine has one course: where two
machines are reached, the later one is reached from the earlier one, and the outcome of a run is the
outcome from any machine on its course (`run_eq_of_reaches`).  Within the limit on frames every
course comes to an end (`exists_end`), because every step counts down.
-/

namespace TemplateGrammar.Machine

variable {H : Type} {s : Setting H}

/-- One step leads from a machine to another. -/
def Next (s : Setting H) (m m' : Machine H) : Prop :=
  m.advance s = .running m'

/-- Some steps lead from a machine to another. -/
abbrev Reaches (s : Setting H) : Machine H → Machine H → Prop :=
  Relation.ReflTransGen (Next s)

theorem Next.unique {m a b : Machine H} (ha : Next s m a) (hb : Next s m b) : a = b :=
  Status.running.inj (ha.symm.trans hb)

theorem height_reaches {m m' : Machine H} (h : Reaches s m m')
    (fits : m.frames.height ≤ s.maxFrames) :
    m'.frames.height ≤ s.maxFrames := by
  induction h with
  | refl => exact fits
  | tail _ hn ih => exact height_frames_advance hn ih

/-- The machine so many steps later, if it comes so far. -/
def after (s : Setting H) : Nat → Machine H → Option (Machine H)
  | 0, m => some m
  | n + 1, m =>
    match m.advance s with
    | .running m' => after s n m'
    | _ => none

theorem reaches_of_after {n : Nat} {m m' : Machine H} (h : after s n m = some m') :
    Reaches s m m' := by
  induction n generalizing m with
  | zero =>
    rw [after] at h
    rw [Option.some.inj h]
  | succ n ih =>
    rw [after] at h
    split at h
    · rename_i hn
      exact .head hn (ih h)
    · simp at h

/-! ### Runs along a course -/

theorem run_of_next {m m' : Machine H} (h : Next s m m') (fits : m.frames.height ≤ s.maxFrames) :
    run s m fits = run s m' (height_frames_advance h fits) := by
  rw [run]
  split
  · rename_i m₁ h₁
    obtain rfl := Next.unique h h₁
    rfl
  · rename_i h₁
    exact absurd (h.symm.trans h₁) (by simp)
  · rename_i h₁
    exact absurd (h.symm.trans h₁) (by simp)

/-- **A run has the outcome of every machine on its course.** -/
theorem run_eq_of_reaches {m m' : Machine H} (h : Reaches s m m')
    (fits : m.frames.height ≤ s.maxFrames) :
    run s m fits = run s m' (height_reaches h fits) := by
  induction h with
  | refl => rfl
  | tail hr hn ih => rw [ih, run_of_next hn]

theorem run_of_done {m m' : Machine H} {text : String} (h : m.advance s = .done text m')
    (fits : m.frames.height ≤ s.maxFrames) : run s m fits = (.ok text, m') := by
  rw [run]
  split
  · rename_i h₁
    exact absurd (h.symm.trans h₁) (by simp)
  · rename_i text₁ m₁ h₁
    obtain ⟨rfl, rfl⟩ := Status.done.inj (h.symm.trans h₁)
    rfl
  · rename_i h₁
    exact absurd (h.symm.trans h₁) (by simp)

theorem run_of_failed {m m' : Machine H} {e : ExpansionError} (h : m.advance s = .failed e m')
    (fits : m.frames.height ≤ s.maxFrames) : run s m fits = (.error e, m') := by
  rw [run]
  split
  · rename_i h₁
    exact absurd (h.symm.trans h₁) (by simp)
  · rename_i h₁
    exact absurd (h.symm.trans h₁) (by simp)
  · rename_i e₁ m₁ h₁
    obtain ⟨rfl, rfl⟩ := Status.failed.inj (h.symm.trans h₁)
    rfl

/-! ### The end of a course -/

/-- **Every course comes to an end.**  The induction is on the countdown of the work left on the
frames. -/
theorem exists_end (s : Setting H) (m : Machine H) (fits : m.frames.height ≤ s.maxFrames) :
    ∃ m', Reaches s m m' ∧ ∀ m'', ¬Next s m' m'' := by
  induction hc : m.countdown s.maxFrames using (Countdown.order s.maxFrames).wf.induction
    generalizing m with
  | h c ih =>
    subst hc
    by_cases hn : ∃ m', Next s m m'
    · obtain ⟨m', hn⟩ := hn
      obtain ⟨m₁, hr, he⟩ := ih _ (countdown_advance hn fits) m' (height_frames_advance hn fits) rfl
      exact ⟨m₁, .head hn hr, he⟩
    · exact ⟨m, .refl, fun m'' h => hn ⟨m'', h⟩⟩

end TemplateGrammar.Machine
