import Mathlib.Control.Monad.Basic
import TemplateGrammar.Proofs.Engine.Calls
import TemplateGrammar.Proofs.Expansion.Limits

/-!
# Calls under other limits

An engine may be given other limits and asked the same thing.  What a call answers, and the world it
leaves, do not change when limits are raised, but for a call that one of the raised limits has ended
(`underLimits_of_le`).  So limits decide whether a template comes to an end, and never to which.
-/

namespace TemplateGrammar.Engine

variable {H : Type}

/-- The engine with other limits. -/
def withLimits (e : Engine H) (maxLevel maxFrames : Nat) : Engine H :=
  { e with options := { e.options with maxLevel, maxFrames } }

/-- **A call under other limits:** what it answers, and the world it leaves, which is the tags, the
rules of the run, the random stream, the bags of the selectors, the memory of the host, and the
journal. -/
def underLimits (e : Engine H) (maxLevel maxFrames : Nat) (text : String) (keep : Bool) :
    Except EngineError String × World H :=
  match (e.withLimits maxLevel maxFrames).tryExpand text keep with
  | (result, e) => (result, e.machine.world)

theorem underLimits_eq (e : Engine H) (maxLevel maxFrames : Nat) (text : String) (keep : Bool) :
    e.underLimits maxLevel maxFrames text keep =
      evaluated (e.withLimits maxLevel maxFrames).setting text (e.beginning keep) :=
  outcome_call (e.withLimits maxLevel maxFrames) text keep

theorem settled_of_error {text : String} {x : Expanded String H} {cause : ExpansionError}
    (h : x.1 = .error cause) : (settled text x).1 = .error (.expansion cause) := by
  obtain ⟨_, w⟩ := x
  obtain rfl := h
  rfl

/-- **Raised limits change no call** but one that was ended by a limit which is raised. -/
theorem evaluated_raised {s : Setting H} (levels frames : Nat) {text : String} {w : World H}
    (hlevel : (evaluated s text w).1 = .error (.expansion (.levelLimit s.maxLevel)) → levels = 0)
    (hframe : (evaluated s text w).1 = .error (.expansion (.frameLimit s.maxFrames)) → frames = 0) :
    evaluated (s.raised levels frames) text w = evaluated s text w := by
  unfold evaluated at hlevel hframe ⊢
  cases hp : parseText text with
  | error failure => rfl
  | ok nodes =>
    rw [hp] at hlevel hframe
    have hexpanded := Direct.steady_expand s levels frames _ _
      ⟨fun h => hlevel (settled_of_error h), fun h => hframe (settled_of_error h)⟩
    exact congrArg (settled text) hexpanded

/-- **Limits only cut off.**  A call that is answered with a text under some limits is answered with
it, and leaves the same world, under all higher ones.  One that is ended by the limit of the levels
ends so, in the same world, however many more frames there are; and one that is ended by the limit
of the frames, however many more levels. -/
theorem underLimits_of_le (e : Engine H) (text : String) (keep : Bool)
    {d f d' f' : Nat} (hd : d ≤ d') (hf : f ≤ f') :
    (∀ out, (e.underLimits d f text keep).1 = .ok out →
      e.underLimits d' f' text keep = e.underLimits d f text keep) ∧
    ((e.underLimits d f text keep).1 = .error (.expansion (.levelLimit d)) →
      e.underLimits d f' text keep = e.underLimits d f text keep) ∧
    ((e.underLimits d f text keep).1 = .error (.expansion (.frameLimit f)) →
      e.underLimits d' f text keep = e.underLimits d f text keep) := by
  obtain ⟨levels, rfl⟩ := Nat.exists_eq_add_of_le hd
  obtain ⟨frames, rfl⟩ := Nat.exists_eq_add_of_le hf
  simp only [underLimits_eq]
  let s := (e.withLimits d f).setting
  refine ⟨fun out hout => ?_, fun hstop => ?_, fun hstop => ?_⟩
  · have hnone : ∀ cause, (evaluated s text (e.beginning keep)).1 ≠ .error cause := by
      intro cause h
      rw [hout] at h
      cases h
    exact evaluated_raised levels frames (fun h => absurd h (hnone _)) fun h => absurd h (hnone _)
  · have hframe : (evaluated s text (e.beginning keep)).1 ≠
        .error (.expansion (.frameLimit f)) := by
      rw [hstop]
      simp
    exact evaluated_raised 0 frames (fun _ => rfl) fun h => absurd h hframe
  · have hlevel : (evaluated s text (e.beginning keep)).1 ≠
        .error (.expansion (.levelLimit d)) := by
      rw [hstop]
      simp
    exact evaluated_raised levels 0 (fun h => absurd h hlevel) fun _ => rfl

/-! ### A rule that mentions itself -/

/-- The rule `down` sets a tag and goes on with itself; the rule `up` sets a tag and reads it. -/
def downAndUp : Engine Unit :=
  let e : Engine Unit := .start { tagScoping := .layered } (.ofSeed 0) ()
  ((e.addRule "down" (.text "[t:x]#down#")).2.addRule "up" (.text "[t:x]up #t#")).2

/-- The one rule is answered from two levels and four frames on.  The other is ended by a limit of
three levels also where there are nine frames and not five, and by a limit of three frames also
where there are nine levels and not four. -/
theorem underLimits_downAndUp :
    ((downAndUp.underLimits 2 4 "#up#" true).1 = .ok "up x" ∧
      downAndUp.underLimits 5 9 "#up#" true = downAndUp.underLimits 2 4 "#up#" true) ∧
    ((downAndUp.underLimits 3 5 "#down#" true).1 = .error (.expansion (.levelLimit 3)) ∧
      downAndUp.underLimits 3 9 "#down#" true = downAndUp.underLimits 3 5 "#down#" true) ∧
    ((downAndUp.underLimits 4 3 "#down#" false).1 = .error (.expansion (.frameLimit 3)) ∧
      downAndUp.underLimits 9 3 "#down#" false = downAndUp.underLimits 4 3 "#down#" false) := by
  have hup : (downAndUp.underLimits 2 4 "#up#" true).1 = .ok "up x" := by
    rw [underLimits_eq]
    decide +kernel
  have hlevel : (downAndUp.underLimits 3 5 "#down#" true).1 =
      .error (.expansion (.levelLimit 3)) := by
    rw [underLimits_eq]
    decide +kernel
  have hframe : (downAndUp.underLimits 4 3 "#down#" false).1 =
      .error (.expansion (.frameLimit 3)) := by
    rw [underLimits_eq]
    decide +kernel
  refine ⟨⟨hup, ?_⟩, ⟨hlevel, ?_⟩, hframe, ?_⟩
  · exact (underLimits_of_le downAndUp "#up#" true (by decide) (by decide)).1 "up x" hup
  · exact (underLimits_of_le downAndUp "#down#" true (Nat.le_refl 3) (by decide)).2.1 hlevel
  · exact (underLimits_of_le downAndUp "#down#" false (by decide) (Nat.le_refl 3)).2.2 hframe

end TemplateGrammar.Engine
