/-!
# Countdowns

A stack of at most `n` frames, each with some work left, read from the root upwards, is a number of
`n` digits: a frame with `k` things left to do is the digit `k + 1`, and a place without a frame is
nought.  Such numbers are compared at the first place where they differ.

Two moves make the number smaller: taking a thing off a frame, whatever is put on top of it then,
and taking away a frame.  Since no sequence of such numbers falls for ever, a machine whose every
step is one of these moves comes to an end.
-/

namespace TemplateGrammar

/-- Numbers of `n` digits. -/
def Countdown : Nat → Type
  | 0 => Unit
  | n + 1 => Nat × Countdown n

namespace Countdown

/-- The order of countdowns: the first digit that differs decides. -/
@[reducible]
def order : (n : Nat) → WellFoundedRelation (Countdown n)
  | 0 => ⟨fun _ _ => False, ⟨fun _ => ⟨_, fun _ h => h.elim⟩⟩⟩
  | n + 1 => Prod.lex ⟨(· < ·), Nat.lt_wfRel.wf⟩ (order n)

instance (n : Nat) : WellFoundedRelation (Countdown n) := order n

/-- The countdown of the work left on each frame, the root's first. -/
def ofWork : (n : Nat) → List Nat → Countdown n
  | 0, _ => ()
  | n + 1, [] => (0, ofWork n [])
  | n + 1, k :: rest => (k + 1, ofWork n rest)

/-- **Taking work off a frame** makes the number smaller, whatever is put above. -/
theorem ofWork_take (n : Nat) (below : List Nat) (k : Nat) (above before : List Nat)
    (h : below.length < n) :
    (order n).rel (ofWork n (below ++ k :: above)) (ofWork n (below ++ (k + 1) :: before)) := by
  induction n generalizing below with
  | zero => exact absurd h (Nat.not_lt_zero _)
  | succ n ih =>
    cases below with
    | nil => exact Prod.Lex.left _ _ (Nat.lt_succ_self _)
    | cons b below =>
      refine Prod.Lex.right _ (ih below ?_)
      simpa using h

/-- **Taking away a frame** makes the number smaller. -/
theorem ofWork_drop (n : Nat) (below : List Nat) (k : Nat) (above : List Nat)
    (h : below.length < n) : (order n).rel (ofWork n below) (ofWork n (below ++ k :: above)) := by
  induction n generalizing below with
  | zero => exact absurd h (Nat.not_lt_zero _)
  | succ n ih =>
    cases below with
    | nil => exact Prod.Lex.left _ _ (Nat.succ_pos _)
    | cons b below =>
      refine Prod.Lex.right _ (ih below ?_)
      simpa using h

end Countdown

end TemplateGrammar
