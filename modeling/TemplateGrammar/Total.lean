/-!
# Totals

The sum of some numbers: of the characters before a mark, of the weights of candidates, of the bytes
of outputs.
-/

namespace TemplateGrammar

/-- The sum of some numbers. -/
def total (ns : List Nat) : Nat :=
  ns.foldr (· + ·) 0

@[simp] theorem total_nil : total [] = 0 := rfl

@[simp] theorem total_cons (n : Nat) (ns : List Nat) : total (n :: ns) = n + total ns := rfl

theorem total_append (ns ms : List Nat) : total (ns ++ ms) = total ns + total ms := by
  induction ns with
  | nil => simp
  | cons n ns ih => rw [List.cons_append, total_cons, total_cons, ih, Nat.add_assoc]

end TemplateGrammar
