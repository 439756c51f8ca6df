import TemplateGrammar.Template.Basic

/-!
# The sites of inline choices

A template that is taken up for expansion gets a bag for each of its inline choices.  `Node.place`
walks a template from left to right and gives the choices it meets the names for the numbers `k`, `k
+ 1`, and so on; it answers with the first number it has not used.
-/

namespace TemplateGrammar.Node

variable {σ τ : Type}

mutual

/-- Give the inline choices of a node their names, counting from `k`. -/
def place (f : Nat → τ) (k : Nat) : Node σ → Node τ × Nat
  | text s => (text s, k)
  | weight n => (weight n, k)
  | rule name modifiers =>
    let m := placeModifiers f k modifiers
    (rule name m.1, m.2)
  | tag name values =>
    let v := placeValues f k values
    (tag name v.1, v.2)
  | define name values =>
    let v := placeValues f k values
    (define name v.1, v.2)
  | choice _ values modifiers =>
    let v := placeValues f (k + 1) values
    let m := placeModifiers f v.2 modifiers
    (choice (f k) v.1 m.1, m.2)
  | ifBlock condition yes no =>
    let c := placeCondition f k condition
    let y := placeList f c.2 yes
    let n := placeOption f y.2 no
    (ifBlock c.1 y.1 n.1, n.2)
  | whileBlock condition body =>
    let c := placeCondition f k condition
    let b := placeList f c.2 body
    (whileBlock c.1 b.1, b.2)

/-- `place` on a list of nodes. -/
def placeList (f : Nat → τ) (k : Nat) : List (Node σ) → List (Node τ) × Nat
  | [] => ([], k)
  | n :: rest =>
    let first := place f k n
    let more := placeList f first.2 rest
    (first.1 :: more.1, more.2)

/-- `place` on a list of values. -/
def placeValues (f : Nat → τ) (k : Nat) : List (List (Node σ)) → List (List (Node τ)) × Nat
  | [] => ([], k)
  | v :: rest =>
    let first := placeList f k v
    let more := placeValues f first.2 rest
    (first.1 :: more.1, more.2)

/-- `place` on a block that may be missing. -/
def placeOption (f : Nat → τ) (k : Nat) : Option (List (Node σ)) → Option (List (Node τ)) × Nat
  | none => (none, k)
  | some nodes =>
    let placed := placeList f k nodes
    (some placed.1, placed.2)

/-- `place` on a modifier. -/
def placeModifier (f : Nat → τ) (k : Nat) : Modifier σ → Modifier τ × Nat
  | ⟨name, parameters⟩ =>
    let v := placeValues f k parameters
    (⟨name, v.1⟩, v.2)

/-- `place` on a chain of modifiers. -/
def placeModifiers (f : Nat → τ) (k : Nat) : List (Modifier σ) → List (Modifier τ) × Nat
  | [] => ([], k)
  | m :: rest =>
    let first := placeModifier f k m
    let more := placeModifiers f first.2 rest
    (first.1 :: more.1, more.2)

/-- `place` on a condition. -/
def placeCondition (f : Nat → τ) (k : Nat) : Condition σ → Condition τ × Nat
  | ⟨left, op, right⟩ =>
    let l := placeList f k left
    let r := placeList f l.2 right
    (⟨l.1, op, r.1⟩, r.2)

end

end TemplateGrammar.Node
