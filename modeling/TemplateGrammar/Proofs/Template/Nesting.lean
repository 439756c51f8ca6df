import TemplateGrammar.Template.Basic

/-!
# What lies inside a node

`Node.parts` are the lists of nodes a node holds directly: the values of a tag, the candidates of a
choice, the parameters of modifiers, the sides of a condition and the blocks behind it.  Two things
are said of a whole tree by going from part to part.

* `NestsWithin d nodes`: constructs lie at most `d` deep in one another.
* `Throughout p nodes`: `p` holds of the list and of every list of nodes inside it.
-/

namespace TemplateGrammar.Node

variable {σ : Type}

/-- A node that holds no other: a text or a weight. -/
def isLeaf : Node σ → Bool
  | text _ | weight _ => true
  | _ => false

/-- The lists of nodes a node holds directly. -/
def parts : Node σ → List (List (Node σ))
  | text _ | weight _ => []
  | rule _ modifiers => modifiers.flatMap Modifier.parameters
  | tag _ values => values
  | define _ values => values
  | choice _ values modifiers => values ++ modifiers.flatMap Modifier.parameters
  | ifBlock condition yes no => condition.left :: condition.right :: yes :: no.toList
  | whileBlock condition body => [condition.left, condition.right, body]

/-- **Constructs lie at most this deep in one another.**  A text and a weight are no constructs. -/
def NestsWithin : Nat → List (Node σ) → Prop
  | 0, nodes => ∀ n ∈ nodes, n.isLeaf = true
  | d + 1, nodes => ∀ n ∈ nodes, ∀ part ∈ n.parts, NestsWithin d part

/-- **It holds of the list and of every list of nodes inside it.** -/
inductive Throughout (p : List (Node σ) → Prop) : List (Node σ) → Prop
  | intro {nodes : List (Node σ)} (here : p nodes)
    (inside : ∀ n ∈ nodes, ∀ part ∈ n.parts, Throughout p part) :
      Throughout p nodes

theorem parts_of_isLeaf {n : Node σ} (h : n.isLeaf = true) : n.parts = [] := by
  cases n <;> simp [isLeaf] at h <;> rfl

/-! ### Nesting -/

theorem NestsWithin.succ {d : Nat} {nodes : List (Node σ)} (h : NestsWithin d nodes) :
    NestsWithin (d + 1) nodes := by
  induction d generalizing nodes with
  | zero =>
    intro n hn part hpart
    rw [parts_of_isLeaf (h n hn)] at hpart
    cases hpart
  | succ d ih =>
    intro n hn part hpart
    exact ih (h n hn part hpart)

theorem NestsWithin.mono {d d' : Nat} {nodes : List (Node σ)} (h : NestsWithin d nodes)
    (hd : d ≤ d') : NestsWithin d' nodes := by
  induction hd with
  | refl => exact h
  | step _ ih => exact ih.succ

theorem nestsWithin_iff {d : Nat} {nodes : List (Node σ)} :
    NestsWithin d nodes ↔ ∀ n ∈ nodes, NestsWithin d [n] := by
  cases d <;> simp [NestsWithin]

instance instDecidableNestsWithin : (d : Nat) → (nodes : List (Node σ)) →
    Decidable (NestsWithin d nodes)
  | 0, nodes => inferInstanceAs (Decidable (∀ n ∈ nodes, n.isLeaf = true))
  | d + 1, nodes =>
    have : ∀ part : List (Node σ), Decidable (NestsWithin d part) := instDecidableNestsWithin d
    inferInstanceAs (Decidable (∀ n ∈ nodes, ∀ part ∈ n.parts, NestsWithin d part))

/-! ### Throughout a tree -/

theorem Throughout.here {p : List (Node σ) → Prop} {nodes : List (Node σ)}
    (h : Throughout p nodes) : p nodes := by
  cases h
  assumption

theorem Throughout.inside {p : List (Node σ) → Prop} {nodes : List (Node σ)}
    (h : Throughout p nodes) : ∀ n ∈ nodes, ∀ part ∈ n.parts, Throughout p part := by
  cases h
  assumption

/-- It holds throughout, and constructs lie at most this deep in one another: what can be found out
by going down `d` times. -/
def ThroughoutWithin (p : List (Node σ) → Prop) : Nat → List (Node σ) → Prop
  | 0, nodes => p nodes ∧ ∀ n ∈ nodes, n.isLeaf = true
  | d + 1, nodes => p nodes ∧ ∀ n ∈ nodes, ∀ part ∈ n.parts, ThroughoutWithin p d part

theorem ThroughoutWithin.throughout {p : List (Node σ) → Prop} {d : Nat} {nodes : List (Node σ)}
    (h : ThroughoutWithin p d nodes) : Throughout p nodes := by
  induction d generalizing nodes with
  | zero =>
    refine .intro h.1 fun n hn part hpart => ?_
    rw [parts_of_isLeaf (h.2 n hn)] at hpart
    cases hpart
  | succ d ih => exact .intro h.1 fun n hn part hpart => ih (h.2 n hn part hpart)

instance instDecidableThroughoutWithin (p : List (Node σ) → Prop) [DecidablePred p] :
    (d : Nat) → (nodes : List (Node σ)) → Decidable (ThroughoutWithin p d nodes)
  | 0, nodes => inferInstanceAs (Decidable (p nodes ∧ ∀ n ∈ nodes, n.isLeaf = true))
  | d + 1, nodes =>
    have : ∀ part : List (Node σ), Decidable (ThroughoutWithin p d part) :=
  instDecidableThroughoutWithin p d
    inferInstanceAs (Decidable (p nodes ∧ ∀ n ∈ nodes, ∀ part ∈ n.parts, ThroughoutWithin p d part))

end TemplateGrammar.Node
