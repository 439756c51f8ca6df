import TemplateGrammar.Proofs.Template.Nesting
import TemplateGrammar.Template.Sites

/-!
# What naming the inline choices leaves as it was

`Node.place` gives inline choices names and changes nothing else.  So the parts of a node are parts
of the node as it was, with names in them (`parts_place`), and what is said of a tree without regard
to these names stays true: how deep it nests, and what holds of each node in it.

The names are for numbers that go up (`le_place`), so those of a part are for numbers that have been
used when the node is done.
-/

namespace TemplateGrammar.Node

variable {σ τ : Type} {f : Nat → τ}

/-! ### The numbers that are used -/

mutual

/-- **Naming goes up:** the first number that has not been used is no smaller than the first one
that was to be. -/
theorem le_place (f : Nat → τ) (k : Nat) : ∀ n : Node σ, k ≤ (place f k n).2
  | text _ => Nat.le_refl k
  | weight _ => Nat.le_refl k
  | rule _ mods => le_placeModifiers f k mods
  | tag _ values => le_placeValues f k values
  | define _ values => le_placeValues f k values
  | choice _ values mods =>
    Nat.le_trans (Nat.le_succ k)
      (Nat.le_trans (le_placeValues f (k + 1) values) (le_placeModifiers f _ mods))
  | ifBlock c yes no =>
    Nat.le_trans (le_placeCondition f k c)
      (Nat.le_trans (le_placeList f _ yes) (le_placeOption f _ no))
  | whileBlock c body => Nat.le_trans (le_placeCondition f k c) (le_placeList f _ body)

theorem le_placeList (f : Nat → τ) (k : Nat) : ∀ nodes : List (Node σ), k ≤ (placeList f k nodes).2
  | [] => Nat.le_refl k
  | n :: rest => Nat.le_trans (le_place f k n) (le_placeList f _ rest)

theorem le_placeValues (f : Nat → τ) (k : Nat) : ∀ values : List (List (Node σ)),
    k ≤ (placeValues f k values).2
  | [] => Nat.le_refl k
  | v :: rest => Nat.le_trans (le_placeList f k v) (le_placeValues f _ rest)

theorem le_placeOption (f : Nat → τ) (k : Nat) : ∀ no : Option (List (Node σ)),
    k ≤ (placeOption f k no).2
  | none => Nat.le_refl k
  | some nodes => le_placeList f k nodes

theorem le_placeModifier (f : Nat → τ) (k : Nat) : ∀ m : Modifier σ, k ≤ (placeModifier f k m).2
  | ⟨_, parameters⟩ => le_placeValues f k parameters

theorem le_placeModifiers (f : Nat → τ) (k : Nat) : ∀ mods : List (Modifier σ),
    k ≤ (placeModifiers f k mods).2
  | [] => Nat.le_refl k
  | m :: rest => Nat.le_trans (le_placeModifier f k m) (le_placeModifiers f _ rest)

theorem le_placeCondition (f : Nat → τ) (k : Nat) : ∀ c : Condition σ, k ≤ (placeCondition f k c).2
  | ⟨left, _, right⟩ => Nat.le_trans (le_placeList f k left) (le_placeList f _ right)

end

theorem lt_place_choice (f : Nat → τ) (k : Nat) (site : σ) (values : List (List (Node σ)))
    (mods : List (Modifier σ)) : k < (place f k (choice site values mods)).2 :=
  Nat.le_trans (le_placeValues f (k + 1) values) (le_placeModifiers f _ mods)

/-! ### Parts -/

theorem mem_placeList {nodes : List (Node σ)} {k : Nat} {m : Node τ}
    (h : m ∈ (placeList f k nodes).1) :
    ∃ n ∈ nodes, ∃ j, m = (place f j n).1 ∧ (place f j n).2 ≤ (placeList f k nodes).2 := by
  induction nodes generalizing k with
  | nil => cases h
  | cons n rest ih =>
    rcases List.mem_cons.mp h with rfl | h
    · exact ⟨n, List.mem_cons_self, k, rfl, le_placeList f _ rest⟩
    · obtain ⟨n', hn, j, hj, hle⟩ := ih h
      exact ⟨n', List.mem_cons_of_mem n hn, j, hj, hle⟩

theorem mem_placeValues {values : List (List (Node σ))} {k : Nat} {v : List (Node τ)}
    (h : v ∈ (placeValues f k values).1) :
    ∃ v₀ ∈ values, ∃ j, v = (placeList f j v₀).1 ∧
    (placeList f j v₀).2 ≤ (placeValues f k values).2 := by
  induction values generalizing k with
  | nil => cases h
  | cons v₀ rest ih =>
    rcases List.mem_cons.mp h with rfl | h
    · exact ⟨v₀, List.mem_cons_self, k, rfl, le_placeValues f _ rest⟩
    · obtain ⟨v₁, hv, j, hj, hle⟩ := ih h
      exact ⟨v₁, List.mem_cons_of_mem v₀ hv, j, hj, hle⟩

theorem mem_parameters_placeModifiers {mods : List (Modifier σ)} {k : Nat} {v : List (Node τ)}
    (h : v ∈ (placeModifiers f k mods).1.flatMap Modifier.parameters) :
    ∃ v₀ ∈ mods.flatMap Modifier.parameters, ∃ j, v = (placeList f j v₀).1 ∧
      (placeList f j v₀).2 ≤ (placeModifiers f k mods).2 := by
  induction mods generalizing k with
  | nil => cases h
  | cons m rest ih =>
    obtain ⟨name, parameters⟩ := m
    rcases List.mem_append.mp h with h | h
    · obtain ⟨v₀, hv, j, hj, hle⟩ := mem_placeValues h
      exact ⟨v₀, List.mem_append_left _ hv, j, hj, Nat.le_trans hle (le_placeModifiers f _ rest)⟩
    · obtain ⟨v₀, hv, j, hj, hle⟩ := ih h
      exact ⟨v₀, List.mem_append_right _ hv, j, hj, hle⟩

/-- **A part of a node with names** is a part of the node as it was. -/
theorem parts_place {n : Node σ} {k : Nat} {part : List (Node τ)}
    (h : part ∈ (place f k n).1.parts) :
    ∃ part₀ ∈ n.parts, ∃ j, part = (placeList f j part₀).1 ∧
    (placeList f j part₀).2 ≤ (place f k n).2 := by
  cases n with
  | text s => cases h
  | weight w => cases h
  | rule name mods => exact mem_parameters_placeModifiers h
  | tag name values => exact mem_placeValues h
  | define name values => exact mem_placeValues h
  | choice site values mods =>
    rcases List.mem_append.mp h with h | h
    · obtain ⟨v, hv, j, hj, hle⟩ := mem_placeValues h
      exact ⟨v, List.mem_append_left _ hv, j, hj, Nat.le_trans hle (le_placeModifiers f _ mods)⟩
    · obtain ⟨v, hv, j, hj, hle⟩ := mem_parameters_placeModifiers h
      exact ⟨v, List.mem_append_right _ hv, j, hj, hle⟩
  | ifBlock c yes no =>
    obtain ⟨left, op, right⟩ := c
    rcases List.mem_cons.mp h with rfl | h
    · refine ⟨left, by simp [parts], _, rfl, ?_⟩
      exact Nat.le_trans (le_placeList f _ right)
        (Nat.le_trans (le_placeList f _ yes) (le_placeOption f _ no))
    rcases List.mem_cons.mp h with rfl | h
    · exact ⟨right, by simp [parts], _, rfl, Nat.le_trans (le_placeList f _ yes)
        (le_placeOption f _ no)⟩
    rcases List.mem_cons.mp h with rfl | h
    · exact ⟨yes, by simp [parts], _, rfl, le_placeOption f _ no⟩
    cases no with
    | none => cases h
    | some no =>
      obtain rfl := List.mem_singleton.mp h
      exact ⟨no, by simp [parts], _, rfl, Nat.le_refl _⟩
  | whileBlock c body =>
    obtain ⟨left, op, right⟩ := c
    rcases List.mem_cons.mp h with rfl | h
    · exact ⟨left, by simp [parts], _, rfl, Nat.le_trans (le_placeList f _ right)
        (le_placeList f _ body)⟩
    rcases List.mem_cons.mp h with rfl | h
    · exact ⟨right, by simp [parts], _, rfl, le_placeList f _ body⟩
    obtain rfl := List.mem_singleton.mp h
    exact ⟨body, by simp [parts], _, rfl, Nat.le_refl _⟩

theorem isLeaf_place (k : Nat) (n : Node σ) : (place f k n).1.isLeaf = n.isLeaf := by
  cases n <;> rfl

theorem NestsWithin.place {d : Nat} {nodes : List (Node σ)} (h : NestsWithin d nodes) (k : Nat) :
    NestsWithin d (placeList f k nodes).1 := by
  induction d generalizing nodes k with
  | zero =>
    intro m hm
    obtain ⟨n, hn, j, rfl, -⟩ := mem_placeList hm
    rw [isLeaf_place]
    exact h n hn
  | succ d ih =>
    intro m hm part hpart
    obtain ⟨n, hn, j, rfl, -⟩ := mem_placeList hm
    obtain ⟨part₀, hpart₀, i, rfl, -⟩ := parts_place hpart
    exact ih (h n hn part₀ hpart₀) i

theorem Throughout.placeBelow {bound : Nat} {p : Node σ → Prop} {q : Node τ → Prop}
    (hpq : ∀ n j, p n → (Node.place f j n).2 ≤ bound → q (Node.place f j n).1)
    {nodes : List (Node σ)} (h : Throughout (fun nodes => ∀ n ∈ nodes, p n) nodes) {k : Nat}
    (hk : (placeList f k nodes).2 ≤ bound) :
    Throughout (fun nodes => ∀ n ∈ nodes, q n) (placeList f k nodes).1 := by
  induction h generalizing k with
  | intro here _ ih =>
    refine .intro (fun m hm => ?_) fun m hm part hpart => ?_
    · obtain ⟨n, hn, j, rfl, hle⟩ := mem_placeList hm
      exact hpq n j (here n hn) (Nat.le_trans hle hk)
    · obtain ⟨n, hn, j, rfl, hle⟩ := mem_placeList hm
      obtain ⟨part₀, hpart₀, i, rfl, hpartLe⟩ := parts_place hpart
      exact ih n hn part₀ hpart₀ (Nat.le_trans hpartLe (Nat.le_trans hle hk))

theorem Throughout.place {p : Node σ → Prop} {q : Node τ → Prop}
    (hpq : ∀ n j, p n → q (place f j n).1) {nodes : List (Node σ)}
    (h : Throughout (fun nodes => ∀ n ∈ nodes, p n) nodes) (k : Nat) :
    Throughout (fun nodes => ∀ n ∈ nodes, q n) (placeList f k nodes).1 :=
  h.placeBelow (fun n j hn _ => hpq n j hn) (Nat.le_refl _)

/-! ### Weights -/

theorem exists_getLast?_placeList (f : Nat → τ) (k : Nat) (nodes : List (Node σ)) :
    ∃ j, (placeList f k nodes).1.getLast? = nodes.getLast?.map fun n => (place f j n).1 := by
  induction nodes generalizing k with
  | nil => exact ⟨k, rfl⟩
  | cons n rest ih =>
    cases rest with
    | nil => exact ⟨k, rfl⟩
    | cons n' rest =>
      obtain ⟨j, hj⟩ := ih (place f k n).2
      refine ⟨j, ?_⟩
      show ((place f k n).1 :: (placeList f (place f k n).2 (n' :: rest)).1).getLast? = _
      rw [List.getLast?_cons_cons, ← hj]
      rfl

theorem hasWeight_placeList (f : Nat → τ) (k : Nat) (v : List (Node σ)) :
    Value.hasWeight (placeList f k v).1 = Value.hasWeight v := by
  obtain ⟨j, hj⟩ := exists_getLast?_placeList f k v
  unfold Value.hasWeight
  rw [hj]
  cases v.getLast? with
  | none => rfl
  | some n => cases n <;> rfl

theorem weight_placeList (f : Nat → τ) (k : Nat) (v : List (Node σ)) :
    Value.weight (placeList f k v).1 = Value.weight v := by
  obtain ⟨j, hj⟩ := exists_getLast?_placeList f k v
  unfold Value.weight
  rw [hj]
  cases v.getLast? with
  | none => rfl
  | some n => cases n <;> rfl

theorem map_weight_placeValues (f : Nat → τ) (k : Nat) (values : List (List (Node σ))) :
    (placeValues f k values).1.map Value.weight = values.map Value.weight := by
  induction values generalizing k with
  | nil => rfl
  | cons v rest ih => rw [placeValues, List.map_cons, List.map_cons, weight_placeList, ih]

theorem map_hasWeight_placeValues (f : Nat → τ) (k : Nat) (values : List (List (Node σ))) :
    (placeValues f k values).1.map Value.hasWeight = values.map Value.hasWeight := by
  induction values generalizing k with
  | nil => rfl
  | cons v rest ih => rw [placeValues, List.map_cons, List.map_cons, hasWeight_placeList, ih]

/-! ### Taking the names away -/

mutual

/-- **Names of choices are all that is added:** without them the node is the one that was parsed. -/
theorem erase_place (f : Nat → τ) (k : Nat) : ∀ n : Node Unit, map (fun _ => ()) (place f k n).1 = n
  | text _ => rfl
  | weight _ => rfl
  | rule name mods => congrArg (rule name) (erase_placeModifiers f k mods)
  | tag name values => congrArg (tag name) (erase_placeValues f k values)
  | define name values => congrArg (define name) (erase_placeValues f k values)
  | choice () values mods => by
    rw [place, map, erase_placeValues f (k + 1) values, erase_placeModifiers f _ mods]
  | ifBlock c yes no => by
    rw [place, map, erase_placeCondition f k c, erase_placeList f _ yes, erase_placeOption f _ no]
  | whileBlock c body => by
    rw [place, map, erase_placeCondition f k c, erase_placeList f _ body]

theorem erase_placeList (f : Nat → τ) (k : Nat) :
    ∀ nodes : List (Node Unit), mapList (fun _ => ()) (placeList f k nodes).1 = nodes
  | [] => rfl
  | n :: rest => by
    rw [placeList, mapList, erase_place f k n, erase_placeList f _ rest]

theorem erase_placeValues (f : Nat → τ) (k : Nat) :
    ∀ values : List (List (Node Unit)), mapValues (fun _ => ()) (placeValues f k values).1 = values
  | [] => rfl
  | v :: rest => by
    rw [placeValues, mapValues, erase_placeList f k v, erase_placeValues f _ rest]

theorem erase_placeOption (f : Nat → τ) (k : Nat) :
    ∀ no : Option (List (Node Unit)), mapOption (fun _ => ()) (placeOption f k no).1 = no
  | none => rfl
  | some nodes => congrArg some (erase_placeList f k nodes)

theorem erase_placeModifier (f : Nat → τ) (k : Nat) :
    ∀ m : Modifier Unit, mapModifier (fun _ => ()) (placeModifier f k m).1 = m
  | ⟨name, parameters⟩ => congrArg (Modifier.mk name) (erase_placeValues f k parameters)

theorem erase_placeModifiers (f : Nat → τ) (k : Nat) :
    ∀ mods : List (Modifier Unit), mapModifiers (fun _ => ()) (placeModifiers f k mods).1 = mods
  | [] => rfl
  | m :: rest => by
    rw [placeModifiers, mapModifiers, erase_placeModifier f k m, erase_placeModifiers f _ rest]

theorem erase_placeCondition (f : Nat → τ) (k : Nat) :
    ∀ c : Condition Unit, mapCondition (fun _ => ()) (placeCondition f k c).1 = c
  | ⟨left, op, right⟩ => by
    rw [placeCondition, mapCondition, erase_placeList f k left, erase_placeList f _ right]

end

end TemplateGrammar.Node
