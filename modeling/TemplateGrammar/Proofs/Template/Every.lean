import TemplateGrammar.Proofs.Template.Nesting

/-!
# What holds of every node

`Node.Every good` says of a list of nodes that `good` holds of each of them and of every node inside
them.  It is what holds throughout the list, node by node; so it holds of the parts of the nodes,
and of lists made of such nodes.
-/

namespace TemplateGrammar

namespace Node

variable {σ : Type} {good : Node σ → Prop} {nodes : List (Node σ)}

/-- The condition of a block or of a loop. -/
def condition? : Node σ → Option (Condition σ)
  | .ifBlock c _ _ | .whileBlock c _ => some c
  | _ => none

/-- **It holds of every node,** however deep inside the others. -/
def Every (good : Node σ → Prop) (nodes : List (Node σ)) : Prop :=
  Throughout (fun nodes => ∀ n ∈ nodes, good n) nodes

namespace Every

theorem part (h : Every good nodes) {n : Node σ} (hn : n ∈ nodes) {part : List (Node σ)}
    (hp : part ∈ n.parts) : Every good part :=
  h.inside n hn part hp

theorem sides (h : Every good nodes) {n : Node σ} (hn : n ∈ nodes) {c : Condition σ}
    (hc : c ∈ n.condition?) : Every good c.left ∧ Every good c.right := by
  cases n with
  | ifBlock c' yes no =>
    obtain rfl := Option.some.inj hc
    exact ⟨h.part hn (by simp [parts]), h.part hn (by simp [parts])⟩
  | whileBlock c' body =>
    obtain rfl := Option.some.inj hc
    exact ⟨h.part hn (by simp [parts]), h.part hn (by simp [parts])⟩
  | _ => cases hc

theorem of_mem {made : List (Node σ)} (h : ∀ n ∈ made, ∃ nodes, Every good nodes ∧ n ∈ nodes) :
    Every good made := by
  refine .intro (fun n hn => ?_) fun n hn => ?_
  · obtain ⟨nodes, hnodes, hmem⟩ := h n hn
    exact hnodes.here n hmem
  · obtain ⟨nodes, hnodes, hmem⟩ := h n hn
    exact hnodes.inside n hmem

theorem tail {n : Node σ} (h : Every good (n :: nodes)) : Every good nodes :=
  of_mem fun _ hm => ⟨_, h, List.mem_cons_of_mem n hm⟩

theorem single (h : Every good nodes) {n : Node σ} (hn : n ∈ nodes) : Every good [n] :=
  of_mem fun _ hm => ⟨nodes, h, List.mem_singleton.mp hm ▸ hn⟩

theorem append {more : List (Node σ)} (h : Every good nodes) (hmore : Every good more) :
    Every good (nodes ++ more) := by
  refine of_mem fun n hn => ?_
  rcases List.mem_append.mp hn with hn | hn
  · exact ⟨nodes, h, hn⟩
  · exact ⟨more, hmore, hn⟩

theorem node {n : Node σ} (h : good n) (hparts : ∀ part ∈ n.parts, Every good part) :
    Every good [n] := by
  refine .intro (fun m hm => ?_) fun m hm => ?_
  · rwa [List.mem_singleton.mp hm]
  · rwa [List.mem_singleton.mp hm]

theorem imp {weaker : Node σ → Prop} (h : Every good nodes) (himp : ∀ n, good n → weaker n) :
    Every weaker nodes := by
  induction h with
  | intro here _ ih => exact .intro (fun n hn => himp n (here n hn)) ih

theorem both {other : Node σ → Prop} (h : Every good nodes) (hother : Every other nodes) :
    Every (fun n => good n ∧ other n) nodes := by
  induction h with
  | intro here _ ih =>
    exact .intro (fun n hn => ⟨here n hn, hother.here n hn⟩) fun n hn part hp =>
      ih n hn part hp (hother.part hn hp)

theorem text {text : String} (h : good (.text text)) : Every good [.text text] :=
  node h nofun

end Every

theorem sizeOf_parameter {mods : List (Modifier σ)} {v : List (Node σ)}
    (h : v ∈ mods.flatMap Modifier.parameters) :
    sizeOf v < sizeOf mods := by
  obtain ⟨⟨name, parameters⟩, hm, hv⟩ := List.mem_flatMap.mp h
  have hmod := List.sizeOf_lt_of_mem hm
  have hvalue := List.sizeOf_lt_of_mem hv
  rw [Modifier.mk.sizeOf_spec] at hmod
  dsimp only at hvalue
  omega

theorem sizeOf_part {n : Node σ} {part : List (Node σ)} (h : part ∈ n.parts) :
    sizeOf part < sizeOf n := by
  cases n with
  | text s => cases h
  | weight w => cases h
  | rule name mods =>
    have := sizeOf_parameter h
    rw [Node.rule.sizeOf_spec]
    omega
  | tag name values =>
    have := List.sizeOf_lt_of_mem (show part ∈ values from h)
    rw [Node.tag.sizeOf_spec]
    omega
  | define name values =>
    have := List.sizeOf_lt_of_mem (show part ∈ values from h)
    rw [Node.define.sizeOf_spec]
    omega
  | choice site values mods =>
    rw [Node.choice.sizeOf_spec]
    rcases List.mem_append.mp h with h | h
    · have := List.sizeOf_lt_of_mem h
      omega
    · have := sizeOf_parameter h
      omega
  | ifBlock c yes no =>
    obtain ⟨left, op, right⟩ := c
    rw [Node.ifBlock.sizeOf_spec, Condition.mk.sizeOf_spec]
    rcases List.mem_cons.mp h with rfl | h
    · omega
    rcases List.mem_cons.mp h with rfl | h
    · omega
    rcases List.mem_cons.mp h with rfl | h
    · omega
    cases no with
    | none => cases h
    | some no =>
      obtain rfl := List.mem_singleton.mp h
      rw [Option.some.sizeOf_spec]
      omega
  | whileBlock c body =>
    obtain ⟨left, op, right⟩ := c
    rw [Node.whileBlock.sizeOf_spec, Condition.mk.sizeOf_spec]
    rcases List.mem_cons.mp h with rfl | h
    · omega
    rcases List.mem_cons.mp h with rfl | h
    · omega
    obtain rfl := List.mem_singleton.mp h
    omega

/-- **What holds of all nodes** holds of every node of a list. -/
theorem every_of_forall (h : ∀ n, good n) (nodes : List (Node σ)) : Every good nodes := by
  induction hsize : sizeOf nodes using Nat.strongRecOn generalizing nodes with
  | ind size ih =>
    refine .intro (fun n _ => h n) ?_
    intro n hn part hp
    have hnode := List.sizeOf_lt_of_mem hn
    have hpart := sizeOf_part hp
    exact ih (sizeOf part) (by omega) part rfl

end Node

end TemplateGrammar
