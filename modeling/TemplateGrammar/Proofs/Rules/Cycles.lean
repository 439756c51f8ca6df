import TemplateGrammar.Proofs.Rules.Bound
import TemplateGrammar.Proofs.Template.Every

/-!
# Cycles of rules

A rule mentions another where a reference to it stands anywhere in one of its candidates: in a side
of a condition, in a block, in a parameter of a modifier, in a value of a tag or of a rule of the
run, in a candidate of a choice (`Node.Mentions`).  What is collected from a tree is just that
(`mem_references_iff_mentions`), so the graph of a table has an edge wherever one of its rules
mentions another (`RuleTable.edge_graph_iff_mentions`).

The cycles that an inspection finds are the strongly connected components of this relation that have
more than one name (`RuleTable.inspect_cycles`).
-/

namespace TemplateGrammar

/-- The names of the rules that lead to one another, if the finding is of that kind. -/
def Finding.cycle? : Finding → Option (List String)
  | cycle names => some names
  | _ => none

namespace Node

variable {σ : Type}

/-- **A list of nodes mentions a name:** a reference to it is one of the nodes, or lies in a part of
one. -/
inductive Mentions (name : String) : List (Node σ) → Prop
  | here {nodes : List (Node σ)} {mods : List (Modifier σ)} (named : name ≠ "")
    (h : rule name mods ∈ nodes) : Mentions name nodes
  | inside {nodes : List (Node σ)} {n : Node σ} {part : List (Node σ)} (hn : n ∈ nodes)
    (hpart : part ∈ n.parts) (h : Mentions name part) : Mentions name nodes

theorem Mentions.named {name : String} {nodes : List (Node σ)} (h : Mentions name nodes) :
    name ≠ "" := by
  induction h with
  | here named _ => exact named
  | inside _ _ _ ih => exact ih

/-! ### What is collected comes from somewhere -/

theorem exists_mem_of_listMentions {nodes : List (Node σ)} {m : Mention}
    (h : m ∈ listMentions nodes) : ∃ n ∈ nodes, m ∈ n.mentions := by
  induction nodes with
  | nil => cases h
  | cons n rest ih =>
    rw [listMentions, List.mem_append] at h
    rcases h with h | h
    · obtain ⟨n', hn', hm⟩ := ih h
      exact ⟨n', List.mem_cons_of_mem n hn', hm⟩
    · exact ⟨n, List.mem_cons_self, h⟩

theorem exists_mem_of_valueMentions {values : List (List (Node σ))} {m : Mention}
    (h : m ∈ valueMentions values) : ∃ v ∈ values, m ∈ listMentions v := by
  induction values with
  | nil => cases h
  | cons v rest ih =>
    rw [valueMentions, List.mem_append] at h
    rcases h with h | h
    · obtain ⟨v', hv', hm⟩ := ih h
      exact ⟨v', List.mem_cons_of_mem v hv', hm⟩
    · exact ⟨v, List.mem_cons_self, h⟩

theorem exists_mem_of_modifierMentions {mods : List (Modifier σ)} {m : Mention}
    (h : m ∈ modifierMentions mods) :
    ∃ v ∈ mods.flatMap Modifier.parameters, m ∈ listMentions v := by
  induction mods with
  | nil => cases h
  | cons mod rest ih =>
    obtain ⟨name, parameters⟩ := mod
    rw [modifierMentions, parameterMentions, List.mem_append] at h
    rw [List.flatMap_cons]
    rcases h with h | h
    · obtain ⟨v, hv, hm⟩ := ih h
      exact ⟨v, List.mem_append_right _ hv, hm⟩
    · obtain ⟨v, hv, hm⟩ := exists_mem_of_valueMentions h
      exact ⟨v, List.mem_append_left _ hv, hm⟩

/-- **A reference in a node** is the node itself, or comes from a part of it. -/
theorem reference_mem_mentions {n : Node σ} {name : String} (h : .reference name ∈ n.mentions) :
    (name ≠ "" ∧ ∃ mods, n = rule name mods) ∨ ∃ part ∈ n.parts,
    .reference name ∈ listMentions part := by
  cases n with
  | text s => cases h
  | weight k => cases h
  | rule name' mods =>
    rw [mentions, List.mem_append] at h
    rcases h with h | h
    · split at h
      · cases h
      · rename_i hnamed
        obtain rfl := Mention.reference.inj (List.mem_singleton.mp h)
        exact .inl ⟨hnamed, mods, rfl⟩
    · exact .inr (exists_mem_of_modifierMentions h)
  | tag name' values =>
    obtain h | ⟨_, h⟩ := h
    exact .inr (exists_mem_of_valueMentions h)
  | define name' values =>
    obtain h | ⟨_, h⟩ := h
    exact .inr (exists_mem_of_valueMentions h)
  | choice site values mods =>
    rw [mentions, List.mem_append] at h
    rcases h with h | h
    · obtain ⟨v, hv, hm⟩ := exists_mem_of_modifierMentions h
      exact .inr ⟨v, List.mem_append_right _ hv, hm⟩
    · obtain ⟨v, hv, hm⟩ := exists_mem_of_valueMentions h
      exact .inr ⟨v, List.mem_append_left _ hv, hm⟩
  | ifBlock c yes no =>
    obtain ⟨left, op, right⟩ := c
    rw [mentions, List.mem_append, List.mem_append, conditionMentions, List.mem_append] at h
    rcases h with (h | h) | h | h
    · cases no with
      | none => cases h
      | some nodes => exact .inr ⟨nodes, by simp [parts], h⟩
    · exact .inr ⟨yes, by simp [parts], h⟩
    · exact .inr ⟨right, by simp [parts], h⟩
    · exact .inr ⟨left, by simp [parts], h⟩
  | whileBlock c body =>
    obtain ⟨left, op, right⟩ := c
    rw [mentions, List.mem_append, conditionMentions, List.mem_append] at h
    rcases h with h | h | h
    · exact .inr ⟨body, by simp [parts], h⟩
    · exact .inr ⟨right, by simp [parts], h⟩
    · exact .inr ⟨left, by simp [parts], h⟩

/-- **The names collected from a tree are those that it mentions.** -/
theorem mem_references_iff_mentions {nodes : List (Node σ)} {name : String} :
    name ∈ references nodes ↔ Mentions name nodes := by
  rw [mem_references_iff]
  constructor
  · -- a part is smaller than the list its node is in
    induction hsize : sizeOf nodes using Nat.strongRecOn generalizing nodes with
    | ind size ih =>
      intro h
      obtain ⟨n, hn, hm⟩ := exists_mem_of_listMentions h
      rcases reference_mem_mentions hm with ⟨hnamed, mods, rfl⟩ | ⟨part, hpart, hm⟩
      · exact .here hnamed hn
      · have hnode := List.sizeOf_lt_of_mem hn
        have hsmaller := sizeOf_part hpart
        exact .inside hn hpart (ih (sizeOf part) (by omega) rfl hm)
  · intro h
    induction h with
    | here hnamed hn =>
      refine mem_listMentions hn ?_
      rw [mentions, if_neg hnamed]
      exact List.mem_cons_self
    | inside hn hpart _ ih => exact mem_listMentions hn (mem_mentions_of_part hpart ih)

end Node

namespace RuleTable

variable {H : Type} {t : RuleTable H}

/-- A rule mentions another one: some candidate of the first has a reference to the second. -/
def Mentions (t : RuleTable H) (u v : String) : Prop :=
  t.contains v = true ∧ ∃ rule, t.get? u = some rule ∧ ∃ c ∈ rule.candidates,
    Node.Mentions v c.nodes

/-- A rule reaches another one, by mentions of any number. -/
def Reaches (t : RuleTable H) : String → String → Prop :=
  Relation.ReflTransGen t.Mentions

/-- **A cycle of a table:** in order and without repetition, two or more names; with some rule among
them, all the rules that it reaches and that reach it. -/
structure IsCycle (t : RuleTable H) (names : List String) : Prop where
  ordered : names.Pairwise (· < ·)
  long : 2 ≤ names.length
  connected : ∃ v, t.contains v = true ∧ ∀ u, u ∈ names ↔ t.Reaches v u ∧ t.Reaches u v

/-- The cycles that an inspection finds, as it lists them. -/
def cycles (t : RuleTable H) (flatTags : Bool) : List (List String) :=
  (t.inspect flatTags).filterMap Finding.cycle?

theorem edge_graph_iff_mentions {u v : String} : t.graph.Edge u v ↔ t.Mentions u v := by
  simp only [edge_graph_iff, Mentions, Node.mem_references_iff_mentions]
  constructor
  · rintro ⟨rule, hrule, hc, hv⟩
    exact ⟨hv, rule, hrule, hc⟩
  · rintro ⟨hv, rule, hrule, hc⟩
    exact ⟨rule, hrule, hc, hv⟩

theorem reaches_graph : t.graph.Reaches = t.Reaches := by
  have hedge : t.graph.Edge = t.Mentions := funext fun u => funext fun v =>
    propext edge_graph_iff_mentions
  rw [Graph.Reaches, hedge, Reaches]

theorem isComponent_graph_iff {c : List String} : t.graph.IsComponent c ∧ 1 < c.length ↔
    t.IsCycle c := by
  constructor
  · rintro ⟨⟨hordered, v, hv, hmem⟩, hlong⟩
    exact ⟨hordered, hlong, v, by rwa [← mem_names_iff, ← names_graph], reaches_graph ▸ hmem⟩
  · rintro ⟨hordered, hlong, v, hv, hmem⟩
    exact ⟨⟨hordered, v, by rwa [names_graph, mem_names_iff], reaches_graph ▸ hmem⟩, hlong⟩

theorem cycle?_of_mem_inspectCandidate {flat : Bool} {name : String} {c : Candidate} {f : Finding}
    (h : f ∈ t.inspectCandidate flat name c) : f.cycle? = none := by
  rw [inspectCandidate, List.mem_append] at h
  rcases h with h | h
  · split at h
    · obtain rfl := List.mem_singleton.mp h
      rfl
    · cases h
  · split at h
    · obtain ⟨tag, -, rfl⟩ := List.mem_map.mp h
      rfl
    · cases h

/-- **The cycles found are the long components of the graph.** -/
theorem cycles_eq (t : RuleTable H) (flat : Bool) :
    t.cycles flat = t.graph.components.filter fun c => 1 < c.length := by
  unfold cycles inspect
  split
  · rename_i hempty
    have hnames : t.graph.names = [] := by rw [names_graph, ← List.isEmpty_iff, hempty]
    rw [Graph.components, hnames]
    rfl
  · rw [List.filterMap_append, List.filterMap_map, List.filterMap_eq_nil_iff.mpr, List.nil_append]
    · exact List.filterMap_some
    · intro f hf
      obtain ⟨name, -, hf⟩ := List.mem_flatMap.mp hf
      obtain ⟨c, -, hf⟩ := List.mem_flatMap.mp hf
      exact cycle?_of_mem_inspectCandidate hf

/-- **The cycles that an inspection finds.**  A list of names is found as a cycle if and only if it
is one; none is found twice; and none reaches one that is found later. -/
theorem inspect_cycles (t : RuleTable H) (flat : Bool) :
    (∀ c, .cycle c ∈ t.inspect flat ↔ t.IsCycle c) ∧ (t.cycles flat).Nodup ∧
      (t.cycles flat).Pairwise fun c d => ∀ u ∈ c, ∀ v ∈ d, ¬t.Reaches u v := by
  refine ⟨fun c => ?_, ?_, ?_⟩
  · have hmem : .cycle c ∈ t.inspect flat ↔ c ∈ t.cycles flat := by
      rw [cycles, List.mem_filterMap]
      constructor
      · exact fun h => ⟨_, h, rfl⟩
      · rintro ⟨f, hf, hc⟩
        cases f with
        | cycle names =>
          obtain rfl := Option.some.inj hc
          exact hf
        | _ => cases hc
    rw [hmem, cycles_eq, List.mem_filter, Graph.mem_components_iff closed_graph, decide_eq_true_iff]
    exact isComponent_graph_iff
  · rw [cycles_eq]
    exact (Graph.nodup_components closed_graph).filter _
  · rw [cycles_eq, ← reaches_graph]
    exact (Graph.components_pairwise closed_graph).filter _

end RuleTable

end TemplateGrammar
