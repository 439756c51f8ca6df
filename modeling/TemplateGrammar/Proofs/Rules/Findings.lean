import Mathlib.Data.List.Count
import Mathlib.Data.List.Perm.Basic
import TemplateGrammar.Proofs.Rules.Changes
import TemplateGrammar.Proofs.Rules.Cycles

/-!
# What an inspection finds

A node mentions at most one name by itself, as a reference, as a tag or as a definition
(`Node.mention?`), and how often something is mentioned in a tree is the number of nodes anywhere in
it that mention it (`Node.occurrences`).  What is collected from a tree is just that, in some order
(`Node.perm_listMentions`).

So the findings of an inspection are told without the collection: what is found in a candidate
(`RuleTable.Judges`), rule after rule and candidate after candidate with the cycles behind, and
which references nothing resolves (`RuleTable.findings_exact`).
-/

namespace TemplateGrammar

namespace Node

variable {σ : Type}

/-! ### All nodes of a tree -/

/-- **All nodes of a tree,** each in front of those that lie in its parts. -/
def everywhere (nodes : List (Node σ)) : List (Node σ) :=
  nodes.attach.flatMap fun n => n.1 :: n.1.parts.attach.flatMap fun part => everywhere part.1
termination_by sizeOf nodes
decreasing_by
  have hnode := List.sizeOf_lt_of_mem n.2
  have hpart := sizeOf_part part.2
  omega

theorem everywhere_eq (nodes : List (Node σ)) :
    everywhere nodes = nodes.flatMap fun n => n :: n.parts.flatMap everywhere := by
  rw [everywhere]
  simp only [List.flatMap_subtype, List.unattach_attach]

/-- What a node mentions by itself.  A reference without a name mentions nothing. -/
def mention? : Node σ → Option Mention
  | rule name _ => if name = "" then none else some (.reference name)
  | tag name _ => some (.tag name)
  | define name _ => some (.definition name)
  | _ => none

/-- **How many nodes of a tree mention this,** wherever they lie. -/
def occurrences (m : Mention) (nodes : List (Node σ)) : Nat :=
  (everywhere nodes).countP fun n => n.mention? == some m

/-! ### What is collected -/

theorem perm_listMentions_flatMap (nodes : List (Node σ)) :
    (listMentions nodes).Perm (nodes.flatMap mentions) := by
  induction nodes with
  | nil => exact .nil
  | cons n rest ih =>
    rw [listMentions, List.flatMap_cons]
    exact List.perm_append_comm.trans (ih.append_left _)

theorem perm_valueMentions (values : List (List (Node σ))) :
    (valueMentions values).Perm (values.flatMap listMentions) := by
  induction values with
  | nil => exact .nil
  | cons v rest ih =>
    rw [valueMentions, List.flatMap_cons]
    exact List.perm_append_comm.trans (ih.append_left _)

theorem perm_modifierMentions (mods : List (Modifier σ)) :
    (modifierMentions mods).Perm ((mods.flatMap Modifier.parameters).flatMap listMentions) := by
  induction mods with
  | nil => exact .nil
  | cons mod rest ih =>
    obtain ⟨name, parameters⟩ := mod
    rw [modifierMentions, parameterMentions, List.flatMap_cons, List.flatMap_append]
    exact List.perm_append_comm.trans ((perm_valueMentions parameters).append ih)

/-- **What is collected from a node:** what it mentions by itself, and what is collected from its
parts. -/
theorem perm_mentions (n : Node σ) :
    n.mentions.Perm (n.mention?.toList ++ n.parts.flatMap listMentions) := by
  cases n with
  | text s => exact .nil
  | weight k => exact .nil
  | rule name mods =>
    have hown : (if name = "" then [] else [.reference name]) =
        (rule name mods).mention?.toList := by
      by_cases hname : name = ""
      · simp only [mention?, if_pos hname, Option.toList]
      · simp only [mention?, if_neg hname, Option.toList]
    rw [mentions, hown]
    exact (perm_modifierMentions mods).append_left _
  | tag name values => exact (perm_valueMentions values).cons _
  | define name values => exact (perm_valueMentions values).cons _
  | choice site values mods =>
    rw [mentions, parts, List.flatMap_append]
    exact List.perm_append_comm.trans ((perm_valueMentions values).append
      (perm_modifierMentions mods))
  | ifBlock c yes no =>
    obtain ⟨left, op, right⟩ := c
    have hno : optionMentions no = no.toList.flatMap listMentions := by
      cases no with
      | none => rfl
      | some nodes => exact (List.append_nil _).symm
    rw [List.perm_iff_count]
    intro m
    simp only [mentions, conditionMentions, mention?, parts, hno, Option.toList_none,
      List.nil_append, List.flatMap_cons,
      List.count_append]
    omega
  | whileBlock c body =>
    obtain ⟨left, op, right⟩ := c
    rw [List.perm_iff_count]
    intro m
    simp only [mentions, conditionMentions, mention?, parts, Option.toList_none, List.nil_append,
      List.flatMap_cons, List.flatMap_nil, List.append_nil, List.count_append]
    omega

/-- **What is collected from a tree** is what its nodes mention, wherever they lie. -/
theorem perm_listMentions (nodes : List (Node σ)) :
    (listMentions nodes).Perm ((everywhere nodes).filterMap mention?) := by
  -- a part is smaller than the list its node is in
  induction hsize : sizeOf nodes using Nat.strongRecOn generalizing nodes with
  | ind size ih =>
    have hparts : ∀ n ∈ nodes, n.mentions.Perm ((n :: n.parts.flatMap everywhere).filterMap
        mention?) := by
      intro n hn
      have hinside : (n.parts.flatMap listMentions).Perm
          ((n.parts.flatMap everywhere).filterMap mention?) := by
        rw [List.filterMap_flatMap]
        refine List.Perm.flatMap_left _ fun part hpart => ?_
        have hnode := List.sizeOf_lt_of_mem hn
        have hsmaller := sizeOf_part hpart
        exact ih (sizeOf part) (by omega) part rfl
      have hown : ∀ rest, (n :: rest).filterMap mention? = n.mention?.toList ++
          rest.filterMap mention? := by
        intro rest
        rw [List.filterMap_cons]
        cases n.mention? <;> rfl
      rw [hown]
      exact (perm_mentions n).trans (hinside.append_left _)
    rw [everywhere_eq, List.filterMap_flatMap]
    exact (perm_listMentions_flatMap nodes).trans (List.Perm.flatMap_left _ hparts)

theorem count_listMentions (m : Mention) (nodes : List (Node σ)) :
    (listMentions nodes).count m = occurrences m nodes := by
  rw [(perm_listMentions nodes).count_eq, occurrences, List.count_filterMap]

theorem mem_listMentions_iff {m : Mention} {nodes : List (Node σ)} :
    m ∈ listMentions nodes ↔ 0 < occurrences m nodes := by
  rw [← count_listMentions, List.count_pos_iff]

theorem count_tagsSet (name : String) (nodes : List (Node σ)) :
    (tagsSet nodes).count name = occurrences (.tag name) nodes := by
  rw [tagsSet, List.count_filterMap, ← count_listMentions, List.count]
  refine List.countP_congr fun m _ => ?_
  cases m <;> simp

theorem mem_tagsSet_iff {name : String} {nodes : List (Node σ)} :
    name ∈ tagsSet nodes ↔ 0 < occurrences (.tag name) nodes := by
  rw [← count_tagsSet, List.count_pos_iff]

theorem mem_definitions_iff {name : String} {nodes : List (Node σ)} :
    name ∈ definitions nodes ↔ 0 < occurrences (.definition name) nodes := by
  rw [← mem_listMentions_iff, definitions, List.mem_filterMap]
  constructor
  · rintro ⟨m, hm, he⟩
    cases m with
    | definition name' =>
      obtain rfl := Option.some.inj he
      exact hm
    | _ => cases he
  · exact fun h => ⟨_, h, rfl⟩

theorem mem_references_iff_occurrences {name : String} {nodes : List (Node σ)} :
    name ∈ references nodes ↔ 0 < occurrences (.reference name) nodes := by
  rw [mem_references_iff, mem_listMentions_iff]

end Node

namespace RuleTable

variable {H : Type} {t : RuleTable H}

/-! ### Candidates -/

/-- **What is found in a candidate of a rule:** that it mentions the rule, which is said once, and
where tags are flat every tag it sets that has the name of a rule; and nothing else. -/
structure Judges (t : RuleTable H) (flat : Bool) (rule : String) (c : Candidate)
    (found : List Finding) : Prop where
  only : ∀ f ∈ found, f = .selfReference rule c.source ∨ ∃ tag, f = .tagOverRule rule tag
  self : found.count (.selfReference rule c.source) =
    if 0 < Node.occurrences (.reference rule) c.nodes then 1 else 0
  tags : ∀ tag, found.count (.tagOverRule rule tag) =
    if flat = true ∧ t.contains tag = true then Node.occurrences (.tag tag) c.nodes else 0

theorem judges_inspectCandidate (t : RuleTable H) (flat : Bool) (rule : String) (c : Candidate) :
    t.Judges flat rule c (t.inspectCandidate flat rule c) := by
  let named : List Finding :=
    if (Node.references c.nodes).contains rule then [.selfReference rule c.source] else []
  let hidden : List Finding :=
    if flat then ((Node.tagsSet c.nodes).filter t.contains).map (.tagOverRule rule) else []
  have hfound : t.inspectCandidate flat rule c = named ++ hidden := rfl
  have hnamed : ∀ f ∈ named, f = .selfReference rule c.source := by
    intro f hf
    dsimp only [named] at hf
    split at hf
    · exact List.mem_singleton.mp hf
    · cases hf
  have hhidden : ∀ f ∈ hidden, ∃ tag, f = .tagOverRule rule tag := by
    intro f hf
    dsimp only [hidden] at hf
    split at hf
    · obtain ⟨tag, -, rfl⟩ := List.mem_map.mp hf
      exact ⟨tag, rfl⟩
    · cases hf
  rw [hfound]
  refine ⟨fun f hf => (List.mem_append.mp hf).imp (hnamed f) (hhidden f), ?_, fun tag => ?_⟩
  · have hnone : hidden.count (.selfReference rule c.source) = 0 :=
      List.count_eq_zero.mpr fun h => by obtain ⟨tag, htag⟩ := hhidden _ h; cases htag
    rw [List.count_append, hnone, Nat.add_zero]
    dsimp only [named]
    by_cases hmentions : rule ∈ Node.references c.nodes
    · rw [if_pos (List.contains_iff_mem.mpr hmentions),
        if_pos (Node.mem_references_iff_occurrences.mp hmentions),
        List.count_singleton_self]
    · rw [if_neg fun h => hmentions (List.contains_iff_mem.mp h),
        if_neg fun h => hmentions (Node.mem_references_iff_occurrences.mpr h), List.count_nil]
  · have hnone : named.count (.tagOverRule rule tag) = 0 :=
      List.count_eq_zero.mpr fun h => by cases hnamed _ h
    rw [List.count_append, hnone, Nat.zero_add]
    dsimp only [hidden]
    cases flat with
    | false => rfl
    | true =>
      have hinjective : Function.Injective (Finding.tagOverRule rule) :=
        fun _ _ h => (Finding.tagOverRule.inj h).2
      rw [if_pos rfl, List.count_map_of_injective _ _ hinjective]
      by_cases hcontains : t.contains tag = true
      · rw [List.count_filter hcontains, Node.count_tagsSet, if_pos ⟨rfl, hcontains⟩]
      · rw [if_neg fun h => hcontains h.2]
        exact List.count_eq_zero.mpr fun h => hcontains (List.mem_filter.mp h).2

/-- The findings in candidates, rule after rule and candidate after candidate, and the cycles
behind. -/
theorem inspect_eq (t : RuleTable H) (flat : Bool) (hsome : t.names ≠ []) :
    t.inspect flat = (t.names.flatMap fun rule =>
      (t.candidates rule).flatMap (t.inspectCandidate flat rule)) ++
      (t.cycles flat).map .cycle := by
  rw [cycles_eq, inspect, if_neg fun h => hsome (List.isEmpty_iff.mp h)]

/-! ### References that nothing resolves -/

theorem ordered_sortedNames (names : List String) : (sortedNames names).Pairwise (· < ·) :=
  List.Pairwise.imp (fun h => compareOfLessAndEq_eq_lt.mp h)
    (Std.ExtTreeSet.ordered_toList (t := nameSet names))

theorem mem_sortedNames {names : List String} {name : String} : name ∈ sortedNames names ↔
    name ∈ names :=
  Std.ExtTreeSet.mem_toList.trans mem_nameSet

/-- Something is mentioned in a candidate of the rule. -/
def MentionedBy (t : RuleTable H) (rule : String) (m : Mention) : Prop :=
  ∃ c ∈ t.candidates rule, 0 < Node.occurrences m c.nodes

theorem MentionedBy.mem_names {rule : String} {m : Mention} (h : t.MentionedBy rule m) :
    rule ∈ t.names := by
  obtain ⟨c, hc, -⟩ := h
  cases hget : t.get? rule with
  | some r => exact mem_names_of_get? hget
  | none =>
    rw [candidates, hget] at hc
    cases hc

theorem mem_provided_iff {name : String} :
    name ∈ t.provided ↔ ∃ rule, t.MentionedBy rule (.tag name) ∨
    t.MentionedBy rule (.definition name) := by
  have hcandidate : ∀ c : Candidate, name ∈ Node.tagsSet c.nodes ++ Node.definitions c.nodes ↔
      0 < Node.occurrences (.tag name) c.nodes ∨
      0 < Node.occurrences (.definition name) c.nodes := by
    intro c
    rw [List.mem_append, Node.mem_tagsSet_iff, Node.mem_definitions_iff]
  have hrule : ∀ rule, (∃ c ∈ t.candidates rule, name ∈ Node.tagsSet c.nodes ++
      Node.definitions c.nodes) ↔
      t.MentionedBy rule (.tag name) ∨ t.MentionedBy rule (.definition name) := by
    intro rule
    simp only [hcandidate, MentionedBy, and_or_left, exists_or]
  simp only [provided, mem_nameSet, List.mem_flatMap, hrule]
  constructor
  · rintro ⟨rule, -, h⟩
    exact ⟨rule, h⟩
  · rintro ⟨rule, h⟩
    exact ⟨rule, h.elim MentionedBy.mem_names MentionedBy.mem_names, h⟩

/-- **Every reference that nothing resolves is found, once,** in order of rule and name. -/
theorem unresolved_eq (t : RuleTable H) :
    ∃ pairs : List (String × String), t.unresolved = pairs.map (fun p => .unresolved p.1 p.2) ∧
      pairs.Pairwise (fun p q => p.1 < q.1 ∨ p.1 = q.1 ∧ p.2 < q.2) ∧
      ∀ rule name, (rule, name) ∈ pairs ↔ t.MentionedBy rule (.reference name) ∧
      t.contains name = false ∧
        ∀ other, ¬t.MentionedBy other (.tag name) ∧ ¬t.MentionedBy other (.definition name) := by
  let missing : String → List String := fun rule =>
    (sortedNames ((t.candidates rule).flatMap fun c => Node.references c.nodes)).filter fun name =>
      !t.contains name && !t.provided.contains name
  have hmissing : ∀ rule name, name ∈ missing rule ↔ t.MentionedBy rule (.reference name) ∧
      t.contains name = false ∧
      ∀ other, ¬t.MentionedBy other (.tag name) ∧ ¬t.MentionedBy other (.definition name) := by
    intro rule name
    have hmentioned : name ∈ ((t.candidates rule).flatMap fun c => Node.references c.nodes) ↔
        t.MentionedBy rule (.reference name) := by
      simp only [List.mem_flatMap, Node.mem_references_iff_occurrences, MentionedBy]
    have hprovided : t.provided.contains name = false ↔
        ∀ other, ¬t.MentionedBy other (.tag name) ∧ ¬t.MentionedBy other (.definition name) := by
      rw [← Bool.not_eq_true, ← Std.ExtTreeSet.mem_iff_contains, mem_provided_iff, not_exists]
      exact forall_congr' fun _ => not_or
    rw [List.mem_filter, mem_sortedNames, hmentioned, Bool.and_eq_true, Bool.not_eq_true',
      Bool.not_eq_true', hprovided]
  refine ⟨t.names.flatMap fun rule => (missing rule).map (rule, ·), ?_, ?_, ?_⟩
  · rw [List.map_flatMap]
    simp only [List.map_map]
    rfl
  · refine List.pairwise_flatMap.mpr ⟨fun rule _ => ?_, ?_⟩
    · refine List.pairwise_map.mpr ?_
      exact ((ordered_sortedNames _).filter _).imp fun h => .inr ⟨rfl, h⟩
    · refine (ordered_names t).imp fun h p hp q hq => .inl ?_
      obtain ⟨_, -, rfl⟩ := List.mem_map.mp hp
      obtain ⟨_, -, rfl⟩ := List.mem_map.mp hq
      exact h
  · intro rule name
    constructor
    · intro h
      obtain ⟨rule', -, h⟩ := List.mem_flatMap.mp h
      obtain ⟨name', hname, heq⟩ := List.mem_map.mp h
      obtain ⟨rfl, rfl⟩ := Prod.mk.inj heq
      exact (hmissing _ _).mp hname
    · intro h
      exact List.mem_flatMap.mpr ⟨rule, h.1.mem_names,
        List.mem_map_of_mem ((hmissing rule name).mpr h)⟩

/-- **The findings of a table.**  In order of rule and candidate, each candidate that mentions its
rule is found to do so once, and each tag in it that has the name of a rule is found as often as it
is set, if tags are flat, and not at all if they are not; nothing else is found in candidates, and
the cycles come behind.  A reference that nothing resolves is one that a candidate of its rule
mentions by a name which no rule has, and no tag and no definition in any candidate; each is found
once, in order of rule and name. -/
theorem findings_exact (t : RuleTable H) (flat : Bool) (hsome : t.names ≠ []) :
    t.names.Pairwise (· < ·) ∧ (∀ rule, rule ∈ t.names ↔ t.contains rule = true) ∧
      (∃ found : String → Candidate → List Finding,
        (∀ rule c, t.Judges flat rule c (found rule c)) ∧
        t.inspect flat = (t.names.flatMap fun rule => (t.candidates rule).flatMap (found rule)) ++
          (t.cycles flat).map .cycle) ∧
      ∃ pairs : List (String × String), t.unresolved = pairs.map (fun p => .unresolved p.1 p.2) ∧
        pairs.Pairwise (fun p q => p.1 < q.1 ∨ p.1 = q.1 ∧ p.2 < q.2) ∧
        ∀ rule name, (rule, name) ∈ pairs ↔ t.MentionedBy rule (.reference name) ∧
        t.contains name = false ∧
          ∀ other, ¬t.MentionedBy other (.tag name) ∧ ¬t.MentionedBy other (.definition name) :=
  ⟨ordered_names t, fun _ => mem_names_iff,
    ⟨t.inspectCandidate flat, judges_inspectCandidate t flat, inspect_eq t flat hsome⟩,
    unresolved_eq t⟩

/-- A rule that is mentioned in a condition, in a parameter and in a value, and hidden by a tag
inside a tag. -/
def overshadowed : RuleTable Unit :=
  made [.add "a" (.list ["[if x in #(#b.m(#a#)#,y)# then [b:[b:#c#]] else [d:{f(#a#)}]]",
    "#d##f##b#", "[a:#g#]"]), .add "b" (.text "#a##g#")]

theorem findings_overshadowed : overshadowed.names ≠ [] ∧
    (∃ found : String → Candidate → List Finding,
      (∀ rule c, overshadowed.Judges true rule c (found rule c)) ∧
      [.selfReference "a" "[if x in #(#b.m(#a#)#,y)# then [b:[b:#c#]] else [d:{f(#a#)}]]",
        .tagOverRule "a" "b", .tagOverRule "a" "b", .tagOverRule "a" "a", .cycle ["a", "b"]] =
        (overshadowed.names.flatMap fun rule =>
          (overshadowed.candidates rule).flatMap (found rule)) ++
          (overshadowed.cycles true).map .cycle) ∧
    overshadowed.unresolved = [.unresolved "a" "c", .unresolved "a" "g", .unresolved "b" "g"] := by
  have hsome : overshadowed.names ≠ [] := by decide +kernel
  have hinspect : overshadowed.inspect true = [.selfReference "a"
      "[if x in #(#b.m(#a#)#,y)# then [b:[b:#c#]] else [d:{f(#a#)}]]", .tagOverRule "a" "b",
      .tagOverRule "a" "b",
      .tagOverRule "a" "a", .cycle ["a", "b"]] := by
    decide +kernel
  obtain ⟨-, -, hfound, -⟩ := findings_exact overshadowed true hsome
  exact ⟨hsome, hinspect ▸ hfound, by decide +kernel⟩

end RuleTable

end TemplateGrammar
