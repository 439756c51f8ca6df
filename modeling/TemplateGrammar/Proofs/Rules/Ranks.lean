import TemplateGrammar.Proofs.Rules.Components
import TemplateGrammar.Rules.Inspection

/-!
# Ranks of rules

Where an inspection finds no rule that mentions itself and no cycle, no rule leads back to itself
(`not_leadsBack`).  Then the number of rules a rule leads to is a rank: it is less than the number
of all rules, and every rule that is mentioned has a smaller one (`exists_rank`).
-/

namespace TemplateGrammar

/-- A finding that says of rules that they lead back to themselves. -/
def Finding.Recursive : Finding → Prop
  | selfReference _ _ | cycle _ => True
  | _ => False

/-- One that only the second counts makes the second count more. -/
theorem countP_lt_of_mem {p q : String → Bool} (h : ∀ x, p x = true → q x = true) {v : String}
    {names : List String} (hv : v ∈ names) (hp : p v = false) (hq : q v = true) :
    names.countP p < names.countP q := by
  obtain ⟨before, after, rfl⟩ := List.append_of_mem hv
  have hbefore : before.countP p ≤ before.countP q := List.countP_mono_left fun x _ => h x
  have hafter : after.countP p ≤ after.countP q := List.countP_mono_left fun x _ => h x
  simp only [List.countP_append, List.countP_cons, hp, hq, Bool.false_eq_true, if_false, if_true]
  omega

namespace RuleTable

variable {H : Type} {t : RuleTable H}

theorem mem_nameSet {names : List String} {v : String} : v ∈ nameSet names ↔ v ∈ names := by
  have hfold : ∀ (names : List String) (s : Std.ExtTreeSet String),
      v ∈ names.foldl (fun s n => s.insert n) s ↔ v ∈ s ∨ v ∈ names := by
    intro names
    induction names with
    | nil => simp
    | cons n more ih =>
      intro s
      rw [List.foldl_cons, ih, Std.ExtTreeSet.mem_insert, List.mem_cons,
        Std.LawfulEqCmp.compare_eq_iff_eq]
      rw [eq_comm, or_assoc]
      exact or_left_comm
  rw [nameSet, hfold]
  simp

theorem mem_names_iff {name : String} : name ∈ t.names ↔ t.contains name = true := by
  rw [names, Std.ExtTreeMap.mem_keys, contains, Std.ExtTreeMap.contains_iff_mem]

theorem exists_get? {name : String} (h : t.contains name = true) :
    ∃ rule, t.get? name = some rule :=
  Option.isSome_iff_exists.mp (Std.ExtTreeMap.isSome_getElem?_eq_contains.trans h)

theorem mem_names_of_get? {name : String} {rule : Rule H} (h : t.get? name = some rule) :
    name ∈ t.names := by
  rw [names, Std.ExtTreeMap.mem_keys, Std.ExtTreeMap.mem_iff_isSome_getElem?]
  exact Option.isSome_iff_exists.mpr ⟨rule, h⟩

theorem isEmpty_names {name : String} (h : name ∈ t.names) : t.names.isEmpty = false := by
  cases hn : t.names with
  | nil => simp [hn] at h
  | cons _ _ => rfl

theorem edge_graph_iff {u v : String} : t.graph.Edge u v ↔
    ∃ rule, t.get? u = some rule ∧ (∃ c ∈ rule.candidates, v ∈ Node.references c.nodes) ∧
    t.contains v = true := by
  unfold Graph.Edge Graph.successors graph mentioned sortedNames get?
  rw [Std.ExtTreeMap.getElem?_map]
  cases hu : t.rules[u]? with
  | none => simp
  | some rule => simp [mem_nameSet]

theorem names_graph : t.graph.names = t.names :=
  Std.ExtTreeMap.keys_map

theorem closed_graph : t.graph.Closed := by
  intro u v h
  obtain ⟨_, _, _, hv⟩ := edge_graph_iff.mp h
  rw [names_graph]
  exact mem_names_iff.mpr hv

section Clean

variable {flat : Bool} (hclean : ∀ f ∈ t.inspect flat, ¬f.Recursive)

include hclean

theorem not_mentions_itself {u : String} {rule : Rule H} (hu : t.get? u = some rule) {c : Candidate}
    (hc : c ∈ rule.candidates) : u ∉ Node.references c.nodes := by
  intro hself
  have hname := mem_names_of_get? hu
  have hcandidates : c ∈ t.candidates u := by
    rw [candidates, hu]
    exact hc
  have hfound : Finding.selfReference u c.source ∈ t.inspectCandidate flat u c := by
    unfold inspectCandidate
    rw [if_pos (by simpa using hself)]
    exact List.mem_append_left _ List.mem_cons_self
  refine hclean (.selfReference u c.source) ?_ trivial
  rw [inspect, isEmpty_names hname]
  refine List.mem_append_left _ (List.mem_flatMap.mpr ⟨u, hname,
    List.mem_flatMap.mpr ⟨c, hcandidates, hfound⟩⟩)

/-- **No rule leads back to itself.** -/
theorem not_leadsBack {u : String} (hu : u ∈ t.names) : ¬Relation.TransGen t.graph.Edge u u := by
  intro hback
  obtain ⟨v, huv, hvu⟩ := Relation.TransGen.head'_iff.mp hback
  by_cases hne : u = v
  · obtain ⟨rule, hrule, ⟨c, hc, hself⟩, -⟩ := edge_graph_iff.mp (hne ▸ huv)
    exact not_mentions_itself hclean hrule hc hself
  · have hnames : ∀ x, x ∈ t.names → x ∈ t.graph.names := fun x hx => by rwa [names_graph]
    obtain ⟨c, hc, hlong⟩ := Graph.long_component closed_graph (hnames u hu) hne (.single huv) hvu
    refine hclean (.cycle c) ?_ trivial
    rw [inspect, isEmpty_names hu]
    refine List.mem_append_right _ (List.mem_map.mpr ⟨c, List.mem_filter.mpr ⟨hc, ?_⟩, rfl⟩)
    simpa using hlong

open Classical in
/-- **Ranks.**  Every rule has a rank below the number of rules, and the rules its candidates refer
to have smaller ones. -/
theorem exists_rank : ∃ rank : String → Nat, ∀ name rule, t.get? name = some rule →
    rank name < t.size ∧
    ∀ c ∈ rule.candidates, ∀ r ∈ Node.references c.nodes, t.contains r = true →
    rank r < rank name := by
  let below := fun u x => decide (Relation.TransGen t.graph.Edge u x)
  refine ⟨fun u => t.names.countP (below u), fun name rule hrule =>
    ⟨?_, fun c hc r hr hrule' => ?_⟩⟩
  · have hname := mem_names_of_get? hrule
    rw [size, ← Std.ExtTreeMap.length_keys]
    refine Nat.lt_of_le_of_ne List.countP_le_length fun hall => ?_
    have hself := List.countP_eq_length.mp hall name hname
    exact not_leadsBack hclean hname (of_decide_eq_true hself)
  · have hedge : t.graph.Edge name r := edge_graph_iff.mpr ⟨rule, hrule, ⟨c, hc, hr⟩, hrule'⟩
    have hmem : r ∈ t.names := mem_names_iff.mpr hrule'
    have hback := not_leadsBack hclean hmem
    -- whatever the one mentioned leads to, the other does, and it leads to that one besides
    refine countP_lt_of_mem (fun x hx => ?_) hmem (decide_eq_false hback)
      (decide_eq_true (.single hedge))
    exact decide_eq_true (.head hedge (of_decide_eq_true hx))

end Clean

end RuleTable

end TemplateGrammar
