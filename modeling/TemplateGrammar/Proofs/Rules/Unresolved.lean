import TemplateGrammar.Proofs.Expansion.Kept
import TemplateGrammar.Proofs.Rules.Cycles

/-!
# Names that nothing in a table provides

The names that a candidate mentions are collected from everywhere in its tree, so a name that is not
among those that it sets as tags or defines as rules of the run is spared by every node of it
(`Node.every_spares`).  If a table reports a name as unresolved, then it has no rule of that name,
and all candidates of all of its rules spare it (`lacks_of_unresolved`).
-/

namespace TemplateGrammar

namespace Node

variable {σ : Type}

/-- The node sets no tag of the name, and defines no rule of it. -/
def Spares (name : String) : Node σ → Prop
  | tag other _ => other ≠ name
  | define other _ => other ≠ name
  | _ => True

instance (name : String) : DecidablePred (Spares name : Node σ → Prop)
  | tag other _ => inferInstanceAs (Decidable (other ≠ name))
  | define other _ => inferInstanceAs (Decidable (other ≠ name))
  | text _ | weight _ | rule _ _ | choice _ _ _ | ifBlock _ _ _ | whileBlock _ _ => .isTrue trivial

/-- **A name that is mentioned neither as a tag nor as a definition** is spared by every node. -/
theorem every_spares {name : String} {nodes : List (Node σ)} (htag : .tag name ∉ listMentions nodes)
    (hdefine : .definition name ∉ listMentions nodes) : Every (Spares name) nodes := by
  -- a part is smaller than its node, and what it mentions the node mentions
  induction hsize : sizeOf nodes using Nat.strongRecOn generalizing nodes with
  | ind size ih =>
    refine .intro (fun n hn => ?_) fun n hn part hp => ?_
    · cases n with
      | tag other values =>
        rintro rfl
        exact htag (mem_listMentions hn List.mem_cons_self)
      | define other values =>
        rintro rfl
        exact hdefine (mem_listMentions hn List.mem_cons_self)
      | _ => trivial
    · have hnode := List.sizeOf_lt_of_mem hn
      have hpart := sizeOf_part hp
      have hmentions : ∀ m, m ∈ listMentions part → m ∈ listMentions nodes := fun m hm =>
        mem_listMentions hn (mem_mentions_of_part hp hm)
      exact ih (sizeOf part) (by omega) (fun h => htag (hmentions _ h))
        (fun h => hdefine (hmentions _ h)) rfl

end Node

namespace RuleTable

variable {H : Type} {t : RuleTable H}

/-- **The table lacks a name:** it has no rule of it, and no candidate sets a tag or defines a rule
of it. -/
structure Lacks (t : RuleTable H) (name : String) : Prop where
  named : name ≠ ""
  absent : t.get? name = none
  spares : ∀ other rule, t.get? other = some rule → rule.Every (Node.Spares name)

/-- **A name that is reported as unresolved** is one that the table lacks. -/
theorem lacks_of_unresolved {owner name : String} (h : .unresolved owner name ∈ t.unresolved) :
    t.Lacks name := by
  obtain ⟨rule, -, hrule⟩ := List.mem_flatMap.mp h
  obtain ⟨name', hname, hfinding⟩ := List.mem_map.mp hrule
  obtain ⟨-, rfl⟩ := Finding.unresolved.inj hfinding
  obtain ⟨hsorted, hnone⟩ := List.mem_filter.mp hname
  obtain ⟨hcontains, hprovided⟩ : t.contains name' = false ∧ t.provided.contains name' = false := by
    simpa using hnone
  refine ⟨?_, ?_, ?_⟩
  · rintro rfl
    obtain ⟨c, -, hc⟩ := List.mem_flatMap.mp (mem_nameSet.mp (Std.ExtTreeSet.mem_toList.mp hsorted))
    exact (Node.mem_references_iff_mentions.mp hc).named rfl
  · cases hget : t.get? name' with
    | none => rfl
    | some rule =>
      have hthere := mem_names_iff.mp (mem_names_of_get? hget)
      rw [hcontains] at hthere
      cases hthere
  · intro other rule hget c hc
    have hspared : name' ∉ Node.tagsSet c.nodes ++ Node.definitions c.nodes := by
      intro hmem
      have hin : name' ∈ t.provided := by
        refine mem_nameSet.mpr (List.mem_flatMap.mpr ⟨other, mem_names_of_get? hget, ?_⟩)
        have hcandidates : t.candidates other = rule.candidates := by rw [candidates, hget]; rfl
        exact List.mem_flatMap.mpr ⟨c, hcandidates ▸ hc, hmem⟩
      rw [Std.ExtTreeSet.mem_iff_contains, hprovided] at hin
      cases hin
    rw [List.mem_append, not_or] at hspared
    refine Node.every_spares (fun h => hspared.1 ?_) fun h => hspared.2 ?_
    · exact List.mem_filterMap.mpr ⟨_, h, rfl⟩
    · exact List.mem_filterMap.mpr ⟨_, h, rfl⟩

end RuleTable

end TemplateGrammar
