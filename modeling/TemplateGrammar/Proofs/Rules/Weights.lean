import TemplateGrammar.Proofs.Choice.Indices
import TemplateGrammar.Proofs.Rules.Changes

/-!
# Weights beside texts

A definition may give weights beside its texts (`Definition.weighted`).  The rule that is registered
for it has a candidate for each text that is a template, but its selector keeps all the weights,
those of the other texts too.  So what is drawn is the place of an entry among all entries, and what
is selected is the candidate at this place among those that were kept (`select_weighted`).

That is a candidate with a weight, whatever is drawn, if and only if there is an entry with a weight
among those kept at the place of each entry with a weight (`select_weighed_iff`); else another
candidate may come, or none (`weights_slip`).
-/

namespace TemplateGrammar

theorem Rule.select_fst {H : Type} (rule : Rule H) (c : Chance H) :
    (rule.select c).1 = rule.candidates[(rule.selector.pick rule.candidates.length c).1]? :=
  rfl

namespace RuleTable

variable {H : Type} {t : RuleTable H} {name : String} {entries : List (String × Nat)}

/-- **The entries that are kept,** those whose texts are templates. -/
def kept (entries : List (String × Nat)) : List (String × Nat) :=
  entries.filter fun e => (parseText e.1).isOk

/-- **Weights are in place:** where an entry has a weight, so has the one that stands in its place
among those kept. -/
def InPlace (entries : List (String × Nat)) : Prop :=
  ∀ (i : Nat) (e : String × Nat), entries[i]? = some e → e.2 ≠ 0 →
    ∃ e' : String × Nat, (kept entries)[i]? = some e' ∧ e'.2 ≠ 0

/-- **What is selected has a weight:** there is a candidate at the place that is picked, and it
comes from an entry with a weight. -/
def SelectsWeighed (rule : Rule H) (entries : List (String × Nat)) (c : Chance H) : Prop :=
  ∃ (candidate : Candidate) (w : Nat), (rule.select c).1 = some candidate ∧
    (kept entries)[(rule.selector.pick rule.candidates.length c).1]? =
      some (candidate.source, w) ∧ w ≠ 0

/-! ### What is selected -/

theorem sources_weighted (t : RuleTable H) (name : String) (hsome : kept entries ≠ []) :
    readable (Definition.weighted entries : Definition H).candidates ≠ [] ∧
      (t.defined name (.weighted entries)).candidates.map Candidate.source =
        (kept entries).map Prod.fst := by
  have hfilter : (Definition.weighted entries : Definition H).candidates.filter
      (fun s => (parseText s).isOk) = (kept entries).map Prod.fst := by
    rw [Definition.weighted, Definition.candidates, List.filter_map]
    rfl
  have hreadable : readable (Definition.weighted entries : Definition H).candidates ≠ [] := by
    intro hnil
    have hmap := map_fst_readable (Definition.weighted entries : Definition H).candidates
    rw [hnil, hfilter] at hmap
    exact hsome (List.map_eq_nil_iff.mp hmap.symm)
  have hstands : (t.defined name (.weighted entries)).StandsFor (.weighted entries) :=
    t.standsFor_defined hreadable
  exact ⟨hreadable, by rw [hstands.sources, hfilter]⟩

theorem accepts_weighted {name : String} (hname : isValidName name = true)
    (hsome : kept entries ≠ []) : accepts name (.weighted entries : Definition H) = true := by
  obtain ⟨e, he⟩ := List.exists_mem_of_ne_nil _ hsome
  obtain ⟨hmem, hok⟩ := List.mem_filter.mp he
  rw [accepts, hname, Bool.true_and]
  exact List.any_eq_true.mpr ⟨e.1, List.mem_map_of_mem hmem, hok⟩

/-- **The rule is registered** if its name is valid and an entry is kept. -/
theorem get?_add_weighted (hname : isValidName name = true) (hsome : kept entries ≠ [])
    (t : RuleTable H) : (t.add name (.weighted entries)).result = .ok () ∧
      (t.add name (.weighted entries)).table.get? name =
        some (t.defined name (.weighted entries)) := by
  have hdone : (t.add name (.weighted entries)).result = .ok () :=
    result_add_eq_ok.mpr (accepts_weighted hname hsome)
  rcases t.add_cases name (.weighted entries) with ⟨hrefused, -⟩ | ⟨-, htable⟩
  · exact absurd hdone hrefused
  · rw [htable, get?_insert_self]
    exact ⟨hdone, rfl⟩

/-- **What is picked** is the place that the weights give for what is drawn. -/
theorem pick_weighted (t : RuleTable H) (name : String) (hpos : 0 < total (entries.map Prod.snd))
    (hsum : total (entries.map Prod.snd) < UInt32.size) (n : Nat) (c : Chance H) :
    ((t.defined name (.weighted entries)).selector.pick n c).1 =
      indexByWeight (entries.map Prod.snd)
        (c.random.belowTotal (total (entries.map Prod.snd))).1 := by
  have hselector : (t.defined name (.weighted entries)).selector =
      .weighted (entries.map Prod.snd) := rfl
  rw [hselector, Selector.pick_weighted hpos hsum]

/-- **What is selected** is the text at this place among those that are kept. -/
theorem select_weighted (t : RuleTable H) (name : String) (hsome : kept entries ≠ [])
    (hpos : 0 < total (entries.map Prod.snd)) (hsum : total (entries.map Prod.snd) < UInt32.size)
    (c : Chance H) :
    ((t.defined name (.weighted entries)).select c).1.map Candidate.source =
      ((kept entries).map Prod.fst)[indexByWeight (entries.map Prod.snd)
        (c.random.belowTotal (total (entries.map Prod.snd))).1]? := by
  rw [Rule.select_fst, t.pick_weighted name hpos hsum, ← List.getElem?_map,
    (t.sources_weighted name hsome).2]

/-- **What is picked is the place of an entry with a weight,** and each such place is picked at
times. -/
theorem pick_weighted_iff (t : RuleTable H) (name : String)
    (hpos : 0 < total (entries.map Prod.snd)) (hsum : total (entries.map Prod.snd) < UInt32.size)
    (bags : Bags) (host : H) (n i : Nat) :
    (∃ r, ((t.defined name (.weighted entries)).selector.pick n ⟨bags, r, host⟩).1 = i) ↔
      ∃ e, entries[i]? = some e ∧ e.2 ≠ 0 := by
  constructor
  · rintro ⟨r, hr⟩
    rw [t.pick_weighted name hpos hsum] at hr
    obtain ⟨w, hw, hne⟩ := indexByWeight_weighs (Random.belowTotal_lt hpos r)
    rw [hr, List.getElem?_map] at hw
    obtain ⟨e, he, rfl⟩ := Option.map_eq_some_iff.mp hw
    exact ⟨e, he, hne⟩
  · rintro ⟨e, he, hne⟩
    have hweight : (entries.map Prod.snd)[i]? = some e.2 := by rw [List.getElem?_map, he]; rfl
    obtain ⟨hindex, hless⟩ := indexByWeight_total_take hweight hne
    obtain ⟨r, hr⟩ := Random.exists_belowTotal hless hsum
    exact ⟨r, by rw [t.pick_weighted name hpos hsum, hr, hindex]⟩

theorem exists_candidate {rule : Rule H}
    (hsources : rule.candidates.map Candidate.source = (kept entries).map Prod.fst)
    {i : Nat} {e : String × Nat} (he : (kept entries)[i]? = some e) :
    ∃ candidate, rule.candidates[i]? = some candidate ∧ candidate.source = e.1 := by
  have hsource : (rule.candidates.map Candidate.source)[i]? = some e.1 := by
    rw [hsources, List.getElem?_map, he]
    rfl
  rw [List.getElem?_map] at hsource
  exact Option.map_eq_some_iff.mp hsource

/-- **Weights stay with their candidates** if and only if they are in place.  Let texts with weights
be registered under a valid name, let the weights have a sum of 32 bits, and let a text that is a
template have a weight.  Then there is a rule, and whatever the state of the random numbers, a
candidate is selected from it and comes from an entry with a weight, just if among the entries that
are kept one with a weight stands in the place of each entry with a weight. -/
theorem select_weighed_iff (hname : isValidName name = true)
    (hsum : total (entries.map Prod.snd) < UInt32.size) (hsome : ∃ e ∈ kept entries, e.2 ≠ 0)
    (t : RuleTable H) (bags : Bags) (host : H) :
    ∃ rule, (t.add name (.weighted entries)).result = .ok () ∧
      (t.add name (.weighted entries)).table.get? name = some rule ∧
      rule.candidates.map Candidate.source = (kept entries).map Prod.fst ∧
      ((∀ r : Random, SelectsWeighed rule entries ⟨bags, r, host⟩) ↔ InPlace entries) := by
  obtain ⟨e, hmem, hne⟩ := hsome
  have hpos : 0 < total (entries.map Prod.snd) := by
    obtain ⟨i, hi⟩ := List.getElem?_of_mem (List.mem_of_mem_filter hmem)
    have hweight : (entries.map Prod.snd)[i]? = some e.2 := by rw [List.getElem?_map, hi]; rfl
    exact Nat.lt_of_le_of_lt (Nat.zero_le _) (indexByWeight_total_take hweight hne).2
  have hsources := (t.sources_weighted name (List.ne_nil_of_mem hmem)).2
  have hpick := t.pick_weighted_iff name hpos hsum bags host
  obtain ⟨hdone, htable⟩ := get?_add_weighted hname (List.ne_nil_of_mem hmem) t
  refine ⟨_, hdone, htable, hsources, fun hall i e' hi hne' => ?_, fun hplace r => ?_⟩
  · -- there is a draw that picks the place of the entry
    obtain ⟨r, hr⟩ := (hpick _ i).mpr ⟨e', hi, hne'⟩
    obtain ⟨candidate, w, -, hkept, hw⟩ := hall r
    exact ⟨(candidate.source, w), hr ▸ hkept, hw⟩
  · obtain ⟨e', he', hne'⟩ := (hpick (t.defined name (.weighted entries)).candidates.length _).mp
      ⟨r, rfl⟩
    obtain ⟨⟨source, w⟩, hkept, hw⟩ := hplace _ e' he' hne'
    obtain ⟨candidate, hcandidate, rfl⟩ := exists_candidate hsources hkept
    exact ⟨candidate, w, hcandidate, hkept, hw⟩

/-- An entry is dropped, and no weight comes after it. -/
def droppedLast : List (String × Nat) :=
  [("a", 2), ("b", 0), ("c", 1), ("[x", 0)]

theorem kept_droppedLast : kept droppedLast = [("a", 2), ("b", 0), ("c", 1)] := by
  decide +kernel

theorem select_droppedLast :
    InPlace droppedLast ∧
      ∃ rule, ((.empty : RuleTable Unit).add "r" (.weighted droppedLast)).table.get?
        "r" = some rule ∧
      rule.candidates.map Candidate.source = ["a", "b", "c"] ∧
      ∀ r : Random, SelectsWeighed rule droppedLast ⟨.empty, r, ()⟩ := by
  have hplace : InPlace droppedLast := by
    intro i e hi he
    rw [kept_droppedLast]
    match i with
    | 0 => exact ⟨("a", 2), rfl, by decide⟩
    | 1 =>
      obtain rfl := Option.some.inj hi
      exact absurd rfl he
    | 2 => exact ⟨("c", 1), rfl, by decide⟩
    | 3 =>
      obtain rfl := Option.some.inj hi
      exact absurd rfl he
  have hsome : ∃ e ∈ kept droppedLast, e.2 ≠ 0 :=
    ⟨("a", 2), by rw [kept_droppedLast]; simp, by decide⟩
  have hname : isValidName "r" = true := by decide +kernel
  obtain ⟨rule, -, hget, hsources, hiff⟩ :=
    select_weighed_iff hname (by decide) hsome (.empty : RuleTable Unit) .empty ()
  exact ⟨hplace, rule, hget, by rw [hsources, kept_droppedLast]; rfl, hiff.mpr hplace⟩

/-- **Weights slip** where a text is dropped in front of an entry with a weight.  All the weight of
`slipped` is with its second text; what is always selected is its last one, which has none.  From
`lost` nothing is ever selected. -/
def slipped : List (String × Nat) :=
  [("[x", 0), ("a", 1), ("b", 0)]

def lost : List (String × Nat) :=
  [("[x", 0), ("a", 1)]

theorem weights_slip :
    kept slipped = [("a", 1), ("b", 0)] ∧ kept lost = [("a", 1)] ∧
      (∃ rule, ((.empty : RuleTable Unit).add "r" (.weighted slipped)).table.get? "r" = some rule ∧
        ∀ c, (rule.select c).1.map Candidate.source = some "b") ∧
      ∃ rule, ((.empty : RuleTable Unit).add "r" (.weighted lost)).table.get? "r" = some rule ∧
        ∀ c, (rule.select c).1.map Candidate.source = none := by
  have hslipped : kept slipped = [("a", 1), ("b", 0)] := by decide +kernel
  have hlost : kept lost = [("a", 1)] := by decide +kernel
  have hname : isValidName "r" = true := by decide +kernel
  have hdraw : ∀ r : Random, (r.belowTotal 1).1 = 0 :=
    fun r => Nat.lt_one_iff.mp (Random.belowTotal_lt Nat.one_pos r)
  refine ⟨hslipped, hlost, ⟨_, (get?_add_weighted hname (by rw [hslipped]; simp) _).2, fun c => ?_⟩,
    _, (get?_add_weighted hname (by rw [hlost]; simp) _).2, fun c => ?_⟩
  · rw [select_weighted .empty "r" (by rw [hslipped]; simp) (by decide) (by decide) c, hslipped]
    exact congrArg (fun n => ["a", "b"][indexByWeight [0, 1, 0] n]?) (hdraw c.random)
  · rw [select_weighted .empty "r" (by rw [hlost]; simp) (by decide) (by decide) c, hlost]
    exact congrArg (fun n => ["a"][indexByWeight [0, 1] n]?) (hdraw c.random)

end RuleTable

end TemplateGrammar
