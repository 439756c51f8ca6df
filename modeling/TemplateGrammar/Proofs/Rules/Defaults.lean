import TemplateGrammar.Proofs.Expansion.Hits
import TemplateGrammar.Proofs.Rules.Changes

/-!
# Rules with the selectors they get by default

A rule that is registered without a selector gets one that is made for its candidates, as they are
after those were dropped that are no templates (`Rule.ByDefault`).  It has a candidate, and no list
of values in its candidates is empty.  So all that is to be asked of a table of such rules is that
weights can be drawn by (`RuleTable.Weighs`): then every rule of it fits (`fits_of_weighs`).
-/

namespace TemplateGrammar

namespace Node

variable {σ τ : Type} {f : Nat → τ}

theorem ne_nil_placeValues {values : List (List (Node σ))} (h : values ≠ []) (k : Nat) :
    (placeValues f k values).1 ≠ [] := by
  intro hnil
  have hlength := length_placeValues f k values
  rw [hnil] at hlength
  exact h (List.length_eq_zero_iff.mp hlength.symm)

theorem Filled.place {n : Node σ} (h : n.Filled) (j : Nat) : (place f j n).1.Filled := by
  cases n with
  | tag name values => exact ne_nil_placeValues h j
  | define name values => exact ne_nil_placeValues h j
  | choice site values mods => exact ne_nil_placeValues h (j + 1)
  | _ => trivial

theorem weighs_placeValues {values : List (List (Node σ))} (h : Value.Weighs values) (k : Nat) :
    Value.Weighs (placeValues f k values).1 := by
  have hany : ∀ (values : List (List (Node τ))), values.any Value.hasWeight =
      (values.map Value.hasWeight).any id := by
    intro values
    rw [List.any_map]
    rfl
  unfold Value.Weighs
  rw [hany, map_hasWeight_placeValues, map_weight_placeValues, List.any_map]
  exact h

theorem Weighs.place {n : Node σ} (h : n.Weighs) (j : Nat) : (place f j n).1.Weighs := by
  cases n with
  | tag name values => exact weighs_placeValues h j
  | define name values => exact weighs_placeValues h j
  | choice site values mods => exact weighs_placeValues h (j + 1)
  | _ => trivial

theorem every_fits {nodes : List (Node σ)} (hfilled : Every Filled nodes)
    (hweighs : Every Weighs nodes) : Every Fits nodes := by
  induction hfilled with
  | intro here _ ih =>
    exact .intro (fun n hn => ⟨here n hn, hweighs.here n hn⟩) fun n hn part hp =>
      ih n hn part hp (hweighs.part hn hp)

end Node

variable {H : Type}

/-- **The rule has the selector that it gets by default,** and neither its list of candidates is
empty nor a list of values in them. -/
structure Rule.ByDefault (rule : Rule H) : Prop where
  selector : ∃ id, rule.selector = .default (rule.candidates.map Candidate.nodes) id
  candidate : rule.candidates ≠ []
  filled : rule.Every Node.Filled

namespace RuleTable

variable {t : RuleTable H}

/-- All rules have selectors by default. -/
def ByDefault (t : RuleTable H) : Prop :=
  ∀ name rule, t.get? name = some rule → rule.ByDefault

/-- **Weights of the candidates of each rule can be drawn by,** and so can those of all lists of
values in them. -/
def Weighs (t : RuleTable H) : Prop :=
  ∀ name rule, t.get? name = some rule → Value.Weighs (rule.candidates.map Candidate.nodes) ∧
    rule.Every Node.Weighs

theorem filled_of_mem_readable {sources : List String} {v : List (Node Unit)}
    (h : v ∈ (readable sources).map Prod.snd) : Node.Every Node.Filled v := by
  obtain ⟨⟨s, tree⟩, hs, rfl⟩ := List.mem_map.mp h
  obtain ⟨nodes, hparse, rfl⟩ := parseText_of_mem_readable hs
  show Node.Every Node.Filled (if nodes.isEmpty then [.text ""] else nodes)
  split
  · exact .text trivial
  · exact filled_of_parseText hparse

/-- **A rule that is defined without a selector** has one by default. -/
theorem byDefault_defined (t : RuleTable H) {name : String} {d : Definition H}
    (hd : d.selector? = none) (hsome : readable d.candidates ≠ []) :
    (t.defined name d).ByDefault := by
  refine ⟨⟨.ofRule name (t.edition name), ?_⟩, (t.standsFor_defined hsome).candidate, ?_⟩
  · rw [map_nodes_defined]
    show d.selector?.getD _ = _
    rw [hd]
    rfl
  · intro c hc
    obtain ⟨v, hv, j, hj, -⟩ := Node.mem_placeValues (mem_of_mem_zipWith hc)
    rw [hj]
    exact Node.Throughout.place (fun n j hn => hn.place j) (filled_of_mem_readable hv) j

theorem byDefault_empty : (empty : RuleTable H).ByDefault :=
  fun name rule hget => (Dict.get?_empty_ne name rule hget).elim

theorem ByDefault.add (h : t.ByDefault) (name : String) {d : Definition H}
    (hd : d.selector? = none) : (t.add name d).table.ByDefault := by
  rcases t.add_cases name d with ⟨-, htable⟩ | ⟨hdone, htable⟩
  · rw [htable]
    exact h
  · rw [htable]
    intro other rule hget
    rcases get?_insert hget with ⟨-, rfl⟩ | ⟨-, hget⟩
    · exact t.byDefault_defined hd (readable_ne_nil (result_add_eq_ok.mp hdone))
    · exact h other rule hget

theorem ByDefault.remove (h : t.ByDefault) (name : String) : (t.remove name).ByDefault :=
  fun other rule hget => h other rule (get?_remove hget)

/-- **Every rule by default fits,** if weights can be drawn by. -/
theorem fits_of_weighs (h : t.ByDefault) (hw : t.Weighs) {name : String} {rule : Rule H}
    (hget : t.get? name = some rule) : rule.Fits := by
  obtain ⟨⟨id, hselector⟩, hsome, hfilled⟩ := h name rule hget
  obtain ⟨hweighs, hevery⟩ := hw name rule hget
  refine ⟨?_, fun c hc => Node.every_fits (hfilled c hc) (hevery c hc)⟩
  have hvalues : rule.candidates.map Candidate.nodes ≠ [] :=
    fun hnil => hsome (List.map_eq_nil_iff.mp hnil)
  have hrange := Selector.inRange_default id hvalues hweighs (H := H)
  rw [hselector]
  rwa [List.length_map] at hrange

end RuleTable

end TemplateGrammar
