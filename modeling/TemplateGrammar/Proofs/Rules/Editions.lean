import TemplateGrammar.Proofs.Expansion.Watched
import TemplateGrammar.Proofs.Rules.Built

/-!
# Editions of a rule

Every registration of a name is an edition of its own, with a bag that no earlier one had.  A
registration is refused and leaves the table as it is, or the rule that was defined stands in the
table and the name has one edition more (`add_cases`).  Inline choices in such a rule have bags of
their own, and by default several candidates without weights come out of the bag of the edition
(`selector_defined`).
-/

namespace TemplateGrammar

theorem Node.length_placeValues {σ τ : Type} (f : Nat → τ) (k : Nat)
    (values : List (List (Node σ))) : (Node.placeValues f k values).1.length = values.length := by
  induction values generalizing k with
  | nil => rfl
  | cons v rest ih => exact congrArg (· + 1) (ih _)

namespace RuleTable

variable {H : Type}

theorem map_nodes_zipWith {sources : List String} {values : List (List (Node BagId))}
    (h : sources.length = values.length) :
    (List.zipWith Candidate.mk sources values).map Candidate.nodes = values := by
  induction sources generalizing values with
  | nil => exact (List.length_eq_zero_iff.mp h.symm).symm
  | cons source sources ih =>
    cases values with
    | nil => cases h
    | cons v values => exact congrArg (v :: ·) (ih (Nat.succ.inj h))

/-- How often a name has been registered. -/
def edition (t : RuleTable H) (name : String) : Nat :=
  t.editions[name]?.getD 0

/-- The rule that a definition stands for, as the next edition of a name. -/
def defined (t : RuleTable H) (name : String) (d : Definition H) : Rule H :=
  build name (t.edition name) (readable d.candidates) d.selector?

/-- **A registration** is refused, or puts in the rule that is defined, as an edition more of its
name. -/
theorem add_cases (t : RuleTable H) (name : String) (d : Definition H) :
    ((t.add name d).result ≠ .ok () ∧ (t.add name d).table = t) ∨
    ((t.add name d).result = .ok () ∧ (t.add name d).table =
      ⟨t.rules.insert name (t.defined name d), t.editions.insert name (t.edition name + 1)⟩) := by
  unfold add
  split
  · dsimp only
    split
    · exact .inl ⟨by simp, rfl⟩
    · exact .inr ⟨rfl, rfl⟩
  · exact .inl ⟨by simp, rfl⟩

/-! ### Rules after a change -/

theorem get?_insert_self (t : RuleTable H) (name : String) (rule : Rule H) (editions : Dict Nat) :
    get? ⟨t.rules.insert name rule, editions⟩ name = some rule := by
  unfold get?
  rw [Std.ExtTreeMap.getElem?_insert_self]

theorem get?_insert_of_ne (t : RuleTable H) {name other : String} (h : other ≠ name) (rule : Rule H)
    (editions : Dict Nat) : get? ⟨t.rules.insert name rule, editions⟩ other = t.get? other := by
  unfold get?
  rw [Std.ExtTreeMap.getElem?_insert, if_neg (by simpa using h.symm)]

theorem get?_remove_of_ne (t : RuleTable H) {name other : String} (h : other ≠ name) :
    (t.remove name).get? other = t.get? other := by
  unfold get? remove
  rw [Std.ExtTreeMap.getElem?_erase, if_neg (by simpa using h.symm)]

theorem edition_insert (t : RuleTable H) (rules : Dict (Rule H)) (name other : String) (k : Nat) :
    edition ⟨rules, t.editions.insert name k⟩ other = if name = other then k
      else t.edition other := by
  unfold edition
  rw [Std.ExtTreeMap.getElem?_insert]
  by_cases hn : name = other
  · rw [if_pos (by simpa using hn), if_pos hn]
    rfl
  · rw [if_neg (by simpa using hn), if_neg hn]

theorem edition_le_add (t : RuleTable H) (name other : String) (d : Definition H) :
    t.edition other ≤ (t.add name d).table.edition other := by
  rcases t.add_cases name d with ⟨-, ht⟩ | ⟨-, ht⟩
  · exact Nat.le_of_eq (congrArg (RuleTable.edition · other) ht.symm)
  · rw [ht, edition_insert]
    split
    · rename_i hn
      rw [hn]
      exact Nat.le_succ _
    · exact Nat.le_refl _

/-! ### The rule that is defined -/

theorem apart_defined (t : RuleTable H) (name : String) (d : Definition H) :
    (t.defined name d).Every Node.OwnBag := by
  intro c hc
  obtain ⟨v, -, j, hj, -⟩ := Node.mem_placeValues (mem_of_mem_zipWith hc)
  rw [hj]
  exact Node.ownBag_placeList (fun _ => rfl) j v

theorem map_nodes_defined (t : RuleTable H) (name : String) (d : Definition H) :
    (t.defined name d).candidates.map Candidate.nodes =
      (Node.placeValues (BagId.inRule name (t.edition name)) 0
        ((readable d.candidates).map Prod.snd)).1 := by
  apply map_nodes_zipWith
  rw [Node.length_placeValues, List.length_map, List.length_map]

theorem bag?_defined (t : RuleTable H) (name : String) (d : Definition H) :
    d.selector? = some (t.defined name d).selector ∨
      ∀ id, (t.defined name d).selector.bag? = some id → id = .ofRule name (t.edition name) := by
  cases hd : d.selector? with
  | some s =>
    left
    show some s = some (d.selector?.getD _)
    rw [hd]
    rfl
  | none =>
    right
    intro id hid
    replace hid : (d.selector?.getD (.default _ (.ofRule name (t.edition name)))).bag? = some id :=
      hid
    rw [hd] at hid
    exact (Selector.bag?_default hid).symm

/-- **By default** several candidates without weights come out of the bag of the edition. -/
theorem selector_defined (t : RuleTable H) {name : String} {d : Definition H}
    (hd : d.selector? = none) (hmany : 2 ≤ (t.defined name d).candidates.length)
    (hweight : ∀ c ∈ (t.defined name d).candidates, Value.hasWeight c.nodes = false) :
    (t.defined name d).selector = .bag (.ofRule name (t.edition name)) := by
  let values := (Node.placeValues (BagId.inRule name (t.edition name)) 0
    ((readable d.candidates).map Prod.snd)).1
  have hnodes : (t.defined name d).candidates.map Candidate.nodes = values :=
    t.map_nodes_defined name d
  have hvalues : ∀ v ∈ values, Value.hasWeight v = false := by
    intro v hv
    rw [← hnodes] at hv
    obtain ⟨c, hc, rfl⟩ := List.mem_map.mp hv
    exact hweight c hc
  have hlength : 2 ≤ values.length := by
    rw [← hnodes, List.length_map]
    exact hmany
  show d.selector?.getD (.default values (.ofRule name (t.edition name))) = _
  rw [hd]
  exact Selector.default_eq_bag _ hlength hvalues

end RuleTable

end TemplateGrammar
