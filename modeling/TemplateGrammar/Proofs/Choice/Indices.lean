import TemplateGrammar.Proofs.Choice.Rounds
import TemplateGrammar.Proofs.Choice.Shares

/-!
# Answers in range

A selector is asked about a number of candidates and should answer with one of their indices.
Whether it does may depend on what it draws on: a bag answers with what it was filled with.  So a
selector is said to answer in range if it does with every random stream, whatever the host
remembers, and with all bags that hold no index too high (`Selector.InRange`).  No pick puts such an
index into a bag (`Bags.Sound.pick`).

The selector that values get by default answers in range if there are values, and if weights, where
there are any, sum to a number that can be drawn below (`Selector.inRange_default`).
-/

namespace TemplateGrammar

/-- No index in the bag is too high for what the bag was filled for. -/
def Bag.Sound (b : Bag) : Prop :=
  ∀ i ∈ b.left, i < b.size

theorem Bag.Sound.mem_leftFor {b : Bag} (h : b.Sound) {n i : Nat}
    (hi : i ∈ b.leftFor n) : i < n := by
  unfold leftFor at hi
  split at hi
  · rename_i hsize
    exact hsize ▸ h i hi
  · cases hi

/-- **A sound bag answers in range,** and stays sound. -/
theorem Bag.Sound.pick {b : Bag} (h : b.Sound) {n : Nat} (hn : 0 < n) (r : Random) :
    (b.pick n r).1 < n ∧ (b.pick n r).2.1.Sound := by
  obtain ⟨i, rest, r', hpick, hleft⟩ := b.exists_pick hn r
  have hall : ∀ j ∈ i :: rest, j < n := by
    intro j hj
    rcases hleft with hleft | ⟨-, hround⟩
    · exact h.mem_leftFor (hleft ▸ hj)
    · exact List.mem_range.mp (hround.mem_iff.mp hj)
  rw [hpick]
  exact ⟨hall i List.mem_cons_self, fun j hj => hall j (List.mem_cons_of_mem i hj)⟩

/-- All bags are sound. -/
def Bags.Sound (bs : Bags) : Prop :=
  ∀ id, (bs.get id).Sound

theorem Bags.sound_empty : Bags.empty.Sound := by
  intro id i hi
  have hget : Bags.empty.get id = Bag.empty := by simp [get, empty]
  rw [hget] at hi
  cases hi

/-- **Weights can be drawn by:** if a value has one, they sum to at least one, and to no more than
32 bits hold. -/
def Value.Weighs {σ : Type} (values : List (Value σ)) : Prop :=
  values.any Value.hasWeight = true →
    1 ≤ total (values.map Value.weight) ∧ total (values.map Value.weight) < UInt32.size

instance {σ : Type} : DecidablePred (Value.Weighs : List (Value σ) → Prop) := fun values =>
  inferInstanceAs (Decidable (values.any Value.hasWeight = true →
    1 ≤ total (values.map Value.weight) ∧ total (values.map Value.weight) < UInt32.size))

namespace Selector

variable {H : Type}

/-- **It answers in range** about so many candidates. -/
def InRange (s : Selector H) (n : Nat) : Prop :=
  ∀ c : Chance H, c.bags.Sound → (s.pick n c).1 < n

theorem inRange_bag (id : BagId) {n : Nat} (hn : 0 < n) : (bag id : Selector H).InRange n := by
  intro c hc
  exact ((hc id).pick hn c.random).1

theorem inRange_weighted {weights : List Nat} (hpos : 0 < total weights)
    (hsum : total weights < UInt32.size) :
    (weighted weights : Selector H).InRange weights.length := by
  intro c _
  rw [pick_weighted hpos hsum]
  exact indexByWeight_lt (Random.belowTotal_lt hpos c.random)

/-- **By default** a selector answers in range: about one value, by weights that sum to something,
or out of a bag. -/
theorem inRange_default {σ : Type} {values : List (Value σ)} (id : BagId) (hsome : values ≠ [])
    (hweighs : Value.Weighs values) : (default values id : Selector H).InRange values.length := by
  have hpos : 0 < values.length := List.length_pos_iff.mpr hsome
  unfold default
  split
  · exact fun _ _ => hpos
  · split
    · rename_i hany
      have hweighted : (weighted (values.map Value.weight) : Selector H).InRange
          (values.map Value.weight).length :=
        inRange_weighted (hweighs hany).1 (hweighs hany).2
      rwa [List.length_map] at hweighted
    · exact inRange_bag id hpos

end Selector

/-- **No pick spoils a bag.** -/
theorem Bags.Sound.pick {H : Type} {c : Chance H} (h : c.bags.Sound) (s : Selector H) (n : Nat) :
    (s.pick n c).2.bags.Sound := by
  intro id
  by_cases hs : s.bag? = some id
  · obtain rfl := Selector.eq_bag_of_bag? hs
    rw [(Selector.pick_bag id n c).2]
    rcases Nat.eq_zero_or_pos n with rfl | hn
    · exact h id
    · exact ((h id).pick hn c.random).2
  · rw [Selector.get_bags_pick hs]
    exact h id

end TemplateGrammar
