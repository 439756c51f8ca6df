import Mathlib.Order.Interval.Finset.Nat
import TemplateGrammar.Choice.Selector

/-!
# Shares of a draw by weight

The weights of candidates cut the numbers below their sum into blocks, one for each candidate, as
long as its weight and in the order of the candidates.  A draw falls into the block of the candidate
that it leads to (`indexByWeight_eq_iff`): so each candidate has its exact share (`drawsFor_eq`),
and one without weight has none (`indexByWeight_weighs`).

The draw itself is even: each number below the sum is given by the same number of random words, and
a word that is not taken is replaced by the next one (`Random.card_wordsFor`,
`Random.belowTotal_of_mem`).

All this is said of the selector that values with a weight among them get by default
(`Selector.byWeight_default`).
-/

namespace TemplateGrammar

/-! ### The blocks of the candidates -/

theorem total_take_succ {weights : List Nat} {i w : Nat} (h : weights[i]? = some w) :
    total (weights.take (i + 1)) = total (weights.take i) + w := by
  rw [List.take_add_one, h, total_append]
  rfl

theorem total_take_mono (weights : List Nat) {i j : Nat} (h : i ≤ j) :
    total (weights.take i) ≤ total (weights.take j) := by
  obtain ⟨k, rfl⟩ := Nat.exists_eq_add_of_le h
  rw [List.take_add, total_append]
  exact Nat.le_add_right _ _

/-- **A draw leads to the candidate whose block it falls into.** -/
theorem indexByWeight_eq_iff {weights : List Nat} {c i : Nat} (h : c < total weights) :
    indexByWeight weights c = i ↔ total (weights.take i) ≤ c ∧
    c < total (weights.take (i + 1)) := by
  induction weights generalizing c i with
  | nil => exact absurd h (Nat.not_lt_zero c)
  | cons w rest ih =>
    rw [total_cons] at h
    rw [indexByWeight, List.take_succ_cons, total_cons]
    cases i with
    | zero =>
      rw [List.take_zero, List.take_zero, total_nil]
      split
      · omega
      · omega
    | succ i =>
      rw [List.take_succ_cons, total_cons]
      split
      · omega
      · have hrest := @ih (c - w) i (by omega)
        omega

theorem isLeast_indexByWeight {weights : List Nat} {c : Nat} (h : c < total weights) :
    IsLeast {i | c < total (weights.take (i + 1))} (indexByWeight weights c) := by
  obtain ⟨hfrom, hto⟩ := (indexByWeight_eq_iff h).mp rfl
  refine ⟨hto, fun i hi => ?_⟩
  by_contra hless
  have hends := total_take_mono weights (show i + 1 ≤ indexByWeight weights c by omega)
  have hi : c < total (weights.take (i + 1)) := hi
  omega

theorem indexByWeight_weighs {weights : List Nat} {c : Nat} (h : c < total weights) :
    ∃ w, weights[indexByWeight weights c]? = some w ∧ w ≠ 0 := by
  obtain ⟨hfrom, hto⟩ := (indexByWeight_eq_iff h).mp rfl
  cases hw : weights[indexByWeight weights c]? with
  | none =>
    rw [List.take_add_one, hw, Option.toList_none, List.append_nil] at hto
    omega
  | some w =>
    rw [total_take_succ hw] at hto
    exact ⟨w, rfl, by omega⟩

theorem indexByWeight_lt {weights : List Nat} {c : Nat} (h : c < total weights) :
    indexByWeight weights c < weights.length := by
  obtain ⟨w, hw, -⟩ := indexByWeight_weighs h
  exact (List.getElem?_eq_some_iff.mp hw).1

theorem total_take_le (weights : List Nat) (i : Nat) : total (weights.take i) ≤ total weights := by
  conv_rhs => rw [← List.take_append_drop i weights, total_append]
  exact Nat.le_add_right _ _

/-- The draws that lead to the `i`-th candidate. -/
def drawsFor (weights : List Nat) (i : Nat) : Finset Nat :=
  (Finset.range (total weights)).filter fun c => indexByWeight weights c = i

/-- **Each candidate has its share,** as many draws as its weight, behind those of the candidates in
front of it. -/
theorem drawsFor_eq {weights : List Nat} {i w : Nat} (h : weights[i]? = some w) :
    drawsFor weights i = Finset.Ico (total (weights.take i)) (total (weights.take i) + w) := by
  have hend := total_take_le weights (i + 1)
  rw [total_take_succ h] at hend
  ext c
  rw [drawsFor, Finset.mem_filter, Finset.mem_range, Finset.mem_Ico]
  constructor
  · rintro ⟨hc, hi⟩
    rwa [indexByWeight_eq_iff hc, total_take_succ h] at hi
  · rintro ⟨hfrom, hto⟩
    have hc : c < total weights := Nat.lt_of_lt_of_le hto hend
    exact ⟨hc, by rw [indexByWeight_eq_iff hc, total_take_succ h]; exact ⟨hfrom, hto⟩⟩

/-- Each place with a weight is drawn, namely by the sum of the weights in front of it. -/
theorem indexByWeight_total_take {weights : List Nat} {i w : Nat} (h : weights[i]? = some w)
    (hw : w ≠ 0) :
    indexByWeight weights (total (weights.take i)) = i ∧
    total (weights.take i) < total weights := by
  have hmem : total (weights.take i) ∈ drawsFor weights i := by
    rw [drawsFor_eq h, Finset.mem_Ico]
    omega
  rw [drawsFor, Finset.mem_filter, Finset.mem_range] at hmem
  exact ⟨hmem.2, hmem.1⟩

/-! ### The draw -/

namespace Random

/-- The words that are taken for a number when one is drawn below a bound. -/
def wordsFor (bound n : Nat) : Finset Nat :=
  (Finset.range UInt32.size).filter fun w =>
    w * bound % UInt32.size ≤ weightZone bound ∧ w * bound / UInt32.size = n

theorem drawZone_of_le {bound zone n : Nat} (hn : 0 < n) {r : Random}
    (h : r.draw.1.toNat * bound % UInt32.size ≤ zone) :
    drawZone bound zone n r = (r.draw.1.toNat * bound / UInt32.size, r.draw.2) := by
  cases n with
  | zero => cases hn
  | succ n => rw [drawZone, if_pos h]

theorem belowTotal_of_mem {bound n : Nat} {r : Random} (h : r.draw.1.toNat ∈ wordsFor bound n) :
    r.belowTotal bound = (n, r.draw.2) := by
  obtain ⟨-, hzone, hn⟩ := Finset.mem_filter.mp h
  rw [belowTotal, drawZone_of_le (by decide) hzone, hn]

theorem weightZone_add_one {bound : Nat} (hpos : 0 < bound) (h : bound ≤ UInt32.size) :
    weightZone bound + 1 = UInt32.size / bound * bound := by
  have hparts := Nat.div_add_mod UInt32.size bound
  have hmod : (UInt32.size - bound) % bound = UInt32.size % bound := (Nat.mod_eq_sub_mod h).symm
  have hless := Nat.mod_lt UInt32.size hpos
  rw [Nat.mul_comm bound] at hparts
  unfold weightZone
  omega

/-- A word is for a number if its multiple lies at most a zone above that of the number. -/
theorem mem_wordsFor {bound n w : Nat} (hn : n < bound) (h : bound ≤ UInt32.size) :
    w ∈ wordsFor bound n ↔
      n * UInt32.size ≤ w * bound ∧ w * bound < n * UInt32.size + UInt32.size / bound * bound := by
  have hzone := weightZone_add_one (Nat.zero_lt_of_lt hn) h
  have hparts := Nat.div_add_mod' (w * bound) UInt32.size
  rw [wordsFor, Finset.mem_filter, Finset.mem_range]
  constructor
  · rintro ⟨-, hle, rfl⟩
    omega
  · rintro ⟨hfrom, hto⟩
    have hle : UInt32.size / bound * bound ≤ UInt32.size := Nat.div_mul_le_self _ _
    have hnext : (n + 1) * UInt32.size = n * UInt32.size + UInt32.size := by
      rw [Nat.add_mul, Nat.one_mul]
    have hdiv : w * bound / UInt32.size = n := Nat.div_eq_of_lt_le hfrom (by omega)
    have hword : w * bound < UInt32.size * bound := calc
      w * bound < (n + 1) * UInt32.size := by omega
      _ ≤ bound * UInt32.size := Nat.mul_le_mul_right _ hn
      _ = UInt32.size * bound := Nat.mul_comm _ _
    rw [hdiv] at hparts
    exact ⟨Nat.lt_of_mul_lt_mul_right hword, by omega, hdiv⟩

theorem wordsFor_eq {bound n : Nat} (hn : n < bound) (h : bound ≤ UInt32.size) :
    wordsFor bound n = Finset.Ico ((n * UInt32.size + (bound - 1)) / bound)
      ((n * UInt32.size + (bound - 1)) / bound + UInt32.size / bound) := by
  have hpos : 0 < bound := Nat.zero_lt_of_lt hn
  have hle : ∀ m w : Nat, (m + (bound - 1)) / bound ≤ w ↔ m ≤ w * bound := by
    intro m w
    rw [Nat.div_le_iff_le_mul_add_pred hpos, Nat.mul_comm bound]
    omega
  have hend : (n * UInt32.size + (bound - 1)) / bound + UInt32.size / bound =
      (n * UInt32.size + UInt32.size / bound * bound + (bound - 1)) / bound := by
    rw [← Nat.add_mul_div_right _ _ hpos, Nat.add_right_comm]
  ext w
  rw [mem_wordsFor hn h, Finset.mem_Ico, hend, hle, ← Nat.not_le, ← Nat.not_le, hle]

/-- **The draw is even:** each number below the bound has as many words as any other. -/
theorem card_wordsFor {bound n : Nat} (hn : n < bound) (h : bound ≤ UInt32.size) :
    (wordsFor bound n).card = UInt32.size / bound := by
  rw [wordsFor_eq hn h, Nat.card_Ico, Nat.add_sub_cancel_left]

/-- **Every number below a total can be drawn,** in a stream that has the right word ready, as not
every seed need bring it up. -/
theorem exists_belowTotal {bound n : Nat} (hn : n < bound) (hbound : bound < UInt32.size) :
    ∃ r : Random, (r.belowTotal bound).1 = n := by
  have hsome : 0 < (wordsFor bound n).card := by
    rw [card_wordsFor hn (Nat.le_of_lt hbound)]
    exact Nat.div_pos (Nat.le_of_lt hbound) (Nat.zero_lt_of_lt hn)
  obtain ⟨w, hw⟩ := Finset.card_pos.mp hsome
  have hword : w < UInt32.size := Finset.mem_range.mp (Finset.mem_filter.mp hw).1
  refine ⟨⟨Vector.replicate 8 0, 0, [UInt32.ofNat w]⟩, ?_⟩
  rw [belowTotal_of_mem]
  rwa [draw, UInt32.toNat_ofNat_of_lt' hword]

end Random

/-! ### The selector -/

namespace Selector

variable {H σ : Type}

/-- **A selector goes by weights.** -/
structure ByWeight (s : Selector H) (weights : List Nat) : Prop where
  /-- a pick draws below the sum of the weights, and the draw leads to the candidate that is
  picked -/
  pick_eq : ∀ (count : Nat) (c : Chance H), s.pick count c =
    (indexByWeight weights (c.random.belowTotal (total weights)).1,
      { c with random := (c.random.belowTotal (total weights)).2 })
  /-- a draw leads to the first candidate at which the weights sum to more -/
  first : ∀ n < total weights, IsLeast {i | n < total (weights.take (i + 1))}
    (indexByWeight weights n)
  /-- what is picked is there and has a weight -/
  weighs : ∀ (count : Nat) (c : Chance H), ∃ w, weights[(s.pick count c).1]? = some w ∧ w ≠ 0
  /-- of the draws each candidate has as many as its weight, in the order of the candidates -/
  shares : ∀ i w, weights[i]? = some w →
    drawsFor weights i = Finset.Ico (total (weights.take i)) (total (weights.take i) + w)
  /-- all numbers below the sum are drawn equally often -/
  even : ∀ n < total weights, (Random.wordsFor (total weights) n).card = UInt32.size / total weights

theorem pick_weighted {weights : List Nat} (hpos : 1 ≤ total weights)
    (hsum : total weights < UInt32.size) (count : Nat) (c : Chance H) :
    (weighted weights).pick count c =
      (indexByWeight weights (c.random.belowTotal (total weights)).1,
        { c with random := (c.random.belowTotal (total weights)).2 }) := by
  rw [pick, weightSum_eq hsum, if_neg (by omega)]

theorem byWeight_weighted {weights : List Nat} (hpos : 1 ≤ total weights)
    (hsum : total weights < UInt32.size) :
    (weighted weights : Selector H).ByWeight weights := by
  refine ⟨pick_weighted hpos hsum, fun n => isLeast_indexByWeight, fun count c => ?_,
    fun i w => drawsFor_eq, fun n hn => ?_⟩
  · rw [pick_weighted hpos hsum]
    exact indexByWeight_weighs (Random.belowTotal_lt hpos c.random)
  · exact Random.card_wordsFor hn (Nat.le_of_lt hsum)

theorem default_eq_weighted {values : List (Value σ)} (hmany : 2 ≤ values.length)
    (hweight : values.any Value.hasWeight = true) (id : BagId) :
    (default values id : Selector H) = weighted (values.map Value.weight) := by
  rw [default, if_neg (by omega), if_pos hweight]

/-- **Values with a weight among them** are selected by their weights, those without counting one,
if they sum to something that can be drawn below.  If they sum to nothing, nothing is drawn, and
what is picked is out of range. -/
theorem byWeight_default {values : List (Value σ)} (hmany : 2 ≤ values.length)
    (hweight : values.any Value.hasWeight = true) (id : BagId) :
    (1 ≤ total (values.map Value.weight) → total (values.map Value.weight) < UInt32.size →
      (default values id : Selector H).ByWeight (values.map Value.weight)) ∧
    (total (values.map Value.weight) = 0 →
      ∀ c : Chance H, (default values id).pick values.length c = (values.length, c)) := by
  rw [default_eq_weighted hmany hweight]
  refine ⟨byWeight_weighted, fun hnone c => ?_⟩
  rw [pick, weightSum, hnone, if_pos (Nat.zero_mod _)]

/-- Weights of nought in front, in between and behind; one value has no weight of its own. -/
def someWeigh : List (Value Unit) :=
  [[.text "a", .weight 0], [.text "b", .weight 2], [.text "c", .weight 0], [.text "d"],
    [.text "e", .weight 0]]

/-- All weights are nought. -/
def noneWeighs : List (Value Unit) :=
  [[.text "a", .weight 0], [.text "b", .weight 0]]

theorem byWeight_someWeigh :
    (default someWeigh (.fresh 0) : Selector Unit).ByWeight [0, 2, 0, 1, 0] ∧
      ∀ c : Chance Unit, (default noneWeighs (.fresh 0)).pick 2 c = (2, c) :=
  ⟨(byWeight_default (by decide) (by decide) (.fresh 0)).1 (by decide) (by decide),
    (byWeight_default (by decide) (by decide) (.fresh 0)).2 (by decide)⟩

end Selector

end TemplateGrammar
