import TemplateGrammar.Choice.Selector

/-!
# Rounds of a shuffle bag

The picks out of a bag that is always asked about the same number of candidates go in rounds: each
round is the indices in some order, and the next one begins when a round is complete (`Bag.Dealt`).
This is kept by every pick, whatever the random stream holds (`Bag.Dealt.pick`), and it says what
the picks of each round are (`Rounds`).

A bag is shared by all who hold its name.  So it makes no difference who picks, nor what is picked
from other selectors in between (`Selector.rounds_answersOf`).
-/

namespace TemplateGrammar

/-- **In rounds:** for every `k`, the picks from the one with number `k * n` to the one before
number `(k + 1) * n` are the numbers below `n`, each of them once. -/
def Rounds (n : Nat) (picks : List Nat) : Prop :=
  ∀ k, (k + 1) * n ≤ picks.length → ((picks.drop (k * n)).take n).Perm (List.range n)

theorem rounds_zero (picks : List Nat) : Rounds 0 picks := by
  intro k _
  rw [List.take_zero]
  exact List.Perm.refl _

/-- Complete rounds one after another, and less than a round behind them. -/
theorem rounds_of_flatten {n : Nat} {complete : List (List Nat)} {begun : List Nat}
    (hcomplete : ∀ round ∈ complete, round.Perm (List.range n)) (hbegun : begun.length < n) :
    Rounds n (complete.flatten ++ begun) := by
  induction complete with
  | nil =>
    intro k hk
    have hmul : (k + 1) * n = k * n + n := Nat.succ_mul k n
    rw [List.flatten_nil, List.nil_append] at hk
    omega
  | cons round complete ih =>
    have hround : round.Perm (List.range n) := hcomplete round List.mem_cons_self
    have hlength : round.length = n := by rw [hround.length_eq, List.length_range]
    have hmore : Rounds n (complete.flatten ++ begun) :=
      ih fun other hother => hcomplete other (List.mem_cons_of_mem round hother)
    intro k hk
    rw [List.flatten_cons, List.append_assoc] at hk ⊢
    cases k with
    | zero =>
      rw [Nat.zero_mul, List.drop_zero, ← hlength, List.take_left, hlength]
      exact hround
    | succ k =>
      have hdrop : (round ++ (complete.flatten ++ begun)).drop ((k + 1) * n) =
          (complete.flatten ++ begun).drop (k * n) := by
        rw [Nat.succ_mul, Nat.add_comm, ← List.drop_drop, ← hlength, List.drop_left]
      rw [hdrop]
      apply hmore
      rw [List.length_append, hlength, Nat.succ_mul] at hk
      omega

namespace Bag

/-- What is left in a bag for those who ask about so many candidates. -/
def leftFor (b : Bag) (n : Nat) : List Nat :=
  if b.size = n then b.left else []

theorem leftFor_self (n : Nat) (left : List Nat) : leftFor ⟨n, left⟩ n = left := by
  rw [leftFor, if_pos rfl]

/-- **What has come out of a bag** that is asked about `n` candidates each time: complete rounds,
and a round that has begun, of which the rest is in the bag. -/
def Dealt (n : Nat) (picks : List Nat) (b : Bag) : Prop :=
  ∃ (complete : List (List Nat)) (begun : List Nat), picks = complete.flatten ++ begun ∧
    (∀ round ∈ complete, round.Perm (List.range n)) ∧
    ((begun = [] ∧ b.leftFor n = []) ∨ (begun ++ b.leftFor n).Perm (List.range n))

theorem dealt_empty (n : Nat) : empty.Dealt n [] := by
  refine ⟨[], [], rfl, by simp, .inl ⟨rfl, ?_⟩⟩
  unfold leftFor empty
  split <;> rfl

/-- A pick takes from what is left, and starts a round where nothing is. -/
theorem exists_pick (b : Bag) {n : Nat} (hn : 0 < n) (r : Random) :
    ∃ i rest r', b.pick n r = (i, ⟨n, rest⟩, r') ∧
      (b.leftFor n = i :: rest ∨ b.leftFor n = [] ∧ (i :: rest).Perm (List.range n)) := by
  have hleft : (if b.size = n then b.left else []) = b.leftFor n := rfl
  unfold pick
  rw [if_neg (Nat.ne_of_gt hn), hleft]
  cases b.leftFor n with
  | cons i rest => exact ⟨i, rest, r, rfl, .inl rfl⟩
  | nil =>
    have hperm := Random.shuffled_perm n r
    rcases hs : r.shuffled n with ⟨indices, r'⟩
    rw [hs] at hperm
    cases indices with
    | cons i rest => exact ⟨i, rest, r', rfl, .inr ⟨rfl, hperm⟩⟩
    | nil =>
      have hlength := hperm.length_eq
      rw [List.length_nil, List.length_range] at hlength
      omega

/-- **Every pick goes on with the rounds.** -/
theorem Dealt.pick {n : Nat} {picks : List Nat} {b : Bag} (h : b.Dealt n picks) (hn : 0 < n)
    (r : Random) : (b.pick n r).2.1.Dealt n (picks ++ [(b.pick n r).1]) := by
  obtain ⟨complete, begun, hpicks, hcomplete, hbegun⟩ := h
  obtain ⟨i, rest, r', hpick, hleft⟩ := b.exists_pick hn r
  rw [hpick]
  show Dealt n (picks ++ [i]) ⟨n, rest⟩
  have hnew : (⟨n, rest⟩ : Bag).leftFor n = rest := leftFor_self n rest
  rcases hleft with hleft | ⟨hleft, hround⟩
  · -- the next one of the round that has begun
    have hperm : (begun ++ i :: rest).Perm (List.range n) := by
      rcases hbegun with ⟨-, hnone⟩ | hperm
      · rw [hleft] at hnone
        cases hnone
      · rwa [hleft] at hperm
    refine ⟨complete, begun ++ [i], ?_, hcomplete, .inr ?_⟩
    · rw [hpicks, List.append_assoc]
    · rw [hnew, List.append_assoc]
      exact hperm
  · -- the first one of a new round
    rcases hbegun with ⟨rfl, -⟩ | hperm
    · refine ⟨complete, [i], ?_, hcomplete, .inr ?_⟩
      · rw [hpicks, List.append_nil]
      · rw [hnew]
        exact hround
    · rw [hleft, List.append_nil] at hperm
      refine ⟨complete ++ [begun], [i], ?_, ?_, .inr ?_⟩
      · rw [hpicks, List.flatten_append, List.flatten_singleton]
      · intro round hmem
        rcases List.mem_append.mp hmem with hmem | hmem
        · exact hcomplete round hmem
        · rwa [List.mem_singleton.mp hmem]
      · rw [hnew]
        exact hround

/-- **What has come out of a bag is in rounds.** -/
theorem Dealt.rounds {n : Nat} {picks : List Nat} {b : Bag} (h : b.Dealt n picks) :
    Rounds n picks := by
  by_cases hn : n = 0
  · exact hn ▸ rounds_zero picks
  obtain ⟨complete, begun, rfl, hcomplete, hbegun⟩ := h
  have hle : begun.length ≤ n := by
    rcases hbegun with ⟨rfl, -⟩ | hperm
    · exact Nat.zero_le n
    · have hlength := hperm.length_eq
      rw [List.length_append, List.length_range] at hlength
      omega
  by_cases hfull : begun.length = n
  · -- what has begun is complete too
    have hround : begun.Perm (List.range n) := by
      rcases hbegun with ⟨rfl, -⟩ | hperm
      · exact absurd hfull.symm hn
      · have hlength := hperm.length_eq
        rw [List.length_append, List.length_range] at hlength
        have hnone : b.leftFor n = [] := List.length_eq_zero_iff.mp (by omega)
        rwa [hnone, List.append_nil] at hperm
    have hall : complete.flatten ++ begun = (complete ++ [begun]).flatten ++ [] := by
      rw [List.append_nil, List.flatten_append, List.flatten_singleton]
    rw [hall]
    refine rounds_of_flatten ?_ (Nat.pos_of_ne_zero hn)
    intro round hmem
    rcases List.mem_append.mp hmem with hmem | hmem
    · exact hcomplete round hmem
    · rwa [List.mem_singleton.mp hmem]
  · exact rounds_of_flatten hcomplete (by omega)

end Bag

namespace Selector

variable {H : Type}

/-- The bag that a selector picks from, if it does. -/
def bag? : Selector H → Option BagId
  | bag id => some id
  | _ => none

theorem eq_bag_of_bag? {s : Selector H} {id : BagId} (h : s.bag? = some id) : s = bag id := by
  cases s with
  | bag other => exact congrArg bag (Option.some.inj h)
  | _ => cases h

theorem bag?_default {σ : Type} {values : List (Value σ)} {site id : BagId}
    (h : (default values site : Selector H).bag? = some id) : site = id := by
  unfold default at h
  split at h
  · cases h
  · split at h
    · cases h
    · exact Option.some.inj h

theorem default_eq_bag {σ : Type} {values : List (Value σ)} (site : BagId)
    (hmany : 2 ≤ values.length) (hweight : ∀ v ∈ values, v.hasWeight = false) :
    (default values site : Selector H) = bag site := by
  have hone : ¬values.length = 1 := by omega
  have hany : ¬values.any Value.hasWeight = true := by simpa using hweight
  rw [default, if_neg hone, if_neg hany]

theorem get_bags_pick {s : Selector H} {id : BagId} (h : s.bag? ≠ some id) (count : Nat)
    (c : Chance H) : (s.pick count c).2.bags.get id = c.bags.get id := by
  cases s with
  | first => rfl
  | bag other =>
    have hne : other ≠ id := fun he => h (congrArg some he)
    exact Bags.get_put_of_ne _ hne
  | weighted weights =>
    unfold pick
    dsimp only
    split <;> rfl
  | host choose => rfl

theorem pick_bag (id : BagId) (count : Nat) (c : Chance H) :
    ((bag id).pick count c).1 = ((c.bags.get id).pick count c.random).1 ∧
      ((bag id).pick count c).2.bags.get id = ((c.bags.get id).pick count c.random).2.1 :=
  ⟨rfl, Bags.get_put_self _ _ _⟩

/-- What is answered by those selectors that pick from one bag, while one selector after another is
asked for a pick, each about a number of candidates. -/
def answersOf (id : BagId) : List (Selector H × Nat) → Chance H → List Nat
  | [], _ => []
  | (s, count) :: asked, c =>
    let answers := answersOf id asked (s.pick count c).2
    if s.bag? = some id then (s.pick count c).1 :: answers else answers

/-- A bag that is asked about the same number each time goes on with its rounds, whoever else is
asked in between. -/
theorem dealt_answersOf {id : BagId} {n : Nat} (hn : 0 < n) {asked : List (Selector H × Nat)}
    (hasked : ∀ a ∈ asked, a.1.bag? = some id → a.2 = n) {c : Chance H} {picks : List Nat}
    (h : (c.bags.get id).Dealt n picks) : ∃ b : Bag, b.Dealt n (picks ++ answersOf id asked c) := by
  induction asked generalizing c picks with
  | nil =>
    rw [answersOf, List.append_nil]
    exact ⟨_, h⟩
  | cons a asked ih =>
    obtain ⟨s, count⟩ := a
    have hmore : ∀ a ∈ asked, a.1.bag? = some id → a.2 = n :=
      fun a ha => hasked a (List.mem_cons_of_mem _ ha)
    rw [answersOf]
    by_cases hs : s.bag? = some id
    · have hcount : count = n := hasked (s, count) List.mem_cons_self hs
      obtain rfl := eq_bag_of_bag? hs
      obtain ⟨hindex, hbag⟩ := pick_bag id count c
      rw [if_pos hs, hindex, List.append_cons]
      apply ih hmore
      rw [hbag, hcount]
      exact h.pick hn c.random
    · rw [if_neg hs]
      apply ih hmore
      rwa [get_bags_pick hs]

/-- **A bag that no one has picked from** answers in rounds all who hold it, if they ask about one
number of candidates, whoever else is asked in between. -/
theorem rounds_answersOf {id : BagId} {n : Nat} {asked : List (Selector H × Nat)}
    (hasked : ∀ a ∈ asked, a.1.bag? = some id → a.2 = n) {c : Chance H}
    (hc : c.bags.get id = Bag.empty) :
    Rounds n (answersOf id asked c) := by
  by_cases hn : n = 0
  · exact hn ▸ rounds_zero _
  · have hempty : (c.bags.get id).Dealt n [] := hc ▸ Bag.dealt_empty n
    obtain ⟨b, hb⟩ := dealt_answersOf (Nat.pos_of_ne_zero hn) hasked hempty
    exact hb.rounds

end Selector

end TemplateGrammar
