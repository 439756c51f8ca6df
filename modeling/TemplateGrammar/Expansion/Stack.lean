/-!
# Stacks

A stack keeps its things in places that are used again.  What has been taken off, and what was there
when the stack was cleared, stays where it is until something else is put into its place; the height
says which places are live.  So a push or a pop costs the same however high the stack is, and
`Stack.toList`, the live places from the top down, is all that a stack means.
-/

namespace TemplateGrammar

/-- A stack: its places, the lowest first, and how many of them are live. -/
structure Stack (α : Type) where
  places : Array α
  height : Nat
  height_le : height ≤ places.size

namespace Stack

variable {α : Type}

/-- A stack without places. -/
def empty : Stack α := ⟨#[], 0, Nat.le_refl _⟩

/-- What is on the stack, the top first. -/
def toList (s : Stack α) : List α :=
  (s.places.toList.take s.height).reverse

/-- The top. -/
def top? (s : Stack α) : Option α :=
  if s.height = 0 then none else s.places[s.height - 1]?

/-- Put something on the stack, into the next place if there is one. -/
def push (s : Stack α) (a : α) : Stack α :=
  if h : s.height < s.places.size then
    ⟨s.places.set s.height a h, s.height + 1, by rw [Array.size_set]; exact h⟩
  else
    ⟨s.places.push a, s.height + 1, by rw [Array.size_push]; exact Nat.succ_le_succ s.height_le⟩

/-- Change what is on top. -/
def onTop (s : Stack α) (f : α → α) : Stack α :=
  if s.height = 0 then s
  else ⟨s.places.modify (s.height - 1) f, s.height, by rw [Array.size_modify]; exact s.height_le⟩

/-- Take off the top, which hands something over to what is below it.  The lowest thing stays. -/
def pop (s : Stack α) (handOver : α → α → α) : Stack α :=
  if h : 2 ≤ s.height then
    have live : s.height - 1 < s.places.size := Nat.lt_of_lt_of_le (by omega) s.height_le
    ⟨s.places.modify (s.height - 2) (handOver s.places[s.height - 1]), s.height - 1, by
      rw [Array.size_modify]; exact Nat.le_of_lt live⟩
  else s

/-- Nothing is live any more; the places stay. -/
def clear (s : Stack α) : Stack α :=
  { s with height := 0, height_le := Nat.zero_le _ }

/-! ### What the operations do to the live places -/

theorem length_toList (s : Stack α) : s.toList.length = s.height := by
  rw [toList, List.length_reverse, List.length_take, Array.length_toList,
    Nat.min_eq_left s.height_le]

@[simp] theorem toList_clear (s : Stack α) : s.clear.toList = [] := by
  rw [toList, clear, List.take_zero, List.reverse_nil]

@[simp] theorem toList_push (s : Stack α) (a : α) : (s.push a).toList = a :: s.toList := by
  unfold push
  split
  · rename_i h
    have hl : s.height < (s.places.toList.set s.height a).length := by
      rw [List.length_set, Array.length_toList]; exact h
    rw [toList, Array.toList_set, List.take_succ_eq_append_getElem hl, List.reverse_append,
      List.getElem_set_self, List.take_set_of_le (Nat.le_refl _)]
    rfl
  · rename_i h
    have hl : s.places.toList.length ≤ s.height := by
      rw [Array.length_toList]; exact Nat.le_of_not_lt h
    have hla : (s.places.toList ++ [a]).length ≤ s.height + 1 := by
      rw [List.length_append]; exact Nat.succ_le_succ hl
    rw [toList, toList, Array.toList_push, List.take_of_length_le hla, List.take_of_length_le hl,
      List.reverse_append]
    rfl

/-- **A stack with something on it:** what is live below the top, and the top in its place. -/
theorem toList_eq_cons {s : Stack α} {a : α} {below : List α} (h : s.toList = a :: below) :
    s.height = below.length + 1 ∧ s.places[below.length]? = some a ∧
      s.places.toList.take below.length = below.reverse := by
  have hh : s.height = below.length + 1 := by rw [← length_toList, h, List.length_cons]
  have ht : s.places.toList.take (below.length + 1) = below.reverse ++ [a] := by
    rw [← hh, ← List.reverse_reverse (List.take _ _)]
    exact (congrArg List.reverse h).trans List.reverse_cons
  refine ⟨hh, ?_, ?_⟩
  · rw [← Array.getElem?_toList, ← List.getElem?_take_of_lt (Nat.lt_succ_self _), ht,
      List.getElem?_append_right (Nat.le_of_eq List.length_reverse),
      List.length_reverse, Nat.sub_self]
    rfl
  · have := congrArg (List.take below.length) ht
    rwa [List.take_take, Nat.min_eq_left (Nat.le_succ _),
      List.take_left' List.length_reverse] at this

theorem top?_eq_head? (s : Stack α) : s.top? = s.toList.head? := by
  unfold top?
  cases hs : s.toList with
  | nil => rw [if_pos (by rw [← length_toList, hs]; rfl)]; rfl
  | cons a below =>
    obtain ⟨hh, ha, _⟩ := toList_eq_cons hs
    rw [if_neg (by omega), hh, Nat.add_sub_cancel, ha]
    rfl

theorem take_modify {places : Array α} {a : α} {n : Nat} (f : α → α) (ha : places[n]? = some a) :
    (places.modify n f).toList.take (n + 1) = places.toList.take n ++ [f a] := by
  rw [← Array.getElem?_toList] at ha
  obtain ⟨hn, rfl⟩ := List.getElem?_eq_some_iff.1 ha
  rw [Array.toList_modify, List.modify_eq_take_cons_drop hn, List.append_cons]
  apply List.take_left'
  rw [List.length_append, List.length_take, Nat.min_eq_left (Nat.le_of_lt hn),
    List.length_singleton]

theorem toList_onTop (s : Stack α) (f : α → α) :
    (s.onTop f).toList = match s.toList with
      | [] => []
      | a :: below => f a :: below := by
  cases hs : s.toList with
  | nil =>
    rw [onTop, if_pos (by rw [← length_toList, hs]; rfl)]
    exact hs
  | cons a below =>
    obtain ⟨hh, ha, hb⟩ := toList_eq_cons hs
    rw [onTop, if_neg (by omega), toList]
    simp only [hh, Nat.add_sub_cancel]
    rw [take_modify _ ha, hb, List.reverse_append, List.reverse_reverse]
    rfl

theorem toList_pop {s : Stack α} {a b : α} {below : List α} (f : α → α → α)
    (h : s.toList = a :: b :: below) :
    (s.pop f).toList = f a b :: below := by
  obtain ⟨hh, ha, hb⟩ := toList_eq_cons h
  rw [List.length_cons] at hh ha hb
  -- the same places, with what lies below the top
  let lower : Stack α := ⟨s.places, below.length + 1, by have := s.height_le; omega⟩
  have hl : lower.toList = b :: below := by
    show (s.places.toList.take (below.length + 1)).reverse = b :: below
    rw [hb, List.reverse_reverse]
  obtain ⟨_, hbPlace, hbelow⟩ := toList_eq_cons hl
  have hlive : s.height - 1 < s.places.size := Nat.lt_of_lt_of_le (by omega) s.height_le
  have hchild : s.places[s.height - 1] = a := by
    simp only [hh, Nat.add_sub_cancel]
    exact (Array.getElem?_eq_some_iff.1 ha).2
  rw [pop, dif_pos (by omega), toList]
  simp only [hchild]
  simp only [hh, Nat.add_sub_cancel, show below.length + 1 + 1 - 2 = below.length from rfl]
  rw [take_modify _ hbPlace, hbelow, List.reverse_append, List.reverse_reverse]
  rfl

end Stack

end TemplateGrammar
