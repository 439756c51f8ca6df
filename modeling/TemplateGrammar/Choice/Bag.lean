import Std.Data.ExtTreeMap
import TemplateGrammar.Random

/-!
# Shuffle bags

A bag hands out every index once before it hands out any of them again: it is filled with the
indices in a shuffled order and emptied one by one.  It starts anew when it is empty, and also when
it is asked about another number of candidates than it was filled for.

Whoever chooses with a bag holds only its name (`BagId`), so all copies of a template share it; the
bags themselves stand in one store (`Bags`).  A bag that no one has picked from is not in the store
and is empty.
-/

namespace TemplateGrammar

/-- A bag: the number of candidates it was filled for, and the indices left in it. -/
structure Bag where
  size : Nat
  left : List Nat
  deriving DecidableEq, Repr

namespace Bag

/-- A bag that has not been filled. -/
def empty : Bag := ⟨0, []⟩

/-- **One pick.**  Of no candidates nothing is drawn; otherwise the next index comes out of the bag,
which is filled first if it is empty or was filled for another number. -/
def pick (b : Bag) (count : Nat) (r : Random) : Nat × Bag × Random :=
  if count = 0 then (0, b, r)
  else
    match (if b.size = count then b.left else []) with
    | i :: rest => (i, ⟨count, rest⟩, r)
    | [] =>
      match r.shuffled count with
      | (i :: rest, r') => (i, ⟨count, rest⟩, r')
      | ([], r') => (0, b, r')

end Bag

/-- The name of a bag. -/
inductive BagId where
  /-- the choice between the candidates of a rule, in the `edition`-th definition of its name -/
  | ofRule (name : String) (edition : Nat)
  /-- an inline choice in one of those candidates -/
  | inRule (name : String) (edition : Nat) (site : Nat)
  /-- a bag the host brought along -/
  | ofHost (n : Nat)
  /-- a bag made by a running expansion -/
  | fresh (n : Nat)
  deriving DecidableEq, Repr

namespace BagId

/-- The kind of a bag, as a number. -/
def kind : BagId → Nat
  | ofRule .. => 0
  | inRule .. => 1
  | ofHost _ => 2
  | fresh _ => 3

/-- The rule a bag belongs to. -/
def owner : BagId → String
  | ofRule name _ => name
  | inRule name .. => name
  | ofHost _ => ""
  | fresh _ => ""

/-- The definition a bag belongs to, or its number. -/
def number : BagId → Nat
  | ofRule _ edition => edition
  | inRule _ edition _ => edition
  | ofHost n => n
  | fresh n => n

/-- The place of a bag among those of a definition. -/
def place : BagId → Nat
  | inRule _ _ site => site
  | _ => 0

/-- Bags are ordered by kind, owner, number and place. -/
instance : Ord BagId where
  compare := compareLex (compareOn kind) (compareLex (compareOn owner)
    (compareLex (compareOn number) (compareOn place)))

instance : Std.TransOrd BagId :=
  inferInstanceAs (Std.TransCmp (compareLex (compareOn kind) (compareLex (compareOn owner)
    (compareLex (compareOn number) (compareOn place)))))

theorem ext_parts {a b : BagId} (hk : a.kind = b.kind) (ho : a.owner = b.owner)
    (hn : a.number = b.number) (hp : a.place = b.place) : a = b := by
  cases a <;> cases b <;> simp_all [kind, owner, number, place]

instance : Std.LawfulEqOrd BagId where
  eq_of_compare {a b} h := by
    have h : (compare a.kind b.kind).then ((compare a.owner b.owner).then
      ((compare a.number b.number).then (compare a.place b.place))) = .eq := h
    simp only [Ordering.then_eq_eq, Std.compare_eq_iff_eq] at h
    exact ext_parts h.1 h.2.1 h.2.2.1 h.2.2.2

/-- Bags of a run, which nothing outside the run refers to. -/
def isFresh : BagId → Bool
  | fresh _ => true
  | _ => false

end BagId

/-- The bags that have been picked from, and the number of the next bag of a run. -/
structure Bags where
  store : Std.ExtTreeMap BagId Bag
  next : Nat

namespace Bags

/-- No bag has been picked from. -/
def empty : Bags := ⟨∅, 0⟩

/-- The state of a bag. -/
def get (bs : Bags) (id : BagId) : Bag :=
  bs.store[id]?.getD Bag.empty

/-- Note the state of a bag. -/
def put (bs : Bags) (id : BagId) (b : Bag) : Bags :=
  { bs with store := bs.store.insert id b }

/-- The name for a new bag of the run. -/
def fresh (bs : Bags) : BagId × Bags :=
  (.fresh bs.next, { bs with next := bs.next + 1 })

/-- **Between runs that keep nothing,** the bags of the last run are gone. -/
def settle (bs : Bags) : Bags :=
  ⟨bs.store.filter fun id _ => !id.isFresh, 0⟩

@[simp] theorem get_put_self (bs : Bags) (id : BagId) (b : Bag) : (bs.put id b).get id = b := by
  simp [get, put]

theorem get_put_of_ne {bs : Bags} {id other : BagId} (b : Bag) (h : id ≠ other) :
    (bs.put id b).get other = bs.get other := by
  simp [get, put, Std.ExtTreeMap.getElem?_insert, h]

end Bags

end TemplateGrammar
