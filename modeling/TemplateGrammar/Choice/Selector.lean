import TemplateGrammar.Choice.Bag
import TemplateGrammar.Template.Basic
import TemplateGrammar.Total

/-!
# How one candidate is chosen

A selector answers with an index; whoever asked checks the bounds, so an answer outside the list
means that no candidate was chosen.

There are the first candidate, a shuffle bag, a choice by weight, and whatever the host brings.  A
choice of the host is a function: it is told the number of candidates and may draw from the random
stream and use what the host remembers.  The type of what the host remembers is the parameter `H` of
everything that runs.
-/

namespace TemplateGrammar

/-- What picks draw on and change. -/
structure Chance (H : Type) where
  bags : Bags
  random : Random
  host : H

/-- A way to choose one of a number of candidates. -/
inductive Selector (H : Type) where
  | first
  | bag (id : BagId)
  | weighted (weights : List Nat)
  | host (choose : Nat → Random → H → Nat × Random × H)

/-- The first index whose cumulative weight exceeds `c`. -/
def indexByWeight : List Nat → Nat → Nat
  | [], _ => 0
  | w :: rest, c => if c < w then 0 else indexByWeight rest (c - w) + 1

/-- The sum of some weights, as 32 bits hold it. -/
def weightSum (weights : List Nat) : Nat :=
  total weights % UInt32.size

theorem weightSum_eq {weights : List Nat} (h : total weights < UInt32.size) :
    weightSum weights = total weights :=
  Nat.mod_eq_of_lt h

namespace Selector

variable {H σ : Type}

/-- **One pick of `count` candidates.**  Weights that sum to nothing pick out of range and draw
nothing. -/
def pick (s : Selector H) (count : Nat) (c : Chance H) : Nat × Chance H :=
  match s with
  | first => (0, c)
  | bag id =>
    match (c.bags.get id).pick count c.random with
    | (i, b, r) => (i, { c with bags := c.bags.put id b, random := r })
  | weighted weights =>
    if weightSum weights = 0 then (count, c)
    else
      match c.random.belowTotal (weightSum weights) with
      | (n, r) => (indexByWeight weights n, { c with random := r })
  | host choose =>
    match choose count c.random c.host with
    | (i, r, h) => (i, { c with random := r, host := h })

/-- **The selector a list of values gets by default.**  A single value needs no choice; weights
count as soon as one value has one; otherwise the values come out of a bag. -/
def default (values : List (Value σ)) (id : BagId) : Selector H :=
  if values.length = 1 then first
  else if values.any Value.hasWeight then weighted (values.map Value.weight)
  else bag id

end Selector

end TemplateGrammar
