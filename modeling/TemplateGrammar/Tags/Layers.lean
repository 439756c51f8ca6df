import TemplateGrammar.Dict
import TemplateGrammar.Total

/-!
# Layers of names

Values kept by name and by level.  Only levels that hold something have a layer, and the layers are
listed from the highest level down, so the layer a running expansion works on comes first, however
deep it is.

A look-up from a level finds the value of the nearest layer at or below it (`Layers.get?`).  Leaving
a level takes the layers above it away (`Layers.leave`).
-/

namespace TemplateGrammar

/-- Values by level and by name, the highest level first. -/
structure Layers (α : Type) where
  toList : List (Nat × Dict α)
  descending : toList.Pairwise fun a b => b.1 < a.1

namespace Layers

variable {α : Type}

/-- No layers. -/
def empty : Layers α := ⟨[], .nil⟩

/-- Write a value into the layer of a level, which is made if it is missing. -/
def write (level : Nat) (name : String) (a : α) : List (Nat × Dict α) → List (Nat × Dict α)
  | [] => [(level, (∅ : Dict α).insert name a)]
  | layer :: rest =>
    if level < layer.1 then layer :: write level name a rest
    else if level = layer.1 then (level, layer.2.insert name a) :: rest
    else (level, (∅ : Dict α).insert name a) :: layer :: rest

theorem level_of_mem_write {level : Nat} {name : String} {a : α} {layers : List (Nat × Dict α)}
    {l : Nat × Dict α} (h : l ∈ write level name a layers) : l.1 = level ∨ l ∈ layers := by
  induction layers with
  | nil =>
    rw [write, List.mem_singleton] at h
    exact .inl (by rw [h])
  | cons layer rest ih =>
    rw [write] at h
    split at h
    · rcases List.mem_cons.1 h with h | h
      · exact .inr (h ▸ List.mem_cons_self)
      · exact (ih h).imp id (List.mem_cons_of_mem _)
    · split at h
      · rcases List.mem_cons.1 h with h | h
        · exact .inl (by rw [h])
        · exact .inr (List.mem_cons_of_mem _ h)
      · rcases List.mem_cons.1 h with h | h
        · exact .inl (by rw [h])
        · exact .inr h

theorem write_descending (level : Nat) (name : String) (a : α) {layers : List (Nat × Dict α)}
    (h : layers.Pairwise fun a b => b.1 < a.1) :
    (write level name a layers).Pairwise fun a b => b.1 < a.1 := by
  induction layers with
  | nil => exact List.pairwise_singleton _ _
  | cons layer rest ih =>
    obtain ⟨h1, h2⟩ := List.pairwise_cons.1 h
    rw [write]
    split
    · rename_i hlt
      refine List.pairwise_cons.2 ⟨fun b hb => ?_, ih h2⟩
      rcases level_of_mem_write hb with hb | hb
      · omega
      · exact h1 b hb
    · split
      · rename_i heq
        exact List.pairwise_cons.2 ⟨fun b hb => heq ▸ h1 b hb, h2⟩
      · refine List.pairwise_cons.2 ⟨fun b hb => ?_, h⟩
        rcases List.mem_cons.1 hb with hb | hb
        · subst hb
          show b.1 < level
          omega
        · have := h1 b hb
          show b.1 < level
          omega

/-- Keep a value under a level and a name. -/
def insert (ls : Layers α) (level : Nat) (name : String) (a : α) : Layers α :=
  ⟨write level name a ls.toList, write_descending level name a ls.descending⟩

/-- **Leave for a level:** what is kept above it is gone. -/
def leave (ls : Layers α) (level : Nat) : Layers α :=
  ⟨ls.toList.dropWhile fun l => level < l.1, ls.descending.sublist (List.dropWhile_sublist _)⟩

/-- **The value seen from a level:** that of the nearest layer at or below it which has the name. -/
def get? (ls : Layers α) (level : Nat) (name : String) : Option α :=
  (ls.leave level).toList.findSome? fun l => l.2[name]?

/-- The number of values. -/
def size (ls : Layers α) : Nat :=
  total (ls.toList.map fun l => l.2.size)

end Layers

end TemplateGrammar
