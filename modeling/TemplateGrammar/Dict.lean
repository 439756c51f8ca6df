import Std.Data.ExtTreeMap

/-!
# Dictionaries by name

Rules, tags, objects and modifiers are all found by name.  Two dictionaries with the same entries
are equal, whatever was done to make them, and their names come out in order.
-/

namespace TemplateGrammar

/-- A dictionary whose keys are names. -/
abbrev Dict (α : Type) := Std.ExtTreeMap String α

theorem Dict.get?_empty_ne {α : Type} (name : String) (a : α) : (∅ : Dict α)[name]? ≠ some a := by
  rw [Std.ExtTreeMap.getElem?_empty]
  exact nofun

theorem Dict.getElem?_insert {α : Type} (names : Dict α) (name other : String) (a : α) :
    (names.insert name a)[other]? = if other = name then some a else names[other]? := by
  rw [Std.ExtTreeMap.getElem?_insert]
  by_cases h : other = name
  · rw [if_pos h, if_pos (by simpa using h.symm)]
  · rw [if_neg h, if_neg (by simpa using Ne.symm h)]

end TemplateGrammar
