import TemplateGrammar.Choice.Selector
import TemplateGrammar.Tags.Layers

/-!
# Tags

A tag is a name for some texts, of which every reading picks one.  Tags are kept in one of two ways.
Flat tags are seen from everywhere, and the latest writing counts.  Layered tags are kept by the
level of expansion at which they were written: a reading sees the nearest enclosing level that has
the name, and a level that is left loses its tags.
-/

namespace TemplateGrammar

/-- How tags are scoped. -/
inductive TagScoping where
  | flat
  | layered
  deriving DecidableEq, Repr

/-- The texts of a tag and how one of them is picked. -/
structure Tag (H : Type) where
  values : List String
  selector : Selector H

/-- The tags that are set. -/
inductive TagStore (H : Type) where
  | flat (tags : Dict (Tag H))
  | layered (tags : Layers (Tag H))

namespace TagStore

variable {H : Type}

/-- No tags. -/
def empty : TagScoping → TagStore H
  | .flat => flat ∅
  | .layered => layered .empty

/-- Set a tag. -/
def store (ts : TagStore H) (level : Nat) (name : String) (tag : Tag H) : TagStore H :=
  match ts with
  | flat tags => flat (tags.insert name tag)
  | layered tags => layered (tags.insert level name tag)

/-- The tag seen from a level. -/
def get? (ts : TagStore H) (level : Nat) (name : String) : Option (Tag H) :=
  match ts with
  | flat tags => tags[name]?
  | layered tags => tags.get? level name

/-- Remove all tags. -/
def clear : TagStore H → TagStore H
  | flat _ => flat ∅
  | layered _ => layered .empty

/-- Expansion is back at a level: what was written above it is gone. -/
def leave (ts : TagStore H) (level : Nat) : TagStore H :=
  match ts with
  | flat tags => flat tags
  | layered tags => layered (tags.leave level)

/-- The number of tags. -/
def size : TagStore H → Nat
  | flat tags => tags.size
  | layered tags => tags.size

end TagStore

end TemplateGrammar
