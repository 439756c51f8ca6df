import Mathlib.Data.List.Induction
import TemplateGrammar.Proofs.Tags.Layers

/-!
# The nearest tag

Layered tags can be thought of without layers: under each level and name there is an entry or none
(`Entries`).  A tag that is stored becomes the entry under its level and name, leaving for a level
erases the entries above it, and clearing erases all.  What a reading sees from a level is the entry
of the greatest level at or below it that has one under the name (`Entries.nearest`).

What layers keep is such entries (`Layers.entry`).  Each operation on layers does to them what it
should (`Layers.entry_insert`, `Layers.entry_leave`), and a look-up finds the nearest one
(`Layers.get?_eq_nearest`).  So after whatever has been done to a store of layered tags, a reading
finds what was stored last on the nearest level and has not been erased since
(`TagStore.get?_after_changes`).
-/

namespace TemplateGrammar

/-- **What is kept under each level and name,** or nothing. -/
abbrev Entries (α : Type) := Nat → String → Option α

namespace Entries

variable {α : Type}

/-- Nothing is kept. -/
def empty : Entries α :=
  fun _ _ => none

/-- **The nearest entry:** that of the greatest level at or below a level, of those with an entry
under the name. -/
def nearest (es : Entries α) : Nat → String → Option α
  | 0, name => es 0 name
  | level + 1, name => (es (level + 1) name).or (es.nearest level name)

theorem nearest_empty (level : Nat) (name : String) :
    (empty : Entries α).nearest level name = none := by
  induction level with
  | zero => rfl
  | succ level ih => exact ih

theorem nearest_congr {es es' : Entries α} {level : Nat} {name : String}
    (h : ∀ l ≤ level, es l name = es' l name) : es.nearest level name = es'.nearest level name := by
  induction level with
  | zero => exact h 0 (Nat.le_refl 0)
  | succ level ih =>
    rw [nearest, nearest, h (level + 1) (Nat.le_refl _), ih fun l hl => h l (Nat.le_succ_of_le hl)]

theorem nearest_eq_some_iff {es : Entries α} {level : Nat} {name : String} {a : α} :
    es.nearest level name = some a ↔
      ∃ l ≤ level, es l name = some a ∧ ∀ k, l < k → k ≤ level → es k name = none := by
  induction level with
  | zero =>
    constructor
    · intro h
      exact ⟨0, Nat.le_refl 0, h, fun k hlow hhigh => by omega⟩
    · rintro ⟨l, hl, h, -⟩
      obtain rfl : l = 0 := by omega
      exact h
  | succ level ih =>
    rw [nearest, Option.or_eq_some_iff, ih]
    constructor
    · rintro (h | ⟨hnone, l, hl, h, habove⟩)
      · exact ⟨level + 1, Nat.le_refl _, h, fun k hlow hhigh => by omega⟩
      · refine ⟨l, by omega, h, fun k hlow hhigh => ?_⟩
        by_cases hk : k = level + 1
        · exact hk ▸ hnone
        · exact habove k hlow (by omega)
    · rintro ⟨l, hl, h, habove⟩
      by_cases htop : l = level + 1
      · exact .inl (htop ▸ h)
      · refine .inr ⟨habove (level + 1) (by omega) (Nat.le_refl _), l, by omega, h,
          fun k hlow hhigh => ?_⟩
        exact habove k hlow (by omega)

end Entries

namespace Layers

variable {α : Type}

/-- The entry under a level and a name. -/
def entryOf (level : Nat) (name : String) (layers : List (Nat × Dict α)) : Option α :=
  (layers.lookup level).bind fun names => names[name]?

theorem entryOf_cons (level : Nat) (name : String) (layer : Nat × Dict α)
    (rest : List (Nat × Dict α)) :
    entryOf level name (layer :: rest) = if level = layer.1 then layer.2[name]?
      else entryOf level name rest := by
  obtain ⟨l, names⟩ := layer
  rw [entryOf, List.lookup_cons]
  by_cases h : level = l
  · rw [if_pos h, beq_iff_eq.mpr h]
    rfl
  · rw [if_neg h, beq_eq_false_iff_ne.mpr h]
    rfl

theorem entryOf_above {level : Nat} {layers : List (Nat × Dict α)}
    (h : ∀ layer ∈ layers, layer.1 < level) (name : String) : entryOf level name layers = none := by
  induction layers with
  | nil => rfl
  | cons layer rest ih =>
    have hfirst := h layer List.mem_cons_self
    rw [entryOf_cons, if_neg (by omega)]
    exact ih fun other hother => h other (List.mem_cons_of_mem layer hother)

theorem entryOf_above_first {level : Nat} {layer : Nat × Dict α} {rest : List (Nat × Dict α)}
    (hfirst : ∀ other ∈ rest, other.1 < layer.1) (h : layer.1 < level) (name : String) :
    entryOf level name (layer :: rest) = none := by
  refine entryOf_above ?_ name
  intro other hother
  rcases List.mem_cons.mp hother with rfl | hother
  · exact h
  · exact Nat.lt_trans (hfirst other hother) h

section Descending

variable {layers : List (Nat × Dict α)} (hd : layers.Pairwise fun a b => b.1 < a.1)

include hd

theorem entryOf_write (level : Nat) (name : String) (a : α) (l : Nat) (other : String) :
    entryOf l other (write level name a layers) =
      if l = level ∧ other = name then some a else entryOf l other layers := by
  induction layers with
  | nil =>
    rw [write, entryOf_cons, Dict.getElem?_insert]
    by_cases hl : l = level <;> simp [hl, entryOf]
  | cons layer rest ih =>
    obtain ⟨hfirst, hrest⟩ := List.pairwise_cons.1 hd
    rw [write]
    split
    · rename_i hlt
      rw [entryOf_cons, entryOf_cons, ih hrest]
      by_cases hl : l = layer.1
      · rw [if_pos hl, if_pos hl, if_neg (by omega)]
      · rw [if_neg hl, if_neg hl]
    · split
      · rename_i hsame
        rw [entryOf_cons, entryOf_cons, Dict.getElem?_insert, ← hsame]
        by_cases hl : l = level <;> simp [hl]
      · -- a new layer, above all that there are
        rename_i hlt hne
        rw [entryOf_cons, Dict.getElem?_insert]
        by_cases hl : l = level
        · have hnone := entryOf_above_first hfirst (show layer.1 < level by omega) other
          simp [hl, hnone]
        · simp [hl]

theorem entryOf_upTo (level l : Nat) (name : String) :
    entryOf l name (upTo level layers) = if l ≤ level then entryOf l name layers else none := by
  induction layers with
  | nil => simp [upTo, entryOf]
  | cons layer rest ih =>
    obtain ⟨hfirst, hrest⟩ := List.pairwise_cons.1 hd
    by_cases hlt : level < layer.1
    · rw [upTo_cons_of_lt rest hlt, ih hrest, entryOf_cons]
      by_cases hl : l ≤ level
      · rw [if_pos hl, if_pos hl, if_neg (by omega)]
      · rw [if_neg hl, if_neg hl]
    · rw [upTo_cons_of_le rest (by omega)]
      by_cases hl : l ≤ level
      · rw [if_pos hl]
      · rw [if_neg hl, entryOf_above_first hfirst (by omega)]

/-- **What is found first** is the nearest entry, since the layers come from the highest level
down. -/
theorem findSome?_upTo (level : Nat) (name : String) :
    (upTo level layers).findSome? (fun l => l.2[name]?) =
      Entries.nearest (fun l other => entryOf l other layers) level name := by
  induction layers with
  | nil => exact (Entries.nearest_empty level name).symm
  | cons layer rest ih =>
    obtain ⟨hfirst, hrest⟩ := List.pairwise_cons.1 hd
    by_cases hlt : level < layer.1
    · -- the layer is out of sight
      rw [upTo_cons_of_lt rest hlt, ih hrest]
      refine Entries.nearest_congr fun k hk => ?_
      rw [entryOf_cons, if_neg (by omega)]
    · rw [upTo_cons_of_le rest (by omega), List.findSome?_cons]
      cases hfound : layer.2[name]? with
      | some a =>
        have hhere : entryOf layer.1 name (layer :: rest) = some a := by
          rw [entryOf_cons, if_pos rfl, hfound]
        refine (Entries.nearest_eq_some_iff.mpr ⟨layer.1, by omega, hhere, fun k hlow _ => ?_⟩).symm
        exact entryOf_above_first hfirst hlow name
      | none =>
        have hsight : upTo level rest = rest := upTo_of_forall_le fun other hother => by
          have hlower := hfirst other hother
          omega
        have hbelow := ih hrest
        rw [hsight] at hbelow
        dsimp only
        rw [hbelow]
        refine Entries.nearest_congr fun k _ => ?_
        rw [entryOf_cons]
        split
        · rename_i hk
          rw [hfound, hk, entryOf_above hfirst]
        · rfl

end Descending

/-- **What layers keep** under a level and a name. -/
def entry (ls : Layers α) : Entries α :=
  fun level name => entryOf level name ls.toList

theorem entry_empty : (empty : Layers α).entry = .empty :=
  rfl

theorem entry_insert (ls : Layers α) (level : Nat) (name : String) (a : α) (l : Nat)
    (other : String) :
    (ls.insert level name a).entry l other = if l = level ∧ other = name then some a
      else ls.entry l other :=
  entryOf_write ls.descending level name a l other

theorem entry_leave (ls : Layers α) (level l : Nat) (name : String) :
    (ls.leave level).entry l name = if l ≤ level then ls.entry l name else none :=
  entryOf_upTo ls.descending level l name

/-- **A look-up finds the nearest entry.** -/
theorem get?_eq_nearest (ls : Layers α) (level : Nat) (name : String) :
    ls.get? level name = ls.entry.nearest level name := by
  rw [get?_eq_findSome?, findSome?_upTo ls.descending]
  rfl

end Layers

/-! ### Histories -/

/-- What is done to a store of tags. -/
inductive TagChange (H : Type) where
  | store (level : Nat) (name : String) (tag : Tag H)
  | leave (level : Nat)
  | clear

variable {H : Type}

/-- The store after something was done to it. -/
def TagStore.change (ts : TagStore H) : TagChange H → TagStore H
  | .store level name tag => ts.store level name tag
  | .leave level => ts.leave level
  | .clear => ts.clear

namespace Entries

/-- **What is done to entries:** storing changes one of them, leaving for a level erases those above
it, and clearing erases all. -/
def change (es : Entries (Tag H)) : TagChange H → Entries (Tag H)
  | .store level name tag => fun l other => if l = level ∧ other = name then some tag
    else es l other
  | .leave level => fun l other => if l ≤ level then es l other else none
  | .clear => empty

/-- The entries after all that was done. -/
def after (changes : List (TagChange H)) : Entries (Tag H) :=
  changes.foldl change empty

end Entries

namespace TagChange

/-- The entry under a level and a name is changed or erased. -/
def Touches (level : Nat) (name : String) : TagChange H → Prop
  | store l other _ => level = l ∧ name = other
  | leave l => l < level
  | clear => True

/-- **Stored last:** the tag was stored under the level and the name, and the entry has not been
touched since. -/
def StoredLast (changes : List (TagChange H)) (level : Nat) (name : String) (tag : Tag H) : Prop :=
  ∃ before since, changes = before ++ store level name tag :: since ∧ ∀ c ∈ since,
    ¬c.Touches level name

variable {changes : List (TagChange H)} {c : TagChange H} {level : Nat}
    {name : String} {tag : Tag H}

theorem storedLast_of_touches (hc : c.Touches level name) :
    StoredLast (changes ++ [c]) level name tag ↔ c = store level name tag := by
  constructor
  · rintro ⟨before, since, h, hsince⟩
    rcases List.eq_nil_or_concat since with rfl | ⟨since, last, rfl⟩
    · exact (List.append_singleton_inj.mp h).2
    · rw [List.concat_eq_append, ← List.cons_append, ← List.append_assoc] at h
      obtain ⟨-, rfl⟩ := List.append_singleton_inj.mp h
      exact absurd hc (hsince c (by simp))
  · rintro rfl
    exact ⟨changes, [], rfl, by simp⟩

theorem storedLast_of_not_touches (hc : ¬c.Touches level name) :
    StoredLast (changes ++ [c]) level name tag ↔ StoredLast changes level name tag := by
  constructor
  · rintro ⟨before, since, h, hsince⟩
    rcases List.eq_nil_or_concat since with rfl | ⟨since, last, rfl⟩
    · obtain ⟨-, rfl⟩ := List.append_singleton_inj.mp h
      exact absurd ⟨rfl, rfl⟩ hc
    · rw [List.concat_eq_append, ← List.cons_append, ← List.append_assoc] at h
      obtain ⟨rfl, -⟩ := List.append_singleton_inj.mp h
      exact ⟨before, since, rfl, fun d hd => hsince d (by simp [hd])⟩
  · rintro ⟨before, since, rfl, hsince⟩
    refine ⟨before, since ++ [c], by simp, fun d hd => ?_⟩
    rcases List.mem_append.mp hd with hd | hd
    · exact hsince d hd
    · exact List.mem_singleton.mp hd ▸ hc

end TagChange

namespace Entries

open TagChange (StoredLast)

variable {es : Entries (Tag H)} {c : TagChange H} {level : Nat} {name : String} {tag : Tag H}

theorem change_of_not_touches (h : ¬c.Touches level name) :
    es.change c level name = es level name := by
  cases c with
  | store l other tag => exact if_neg h
  | leave l => exact if_pos (Nat.le_of_not_lt h)
  | clear => exact absurd trivial h

theorem change_of_touches (h : c.Touches level name) :
    es.change c level name = some tag ↔ c = .store level name tag := by
  constructor
  · intro hs
    cases c with
    | store l other stored =>
      obtain ⟨rfl, rfl⟩ := h
      obtain rfl := Option.some.inj ((if_pos ⟨rfl, rfl⟩).symm.trans hs)
      rfl
    | leave l =>
      have hnone : es.change (.leave l) level name = none := if_neg (Nat.not_le_of_gt h)
      rw [hnone] at hs
      cases hs
    | clear => cases hs
  · rintro rfl
    exact if_pos ⟨rfl, rfl⟩

theorem after_append (changes : List (TagChange H)) (c : TagChange H) :
    after (changes ++ [c]) = (after changes).change c := by
  rw [after, List.foldl_append]
  rfl

/-- **An entry is what was stored last.** -/
theorem after_eq_some_iff {changes : List (TagChange H)} :
    after changes level name = some tag ↔ StoredLast changes level name tag := by
  induction changes using List.reverseRecOn with
  | nil =>
    constructor
    · nofun
    · rintro ⟨before, since, h, -⟩
      cases before <;> cases h
  | append_singleton changes c ih =>
    rw [after_append]
    by_cases hc : c.Touches level name
    · rw [change_of_touches hc, TagChange.storedLast_of_touches hc]
    · rw [change_of_not_touches hc, ih, TagChange.storedLast_of_not_touches hc]

end Entries

namespace TagStore

/-- **Layered tags keep these entries.** -/
def Keeps (ts : TagStore H) (es : Entries (Tag H)) : Prop :=
  ∃ tags, ts = .layered tags ∧ tags.entry = es

theorem keeps_empty : (empty .layered : TagStore H).Keeps .empty :=
  ⟨.empty, rfl, Layers.entry_empty⟩

/-- **What is done to a store** is done to the entries that it keeps. -/
theorem Keeps.change {ts : TagStore H} {es : Entries (Tag H)} (h : ts.Keeps es) (c : TagChange H) :
    (ts.change c).Keeps (es.change c) := by
  obtain ⟨tags, rfl, rfl⟩ := h
  cases c with
  | store level name tag =>
    exact ⟨tags.insert level name tag, rfl, funext₂ (tags.entry_insert level name tag)⟩
  | leave level => exact ⟨tags.leave level, rfl, funext₂ (tags.entry_leave level)⟩
  | clear => exact keeps_empty

theorem Keeps.foldl {ts : TagStore H} {es : Entries (Tag H)} (h : ts.Keeps es)
    (changes : List (TagChange H)) :
    (changes.foldl TagStore.change ts).Keeps (changes.foldl Entries.change es) := by
  induction changes generalizing ts es with
  | nil => exact h
  | cons c changes ih => exact ih (h.change c)

theorem Keeps.get? {ts : TagStore H} {es : Entries (Tag H)} (h : ts.Keeps es) (level : Nat)
    (name : String) : ts.get? level name = es.nearest level name := by
  obtain ⟨tags, rfl, rfl⟩ := h
  exact tags.get?_eq_nearest level name

/-- **Whatever is done to layered tags, a reading sees the nearest one.**  After a history of
storing, leaving and clearing, in any order and on any levels, the tag that is seen under a name
from a level is the nearest of the entries after the same history.  So it is a tag that was stored
last under the name on a level at or below, while on no level between is there a tag that was; and
if there is none so on any level at or below, none is seen. -/
theorem get?_after_changes (changes : List (TagChange H)) (level : Nat) (name : String) :
    (changes.foldl TagStore.change (.empty .layered)).get? level name =
      (Entries.after changes).nearest level name ∧
      ∀ tag, (changes.foldl TagStore.change (.empty .layered)).get? level name = some tag ↔
        ∃ l ≤ level, TagChange.StoredLast changes l name tag ∧
          ∀ k, l < k → k ≤ level → ∀ other, ¬TagChange.StoredLast changes k name other := by
  have hget := (keeps_empty.foldl changes).get? level name
  refine ⟨hget, fun tag => ?_⟩
  rw [hget, Entries.nearest_eq_some_iff]
  have hnone : ∀ k, changes.foldl Entries.change .empty k name = none ↔
      ∀ other, ¬TagChange.StoredLast changes k name other := by
    intro k
    rw [Option.eq_none_iff_forall_ne_some]
    exact forall_congr' fun other => not_congr Entries.after_eq_some_iff
  simp only [hnone]
  exact exists_congr fun l => and_congr_right fun _ => and_congr_left fun _ =>
    Entries.after_eq_some_iff

end TagStore

end TemplateGrammar
