import Mathlib.Data.List.Induction
import TemplateGrammar.Proofs.Rules.Order

/-!
# The latest registration of a name

After rules have been registered one after another, a name stands for the last of its definitions
that could be registered, in an edition that counts them (`edition_get?_registered`).  So tables
that are made in different orders agree on a name as soon as it has as many definitions in both and
the last of them is the same (`get?_registered_eq`); and they have the same names if they are made
of the same definitions in whatever order (`names_registered_of_perm`).
-/

namespace TemplateGrammar.RuleTable

variable {H : Type}

/-- The definitions of a name that can be registered, in order. -/
def definitionsOf (name : String) (rules : List (String × Definition H)) : List (Definition H) :=
  (rules.filter fun r => r.1 == name && registrable r.1 r.2).map Prod.snd

theorem definitionsOf_append (name : String) (rules rules' : List (String × Definition H)) :
    definitionsOf name (rules ++ rules') = definitionsOf name rules ++
      definitionsOf name rules' := by
  rw [definitionsOf, List.filter_append, List.map_append]
  rfl

theorem definitionsOf_flatMap {α : Type} (name : String) (f : α → List (String × Definition H))
    (as : List α) :
    definitionsOf name (as.flatMap f) = as.flatMap fun a => definitionsOf name (f a) := by
  induction as with
  | nil => rfl
  | cons a rest ih => rw [List.flatMap_cons, definitionsOf_append, ih, List.flatMap_cons]

theorem definitionsOf_perm {name : String} {rules rules' : List (String × Definition H)}
    (h : rules.Perm rules') : (definitionsOf name rules).Perm (definitionsOf name rules') :=
  (h.filter _).map _

theorem registered_append (t : RuleTable H) (rules rules' : List (String × Definition H)) :
    t.registered (rules ++ rules') = (t.registered rules).registered rules' :=
  List.foldl_append ..

/-- **What a table knows of a name** after registrations: how many there were of it, and the rule
that the last of them stands for. -/
theorem edition_get?_registered (t : RuleTable H) (name : String)
    (rules : List (String × Definition H)) :
    (t.registered rules).edition name = t.edition name + (definitionsOf name rules).length ∧
      (t.registered rules).get? name =
        match (definitionsOf name rules).getLast? with
        | none => t.get? name
        | some d => some (build name (t.edition name + (definitionsOf name rules).length - 1)
            (readable d.candidates) d.selector?) := by
  induction rules using List.reverseRecOn with
  | nil => exact ⟨rfl, rfl⟩
  | append_singleton rules r ih =>
    obtain ⟨hedition, hget⟩ := ih
    have hlast : t.registered (rules ++ [r]) = ((t.registered rules).add r.1 r.2).table :=
      t.registered_append rules [r]
    rw [hlast, table_add, definitionsOf_append]
    by_cases hr : registrable r.1 r.2 = true
    · rw [if_pos hr]
      by_cases hname : r.1 = name
      · subst hname
        have hone : definitionsOf r.1 [r] = [r.2] := by simp [definitionsOf, hr]
        rw [hone, List.getLast?_concat, List.length_append, edition_insert, if_pos rfl,
          get?_insert_self, defined, hedition]
        exact ⟨rfl, rfl⟩
      · have hnone : definitionsOf name [r] = [] := by simp [definitionsOf, hname]
        rw [hnone, List.append_nil, edition_insert, if_neg hname,
          get?_insert_of_ne _ (Ne.symm hname)]
        exact ⟨hedition, hget⟩
    · have hnone : definitionsOf name [r] = [] := by simp [definitionsOf, hr]
      rw [if_neg hr, hnone, List.append_nil]
      exact ⟨hedition, hget⟩

/-- **Tables agree on a name** that has been defined as often in both, the last time in the same
way. -/
theorem get?_registered_eq (t : RuleTable H) {name : String}
    {rules rules' : List (String × Definition H)}
    (hcount : (definitionsOf name rules).length = (definitionsOf name rules').length)
    (hlast : (definitionsOf name rules).getLast? = (definitionsOf name rules').getLast?) :
    (t.registered rules).get? name = (t.registered rules').get? name := by
  rw [(t.edition_get?_registered name rules).2, (t.edition_get?_registered name rules').2,
    hcount, hlast]

theorem isSome_get?_registered (t : RuleTable H) (name : String)
    (rules : List (String × Definition H)) :
    ((t.registered rules).get? name).isSome =
      (!(definitionsOf name rules).isEmpty || (t.get? name).isSome) := by
  rw [(t.edition_get?_registered name rules).2]
  cases hlast : (definitionsOf name rules).getLast? with
  | none =>
    rw [List.getLast?_eq_none_iff.mp hlast]
    rfl
  | some d =>
    have hsome : (definitionsOf name rules).isEmpty = false := by
      cases hrules : definitionsOf name rules with
      | nil => simp [hrules] at hlast
      | cons d ds => rfl
    rw [hsome]
    rfl

/-! ### Tables with the same rules -/

theorem names_eq_of_isSome {t t' : RuleTable H}
    (h : ∀ name, (t.get? name).isSome = (t'.get? name).isSome) :
    t.names = t'.names := by
  have hmap : t.rules.map (fun _ _ => ()) = t'.rules.map (fun _ _ => ()) := by
    refine Std.ExtTreeMap.ext_getElem? fun name => ?_
    have hname := h name
    unfold get? at hname
    rw [Std.ExtTreeMap.getElem?_map, Std.ExtTreeMap.getElem?_map]
    cases hrule : t.rules[name]? <;> cases hrule' : t'.rules[name]? <;> simp_all
  have hkeys := congrArg Std.ExtTreeMap.keys hmap
  rwa [Std.ExtTreeMap.keys_map, Std.ExtTreeMap.keys_map] at hkeys

/-- **The names do not depend on the order** of the definitions. -/
theorem names_registered_of_perm (t : RuleTable H) {rules rules' : List (String × Definition H)}
    (h : rules.Perm rules') : (t.registered rules).names = (t.registered rules').names := by
  refine names_eq_of_isSome fun name => ?_
  rw [isSome_get?_registered, isSome_get?_registered, (definitionsOf_perm h).isEmpty_eq]

theorem inspect_congr {t t' : RuleTable H} (h : ∀ name, t.get? name = t'.get? name)
    (flatTags : Bool) : t.inspect flatTags = t'.inspect flatTags := by
  obtain ⟨rules, editions⟩ := t
  obtain ⟨rules', editions'⟩ := t'
  obtain rfl : rules = rules' := Std.ExtTreeMap.ext_getElem? h
  rfl

end TemplateGrammar.RuleTable
