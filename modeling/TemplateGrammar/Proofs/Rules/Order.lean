import Mathlib.Data.List.Nodup
import TemplateGrammar.Proofs.Rules.Editions
import TemplateGrammar.Rules.Inspection

/-!
# The order of registration

What a registration makes of a table depends, of the table, on the edition of the name alone
(`table_add`).  So registering two names one after the other comes to the same in either order
(`add_comm`), and registering rules of different names comes to the same table in whatever order
(`registered_of_perm`); not only its rules are the same, but also the editions, and with them the
bags of all choices.
-/

namespace TemplateGrammar.RuleTable

variable {H : Type}

/-- The table after rules have been registered one after another, if that can be done. -/
def registered (t : RuleTable H) (rules : List (String × Definition H)) : RuleTable H :=
  rules.foldl (fun t r => (t.add r.1 r.2).table) t

/-- The rule can be registered. -/
def registrable (name : String) (d : Definition H) : Bool :=
  isValidName name && !(readable d.candidates).isEmpty

/-- **The table after a registration.** -/
theorem table_add (t : RuleTable H) (name : String) (d : Definition H) :
    (t.add name d).table =
      if registrable name d then
        ⟨t.rules.insert name (t.defined name d), t.editions.insert name (t.edition name + 1)⟩
      else t := by
  unfold add registrable
  cases isValidName name with
  | false => rfl
  | true =>
    dsimp only
    cases (readable d.candidates).isEmpty <;> rfl

theorem insert_comm {α : Type} {name other : String} (h : name ≠ other) (dict : Dict α) (a b : α) :
    (dict.insert name a).insert other b = (dict.insert other b).insert name a := by
  refine Std.ExtTreeMap.ext_getElem? fun key => ?_
  rw [Std.ExtTreeMap.getElem?_insert, Std.ExtTreeMap.getElem?_insert,
    Std.ExtTreeMap.getElem?_insert, Std.ExtTreeMap.getElem?_insert]
  by_cases hname : name = key
  · have hother : ¬other = key := fun hkey => h (hname.trans hkey.symm)
    simp [hname, hother]
  · simp [hname]

/-- **Different names are registered in either order.** -/
theorem add_comm (t : RuleTable H) {name other : String} (h : name ≠ other) (d d' : Definition H) :
    ((t.add name d).table.add other d').table = ((t.add other d').table.add name d).table := by
  have hedition : ∀ (rules : Dict (Rule H)) (k : Nat),
      edition ⟨rules, t.editions.insert name k⟩ other = t.edition other := fun rules k => by
    rw [edition_insert, if_neg h]
  have hedition' : ∀ (rules : Dict (Rule H)) (k : Nat),
      edition ⟨rules, t.editions.insert other k⟩ name = t.edition name := fun rules k => by
    rw [edition_insert, if_neg h.symm]
  rw [table_add, table_add, table_add, table_add]
  cases registrable name d with
  | false => rfl
  | true =>
    cases registrable other d' with
    | false => rfl
    | true =>
      dsimp only [if_true, defined]
      rw [if_pos rfl, if_pos rfl, if_pos rfl, if_pos rfl, hedition, hedition', insert_comm h,
        insert_comm h]

/-- **The order of registration makes no difference to the table,** if the names are different. -/
theorem registered_of_perm (t : RuleTable H) {rules rules' : List (String × Definition H)}
    (hnames : (rules.map Prod.fst).Nodup) (hperm : rules.Perm rules') :
    t.registered rules = t.registered rules' := by
  refine hperm.foldl_eq' (fun r hr s hs t => ?_) t
  by_cases hsame : r.1 = s.1
  · rw [List.inj_on_of_nodup_map hnames hr hs hsame]
  · exact t.add_comm hsame r.2 s.2

end TemplateGrammar.RuleTable
