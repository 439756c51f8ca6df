import TemplateGrammar.Proofs.Rules.Editions
import TemplateGrammar.Proofs.Rules.Names
import TemplateGrammar.Proofs.Rules.Ranks

/-!
# What changes make of a rule table

A host changes a table in three ways (`Change`): it registers a rule, removes one, or gives one
another selector.  A change is refused or done, and `made` is the table after a list of changes.

What a table holds under a name is told by the changes alone (`standing`): the definition that was
last registered and not removed since.  A registration counts if its name is valid and one of its
texts is a template (`accepts`), and that is when it is done (`result_add_eq_ok`).  A rule stands
for its definition (`Rule.StandsFor`) if its candidates are the texts of the definition that are
templates, in their order, each with its tree.  The tree of a text without nodes is one empty text.

Main statement: after any changes, every name is valid and its rule stands for the definition, the
names come in order and without doubles, and the next change concerns its own rule only, or nothing
if it is refused (`made_invariant`).
-/

namespace TemplateGrammar

/-- The candidate is read from its source: its tree is that of the text, or one empty text if there
are no nodes. -/
def Candidate.IsRead (c : Candidate) : Prop :=
  ∃ nodes, parseText c.source = .ok nodes ∧
    c.nodes.map Node.erase = if nodes.isEmpty then [.text ""] else nodes

/-- **A rule stands for a definition** if its candidates are those texts of it that are
templates. -/
structure Rule.StandsFor {H : Type} (rule : Rule H) (d : Definition H) : Prop where
  candidate : rule.candidates ≠ []
  sources : rule.candidates.map Candidate.source = d.candidates.filter fun s => (parseText s).isOk
  read : ∀ c ∈ rule.candidates, c.IsRead

namespace RuleTable

variable {H : Type}

/-- **What a host does to a table.** -/
inductive Change (H : Type) where
  | add (name : String) (d : Definition H)
  | remove (name : String)
  | setSelector (name : String) (s : Selector H)

/-- The rule a change is about. -/
def Change.name : Change H → String
  | add name _ => name
  | remove name => name
  | setSelector name _ => name

/-- What a change answers, and the table after it. -/
def change (t : RuleTable H) : Change H → Except TableError Unit × RuleTable H
  | .add name d => ((t.add name d).result, (t.add name d).table)
  | .remove name => (.ok (), t.remove name)
  | .setSelector name s =>
    match t.setSelector name s with
    | .ok t' => (.ok (), t')
    | .error cause => (.error cause, t)

/-- The table after a list of changes, the latest first. -/
def made : List (Change H) → RuleTable H
  | [] => .empty
  | c :: earlier => ((made earlier).change c).2

/-- A definition may be registered under a valid name, if one of its texts is a template. -/
def accepts (name : String) (d : Definition H) : Bool :=
  isValidName name && d.candidates.any fun s => (parseText s).isOk

/-- The definition a name was last registered with, if it has not been removed since. -/
def standing (name : String) : List (Change H) → Option (Definition H)
  | [] => none
  | .add other d :: earlier => if other = name ∧ accepts name d then some d
    else standing name earlier
  | .remove other :: earlier => if other = name then none else standing name earlier
  | .setSelector _ _ :: earlier => standing name earlier

/-! ### The candidates of a definition -/

theorem isOk_readCandidate (source : String) :
    (readCandidate source).isOk = (parseText source).isOk := by
  unfold readCandidate
  cases parseText source <;> rfl

theorem map_fst_readable (sources : List String) :
    (readable sources).map Prod.fst = sources.filter fun s => (parseText s).isOk := by
  induction sources with
  | nil => rfl
  | cons s more ih =>
    rw [readable] at ih ⊢
    rw [List.filterMap_cons, List.filter_cons, ← isOk_readCandidate]
    cases readCandidate s with
    | error f => exact ih
    | ok nodes => exact congrArg (s :: ·) ih

theorem parseText_of_mem_readable {sources : List String} {s : String} {tree : List (Node Unit)}
    (h : (s, tree) ∈ readable sources) :
    ∃ nodes, parseText s = .ok nodes ∧ tree = if nodes.isEmpty then [.text ""] else nodes := by
  obtain ⟨s', -, hs'⟩ := List.mem_filterMap.mp h
  split at hs'
  · rename_i tree' hread
    obtain ⟨rfl, rfl⟩ := Prod.mk.inj (Option.some.inj hs')
    unfold readCandidate at hread
    cases hparse : parseText s' with
    | error f =>
      rw [hparse] at hread
      cases hread
    | ok nodes =>
      rw [hparse] at hread
      exact ⟨nodes, rfl, (Except.ok.inj hread).symm⟩
  · cases hs'

theorem map_erase_zipWith (f : Nat → BagId) (k : Nat) (parsed : List (String × List (Node Unit))) :
    (List.zipWith Candidate.mk (parsed.map Prod.fst)
      (Node.placeValues f k (parsed.map Prod.snd)).1).map
      (fun c => (c.source, c.nodes.map Node.erase)) = parsed := by
  induction parsed generalizing k with
  | nil => rfl
  | cons p more ih =>
    have hfirst : (Node.placeList f k p.2).1.map Node.erase = p.2 :=
      (Node.mapList_eq_map _ _).symm.trans (Node.erase_placeList f k p.2)
    exact congrArg₂ List.cons (congrArg (Prod.mk p.1) hfirst) (ih _)

theorem map_erase_defined (t : RuleTable H) (name : String) (d : Definition H) :
    (t.defined name d).candidates.map (fun c => (c.source, c.nodes.map Node.erase)) =
      readable d.candidates :=
  map_erase_zipWith _ 0 _

/-- **A rule that is registered stands for its definition.** -/
theorem standsFor_defined (t : RuleTable H) {name : String} {d : Definition H}
    (hsome : readable d.candidates ≠ []) : (t.defined name d).StandsFor d := by
  have hmap := t.map_erase_defined name d
  refine ⟨?_, ?_, ?_⟩
  · intro hnone
    rw [hnone] at hmap
    exact hsome hmap.symm
  · rw [← map_fst_readable, ← hmap, List.map_map]
    rfl
  · intro c hc
    have hmem : (c.source, c.nodes.map Node.erase) ∈ readable d.candidates := by
      rw [← hmap]
      exact List.mem_map_of_mem hc
    exact parseText_of_mem_readable hmem

theorem isEmpty_readable (sources : List String) :
    (readable sources).isEmpty = !sources.any fun s => (parseText s).isOk := by
  have hnone : (readable sources).isEmpty = true ↔ ∀ s ∈ sources, ¬ (parseText s).isOk = true := by
    rw [List.isEmpty_iff, ← List.map_eq_nil_iff, map_fst_readable, List.filter_eq_nil_iff]
  rw [Bool.eq_iff_iff, hnone, Bool.not_eq_true', List.any_eq_false]

theorem result_add (t : RuleTable H) (name : String) (d : Definition H) :
    (t.add name d).result =
      if isValidName name then
        if d.candidates.any fun s => (parseText s).isOk then .ok () else .error (.noCandidates name)
      else .error (.invalidName name) := by
  unfold add
  split
  · dsimp only
    rw [isEmpty_readable]
    cases d.candidates.any fun s => (parseText s).isOk <;> rfl
  · rfl

/-- **A registration is done** if and only if the name is valid and one of the texts is a
template. -/
theorem result_add_eq_ok {t : RuleTable H} {name : String} {d : Definition H} :
    (t.add name d).result = .ok () ↔ accepts name d = true := by
  rw [result_add, accepts]
  cases isValidName name <;> cases d.candidates.any fun s => (parseText s).isOk <;> simp

theorem readable_ne_nil {name : String} {d : Definition H} (h : accepts name d = true) :
    readable d.candidates ≠ [] := by
  intro hnone
  have hempty := isEmpty_readable d.candidates
  rw [hnone, (Bool.and_eq_true_iff.mp h).2] at hempty
  cases hempty

/-! ### One change -/

/-- A selector that is set stands in its rule, and nothing else is new; for a rule that is not there
nothing is. -/
theorem change_setSelector (t : RuleTable H) (name : String) (s : Selector H) :
    (∃ rule, t.get? name = some rule ∧ t.change (.setSelector name s) =
      (.ok (), ⟨t.rules.insert name { rule with selector := s }, t.editions⟩)) ∨
    (t.get? name = none ∧ t.change (.setSelector name s) = (.error (.ruleNotFound name), t)) := by
  dsimp only [change]
  unfold setSelector
  cases t.get? name with
  | some rule => exact .inl ⟨rule, rfl, rfl⟩
  | none => exact .inr ⟨rfl, rfl⟩

/-- **A change that is done** leaves every other rule as it was. -/
theorem get?_change {t : RuleTable H} {c : Change H} {other : String} (hother : other ≠ c.name) :
    (t.change c).2.get? other = t.get? other := by
  cases c with
  | add name d =>
    show (t.add name d).table.get? other = t.get? other
    rcases t.add_cases name d with ⟨-, htable⟩ | ⟨-, htable⟩
    · rw [htable]
    · rw [htable]
      exact t.get?_insert_of_ne hother _ _
  | remove name => exact t.get?_remove_of_ne hother
  | setSelector name s =>
    rcases t.change_setSelector name s with ⟨rule, -, hset⟩ | ⟨-, hset⟩
    · rw [hset]
      exact t.get?_insert_of_ne hother _ _
    · rw [hset]

/-- **A change that is refused** leaves the table as it was. -/
theorem change_of_error {t : RuleTable H} {c : Change H} {cause : TableError}
    (h : (t.change c).1 = .error cause) :
    (t.change c).2 = t := by
  cases c with
  | add name d =>
    rcases t.add_cases name d with ⟨-, htable⟩ | ⟨hok, -⟩
    · exact htable
    · cases hok.symm.trans h
  | remove name => cases h
  | setSelector name s =>
    rcases t.change_setSelector name s with ⟨rule, -, hset⟩ | ⟨-, hset⟩
    · rw [hset] at h
      cases h
    · rw [hset]

theorem get?_remove_self (t : RuleTable H) (name : String) : (t.remove name).get? name = none :=
  Std.ExtTreeMap.getElem?_erase_self

/-! ### Any changes -/

theorem built_made (changes : List (Change H)) : (made changes).Built := by
  induction changes with
  | nil => exact .empty
  | cons c earlier ih =>
    cases c with
    | add name d => exact ih.add name d
    | remove name => exact ih.remove name
    | setSelector name s =>
      rw [made, change]
      split
      · rename_i t' hset
        exact ih.setSelector name s hset
      · exact ih

theorem standing_cons_of_ne {c : Change H} {name : String} (h : name ≠ c.name)
    (earlier : List (Change H)) : standing name (c :: earlier) = standing name earlier := by
  cases c with
  | add other d => exact if_neg fun hsame => h hsame.1.symm
  | remove other => exact if_neg h.symm
  | setSelector other s => rfl

/-- **What stands under a name** is a rule for the definition that was last registered and not
removed since. -/
theorem standsFor_standing (changes : List (Change H)) (name : String) :
    Option.Rel Rule.StandsFor ((made changes).get? name) (standing name changes) := by
  induction changes with
  | nil =>
    have hnone : (RuleTable.empty : RuleTable H).get? name = none := Std.ExtTreeMap.getElem?_empty
    rw [made, standing, hnone]
    exact .none
  | cons c earlier ih =>
    by_cases hname : name = c.name
    · cases c with
      | add other d =>
        obtain rfl : name = other := hname
        show Option.Rel Rule.StandsFor (((made earlier).add name d).table.get? name) _
        rcases (made earlier).add_cases name d with ⟨hrefused, htable⟩ | ⟨hdone, htable⟩
        · rw [htable, standing, if_neg fun h => hrefused (result_add_eq_ok.mpr h.2)]
          exact ih
        · have haccepts := result_add_eq_ok.mp hdone
          rw [htable, get?_insert_self, standing, if_pos ⟨rfl, haccepts⟩]
          exact .some ((made earlier).standsFor_defined (readable_ne_nil haccepts))
      | remove other =>
        obtain rfl : name = other := hname
        show Option.Rel Rule.StandsFor (((made earlier).remove name).get? name) _
        rw [get?_remove_self, standing, if_pos rfl]
        exact .none
      | setSelector other s =>
        obtain rfl : name = other := hname
        rw [made, standing]
        rcases (made earlier).change_setSelector name s with ⟨rule, hrule, hset⟩ | ⟨-, hset⟩
        · -- the rule has another selector, and the candidates it had
          rw [hrule] at ih
          rw [hset]
          show Option.Rel Rule.StandsFor (get? ⟨(made earlier).rules.insert name _, _⟩ name) _
          rw [get?_insert_self]
          cases hstands : standing name earlier with
          | none =>
            rw [hstands] at ih
            cases ih
          | some d =>
            rw [hstands] at ih
            cases ih with
            | some hrel => exact .some ⟨hrel.candidate, hrel.sources, hrel.read⟩
        · rw [hset]
          exact ih
    · rw [standing_cons_of_ne hname]
      exact (get?_change hname).symm ▸ ih

theorem ordered_names (t : RuleTable H) : t.names.Pairwise (· < ·) :=
  List.Pairwise.imp (fun h => compareOfLessAndEq_eq_lt.mp h)
    (Std.ExtTreeMap.ordered_keys (t := t.rules))

/-- **After any changes** every rule has a valid name and stands for the definition last registered
under it; the names of the rules come in order, without doubles; and the next change leaves the
other rules as they are, and the whole table if it is refused. -/
theorem made_invariant (changes : List (Change H)) :
    (∀ name rule, (made changes).get? name = some rule → isValidName name = true) ∧
    (∀ name, Option.Rel Rule.StandsFor ((made changes).get? name) (standing name changes)) ∧
    (made changes).names.Pairwise (· < ·) ∧
    (∀ name, name ∈ (made changes).names ↔ ∃ rule, (made changes).get? name = some rule) ∧
    ∀ c : Change H,
      (((made changes).change c).1 = .ok () → ∀ other, other ≠ c.name →
        ((made changes).change c).2.get? other = (made changes).get? other) ∧
      ∀ cause, ((made changes).change c).1 = .error cause →
      ((made changes).change c).2 = made changes := by
  have hbuilt : (made changes).Built := built_made changes
  refine ⟨fun name rule hrule => hbuilt.isValidName hrule, standsFor_standing changes,
    ordered_names _, ?_, ?_⟩
  · intro name
    refine ⟨fun hname => exists_get? (mem_names_iff.mp hname), ?_⟩
    rintro ⟨rule, hrule⟩
    exact mem_names_of_get? hrule
  · intro c
    exact ⟨fun _ other hother => get?_change hother, fun cause hcause => change_of_error hcause⟩

/-- A text that is no template is dropped, an empty one is kept, and the empty name is refused. -/
example :
    ((made [.add "" (.text "a"), .add "r" (.list ["fine", "[broken", ""])] : RuleTable Unit).get?
      "r").map (fun rule => rule.candidates.map Candidate.source) = some ["fine", ""] := by
  decide +kernel

end RuleTable

end TemplateGrammar
