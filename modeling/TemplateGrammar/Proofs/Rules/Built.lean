import TemplateGrammar.Proofs.Template.Parsed
import TemplateGrammar.Proofs.Template.Places
import TemplateGrammar.Rules.Table

/-!
# Tables a host can make

A host makes a rule table by registering and removing rules and by changing their selectors
(`Built`).  All it can put into it so are candidates that were parsed, which nest no deeper than the
parser goes, under names that a reference can mention, of which the empty one is none
(`Built.sound`).
-/

namespace TemplateGrammar.RuleTable

variable {H : Type}

/-- **A table that a host made.** -/
inductive Built : RuleTable H → Prop
  | empty : Built .empty
  | add {t : RuleTable H} (h : Built t) (name : String) (d : Definition H) :
    Built (t.add name d).table
  | remove {t : RuleTable H} (h : Built t) (name : String) : Built (t.remove name)
  | setSelector {t t' : RuleTable H} (h : Built t) (name : String) (s : Selector H)
      (done : t.setSelector name s = .ok t') : Built t'

/-- The candidates of a rule nest no deeper than a parsed template can. -/
def Shallow (rule : Rule H) : Prop :=
  ∀ c ∈ rule.candidates, Node.NestsWithin maxNesting c.nodes

/-- Rules have names, and their candidates are shallow. -/
def Sound (t : RuleTable H) : Prop :=
  ∀ name rule, t.get? name = some rule → name ≠ "" ∧ Shallow rule

theorem nestsWithin_of_readCandidate {source : String} {nodes : List (Node Unit)}
    (h : readCandidate source = .ok nodes) : Node.NestsWithin maxNesting nodes := by
  unfold readCandidate at h
  cases hp : parseText source with
  | error f =>
    rw [hp] at h
    cases h
  | ok parsed =>
    rw [hp] at h
    have hnodes : (if parsed.isEmpty then [.text ""] else parsed) = nodes := Except.ok.inj h
    rw [← hnodes]
    split
    · exact Node.nestsWithin_leaf rfl
    · exact nestsWithin_of_parseText hp

theorem nestsWithin_of_mem_readable {sources : List String} {v : List (Node Unit)}
    (h : v ∈ (readable sources).map Prod.snd) : Node.NestsWithin maxNesting v := by
  obtain ⟨⟨s, nodes⟩, hs, rfl⟩ := List.mem_map.mp h
  obtain ⟨s', -, hs'⟩ := List.mem_filterMap.mp hs
  split at hs'
  · rename_i nodes' hread
    obtain ⟨-, rfl⟩ := Prod.mk.inj (Option.some.inj hs')
    exact nestsWithin_of_readCandidate hread
  · cases hs'

theorem mem_of_mem_zipWith {sources : List String} {values : List (List (Node BagId))}
    {c : Candidate} (h : c ∈ List.zipWith Candidate.mk sources values) : c.nodes ∈ values := by
  induction sources generalizing values with
  | nil => simp at h
  | cons s more ih =>
    cases values with
    | nil => simp at h
    | cons v rest =>
      rcases List.mem_cons.mp h with rfl | h
      · exact List.mem_cons_self
      · exact List.mem_cons_of_mem v (ih h)

theorem shallow_build (name : String) (edition : Nat) (sources : List String)
    (selector? : Option (Selector H)) :
    Shallow (build name edition (readable sources) selector?) := by
  intro c hc
  obtain ⟨v, hv, j, hj, -⟩ := Node.mem_placeValues (mem_of_mem_zipWith hc)
  rw [hj]
  exact (nestsWithin_of_mem_readable hv).place j

/-! ### Rules after a change -/

theorem get?_insert {t : RuleTable H} {name other : String} {rule new : Rule H}
    {editions : Dict Nat} (h : get? ⟨t.rules.insert name new, editions⟩ other = some rule) :
    (other = name ∧ rule = new) ∨ (other ≠ name ∧ t.get? other = some rule) := by
  unfold get? at h
  rw [Std.ExtTreeMap.getElem?_insert] at h
  split at h
  · rename_i hn
    have hsame : name = other := by simpa using hn
    exact .inl ⟨hsame.symm, (Option.some.inj h).symm⟩
  · rename_i hn
    have hne : ¬name = other := by simpa using hn
    exact .inr ⟨fun he => hne he.symm, h⟩

theorem get?_remove {t : RuleTable H} {name other : String} {rule : Rule H}
    (h : (t.remove name).get? other = some rule) : t.get? other = some rule := by
  unfold get? remove at h
  rw [Std.ExtTreeMap.getElem?_erase] at h
  split at h
  · cases h
  · exact h

/-! ### Soundness -/

theorem ne_empty_of_isValidName {name : String} (h : isValidName name = true) : name ≠ "" := by
  rintro rfl
  have hempty : tokenize "" = [] := by
    rw [tokenize, String.toList_empty, Lexer.lex]
  rw [isValidName, hempty] at h
  cases h

/-- A rule of a name that may be one can be put in, or put in the place of another. -/
theorem Sound.insert {t : RuleTable H} (h : t.Sound) {name : String} {rule : Rule H}
    (hname : name ≠ "") (hrule : Shallow rule) (editions : Dict Nat) :
    Sound ⟨t.rules.insert name rule, editions⟩ := by
  intro name' rule' hget
  rcases get?_insert hget with ⟨rfl, rfl⟩ | ⟨-, hget⟩
  · exact ⟨hname, hrule⟩
  · exact h name' rule' hget

theorem Sound.add {t : RuleTable H} (h : t.Sound) (name : String) (d : Definition H) :
    (t.add name d).table.Sound := by
  unfold RuleTable.add
  split
  · rename_i hvalid
    dsimp only
    split
    · exact h
    · exact h.insert (ne_empty_of_isValidName hvalid) (shallow_build _ _ _ _) _
  · exact h

/-- **All rules of a table a host made** have names, and nest no deeper than the parser goes. -/
theorem Built.sound {t : RuleTable H} (h : t.Built) : t.Sound := by
  induction h with
  | empty =>
    intro name rule hget
    simp [get?, RuleTable.empty] at hget
  | add _ name d ih => exact ih.add name d
  | remove _ name ih =>
    intro name' rule' hget
    exact ih name' rule' (get?_remove hget)
  | setSelector _ name s done ih =>
    unfold RuleTable.setSelector at done
    split at done
    · rename_i rule hrule
      obtain rfl := Except.ok.inj done
      obtain ⟨hname, hshallow⟩ := ih name rule hrule
      have hsame : Shallow { rule with selector := s } := hshallow
      exact ih.insert hname hsame _
    · cases done

end TemplateGrammar.RuleTable
