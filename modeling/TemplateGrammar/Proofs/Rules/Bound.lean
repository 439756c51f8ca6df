import TemplateGrammar.Proofs.Expansion.Cost
import TemplateGrammar.Proofs.Rules.Built
import TemplateGrammar.Proofs.Rules.Ranks

/-!
# What templates cost over rules without recursion

A reference, wherever it stands in a candidate, is among the references of the candidate
(`Node.Refers.throughout`).  So where rules have ranks, a candidate of a rule refers to rules of
smaller rank only, and a template that refers to rules of rank below `k` costs at most as much as it
nests itself, and for each of the `k` ranks once more as much as a candidate can nest
(`costs_of_ranks`).
-/

namespace TemplateGrammar

namespace Node

variable {σ : Type}

theorem mem_listMentions {nodes : List (Node σ)} {n : Node σ} (hn : n ∈ nodes) {m : Mention}
    (h : m ∈ n.mentions) : m ∈ listMentions nodes := by
  induction nodes with
  | nil => cases hn
  | cons n' rest ih =>
    rw [listMentions]
    rcases List.mem_cons.mp hn with rfl | hn
    · exact List.mem_append_right _ h
    · exact List.mem_append_left _ (ih hn)

theorem mem_valueMentions {values : List (List (Node σ))} {v : List (Node σ)}
    (hv : v ∈ values) {m : Mention} (h : m ∈ listMentions v) : m ∈ valueMentions values := by
  induction values with
  | nil => cases hv
  | cons v' rest ih =>
    rw [valueMentions]
    rcases List.mem_cons.mp hv with rfl | hv
    · exact List.mem_append_right _ h
    · exact List.mem_append_left _ (ih hv)

theorem mem_modifierMentions {mods : List (Modifier σ)} {v : List (Node σ)}
    (hv : v ∈ mods.flatMap Modifier.parameters) {m : Mention} (h : m ∈ listMentions v) :
    m ∈ modifierMentions mods := by
  induction mods with
  | nil => cases hv
  | cons mod rest ih =>
    obtain ⟨name, parameters⟩ := mod
    rw [modifierMentions]
    rcases List.mem_append.mp hv with hv | hv
    · exact List.mem_append_right _ (mem_valueMentions hv h)
    · exact List.mem_append_left _ (ih hv)

theorem mem_mentions_of_part {n : Node σ} {part : List (Node σ)} (hp : part ∈ n.parts) {m : Mention}
    (h : m ∈ listMentions part) : m ∈ n.mentions := by
  cases n with
  | text s => cases hp
  | weight k => cases hp
  | rule name mods => exact List.mem_append_right _ (mem_modifierMentions hp h)
  | tag name values => exact List.mem_cons_of_mem _ (mem_valueMentions hp h)
  | define name values => exact List.mem_cons_of_mem _ (mem_valueMentions hp h)
  | choice site values mods =>
    rcases List.mem_append.mp hp with hp | hp
    · exact List.mem_append_right _ (mem_valueMentions hp h)
    · exact List.mem_append_left _ (mem_modifierMentions hp h)
  | ifBlock c yes no =>
    obtain ⟨left, op, right⟩ := c
    simp only [parts, List.mem_cons, Option.mem_toList] at hp
    simp only [mentions, conditionMentions, List.mem_append]
    rcases hp with rfl | rfl | rfl | hno
    · exact .inr (.inr h)
    · exact .inr (.inl h)
    · exact .inl (.inr h)
    · obtain rfl : no = some part := hno
      exact .inl (.inl h)
  | whileBlock c body =>
    obtain ⟨left, op, right⟩ := c
    simp only [parts, List.mem_cons, List.not_mem_nil, or_false] at hp
    simp only [mentions, conditionMentions, List.mem_append]
    rcases hp with rfl | rfl | rfl
    · exact .inr (.inr h)
    · exact .inr (.inl h)
    · exact .inl h

theorem mem_references_iff {nodes : List (Node σ)} {name : String} :
    name ∈ references nodes ↔ .reference name ∈ listMentions nodes := by
  unfold references
  rw [List.mem_filterMap]
  constructor
  · rintro ⟨m, hm, he⟩
    cases m with
    | reference name' =>
      obtain rfl := Option.some.inj he
      exact hm
    | _ => cases he
  · exact fun h => ⟨_, h, rfl⟩

/-- If the node refers to a rule by name, the name is a good one. -/
def Refers (good : String → Prop) : Node σ → Prop
  | rule name _ => name = "" ∨ good name
  | _ => True

/-- **Every reference in a tree** is among the references of the tree. -/
theorem Refers.throughout {good : String → Prop} {nodes : List (Node σ)} (hall : AllTame nodes)
    (h : ∀ name ∈ references nodes, good name) :
    Throughout (fun nodes => ∀ n ∈ nodes, n.Tame ∧ n.Refers good) nodes := by
  induction hall with
  | @intro nodes here _ ih =>
    refine .intro (fun n hn => ⟨here n hn, ?_⟩) fun n hn part hpart =>
      ih n hn part hpart fun name hname => ?_
    · cases n with
      | rule name mods =>
        by_cases hname : name = ""
        · exact .inl hname
        · refine .inr (h name (mem_references_iff.mpr (mem_listMentions hn ?_)))
          rw [mentions, if_neg hname]
          exact List.mem_cons_self
      | _ => trivial
    · refine h name (mem_references_iff.mpr ?_)
      exact mem_listMentions hn (mem_mentions_of_part hpart (mem_references_iff.mp hname))

end Node

namespace RuleTable

variable {H : Type} {t : RuleTable H}

/-- No candidate has a loop or a definition of a rule of the run in it. -/
def AllTame (t : RuleTable H) : Prop :=
  ∀ name ∈ t.names, ∀ c ∈ t.candidates name, Node.AllTame c.nodes

theorem AllTame.of_get? (h : t.AllTame) {name : String} {rule : Rule H}
    (hr : t.get? name = some rule) {c : Candidate} (hc : c ∈ rule.candidates) :
    Node.AllTame c.nodes := by
  refine h name (mem_names_of_get? hr) c ?_
  rw [candidates, hr]
  exact hc

/-- The name is no rule, or one of a rank below `k`. -/
def RanksBelow (t : RuleTable H) (rank : String → Nat) (k : Nat) (name : String) : Prop :=
  t.contains name = true → rank name < k

/-- The ranks of rules: those a rule refers to have smaller ones. -/
def Ranked (t : RuleTable H) (rank : String → Nat) : Prop :=
  ∀ name rule, t.get? name = some rule → ∀ c ∈ rule.candidates, ∀ r ∈ Node.references c.nodes,
    t.RanksBelow rank (rank name) r

/-- **What a template costs over ranked rules.**  It refers to rules of rank below `k`, and each
rank adds what a candidate of it can nest. -/
theorem costs_of_ranks (hs : t.Sound) (ht : t.AllTame) {rank : String → Nat}
    (hr : t.Ranked rank) (k d : Nat) (hd : d ≤ maxNesting) {nodes : List (Node BagId)}
    (hn : Node.NestsWithin d nodes) (hall : Node.Throughout (fun nodes => ∀ n ∈ nodes, n.Tame ∧
      n.Refers (t.RanksBelow rank k)) nodes) :
    Costs t.rules (d + maxNesting * k) nodes := by
  -- the ranks go down where a candidate takes the place of a reference, and the nesting goes down
  -- elsewhere
  induction k using Nat.strongRecOn generalizing d nodes with
  | _ k ihk =>
    induction d generalizing nodes with
    | zero => exact costs_leaves hn _
    | succ d ihd =>
      rw [Nat.add_right_comm]
      intro n hmem
      obtain ⟨htame, hrefers⟩ := hall.here n hmem
      refine ⟨htame, fun part hpart => ?_, ?_⟩
      · exact ihd (by omega) (hn n hmem part hpart) (hall.inside n hmem part hpart)
      · rintro name mods rfl rule hrule candidate hc
        have hget : t.get? name = some rule := hrule
        obtain ⟨hname, hshallow⟩ := hs name rule hget
        have hcontains : t.contains name = true := mem_names_iff.mp (mem_names_of_get? hget)
        have hless : rank name < k := (hrefers.resolve_left hname) hcontains
        have hbelow := Node.Refers.throughout (ht.of_get? hget hc) (hr name rule hget candidate hc)
        have hcost := ihk (rank name) hless maxNesting (Nat.le_refl _)
          (hshallow candidate hc) hbelow
        have hroom : maxNesting * (rank name + 1) ≤ maxNesting * k := Nat.mul_le_mul_left _ hless
        rw [Nat.mul_add, Nat.mul_one] at hroom
        exact hcost.mono (by omega)

end RuleTable

end TemplateGrammar
