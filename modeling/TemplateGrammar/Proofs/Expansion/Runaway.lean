import TemplateGrammar.Proofs.Expansion.Kept
import TemplateGrammar.Proofs.Rules.Built
import TemplateGrammar.Proofs.Rules.Ranks

/-!
# Rules that run away

Rules run away if every candidate of each refers to one of them again (`RuleTable.Runaway`).  There
is no finite expansion of such a rule, so with so many frames as there are, an expansion comes to an
error.

Two things could still stop it.  A tag or a rule of the run could stand in front of a rule of the
table; but none does, because no candidate sets a tag or defines a rule.  And a selector could
answer with an index out of range, so that no candidate is chosen.  The journal tells: such a pick
is a miss, and misses are counted (`Journal.misses`).  A world that is bare and has so many misses
is kept by every operation (`Setting.RunsAway.kept`), and what refers to a rule of the table comes
to a text only past one miss more (`astray_enter`, by induction on the free frames).
-/

namespace TemplateGrammar

variable {H : Type}

/-! ### Rules -/

/-- The node itself neither sets a tag nor defines a rule of the run. -/
def Node.Plain {σ : Type} : Node σ → Prop
  | .tag _ _ | .define _ _ => False
  | _ => True

instance {σ : Type} : DecidablePred (Node.Plain : Node σ → Prop)
  | .tag _ _ | .define _ _ => inferInstanceAs (Decidable False)
  | .text _ | .weight _ | .rule _ _ | .choice _ _ _ | .ifBlock _ _ _ | .whileBlock _ _ =>
    inferInstanceAs (Decidable True)

namespace RuleTable

variable {t : RuleTable H}

/-- The node is a reference to a rule of the table. -/
def LeadsTo (t : RuleTable H) : Node BagId → Prop
  | .rule name _ => t.contains name = true
  | _ => False

instance (t : RuleTable H) : DecidablePred t.LeadsTo
  | .rule name _ => inferInstanceAs (Decidable (t.contains name = true))
  | .text _ | .weight _ | .tag _ _ | .define _ _ | .choice _ _ _ | .ifBlock _ _ _
    | .whileBlock _ _ =>
    inferInstanceAs (Decidable False)

/-- **Rules that run away:** nowhere in their candidates is a tag set or a rule of the run defined,
and each candidate has a reference to a rule of the table among its nodes. -/
structure Runaway (t : RuleTable H) : Prop where
  plain : ∀ name ∈ t.names, ∀ c ∈ t.candidates name, Node.Every Node.Plain c.nodes
  onward : ∀ name ∈ t.names, ∀ c ∈ t.candidates name, ∃ n ∈ c.nodes, t.LeadsTo n

theorem mem_candidates {name : String} {rule : Rule H} (hget : t.get? name = some rule)
    {c : Candidate} (hc : c ∈ rule.candidates) : c ∈ t.candidates name := by
  rw [candidates, hget]
  exact hc

end RuleTable

/-! ### Misses -/

/-- The entry is a pick for a rule of the table that is out of range. -/
def Entry.isMiss : Entry → Bool
  | .pick (.rule _) count index => decide (count ≤ index)
  | _ => false

/-- How often a pick for a rule of the table was out of range. -/
def Journal.misses (j : Journal) : Nat :=
  j.countP Entry.isMiss

/-- **A bare world:** no tag is set and no rule of the run defined, and there have been as many
misses, or more. -/
structure World.Bare (k : Nat) (w : World H) : Prop where
  tags : w.tags.All fun _ => False
  runtime : w.runtime = ∅
  missed : k ≤ w.journal.misses

namespace World.Bare

variable {k : Nat} {w w' : World H}

theorem of_suffix (h : w.Bare k) (htags : w'.tags = w.tags) (hruntime : w'.runtime = w.runtime)
    (hj : w.journal <:+ w'.journal) : w'.Bare k := by
  refine ⟨htags ▸ h.tags, hruntime.trans h.runtime, ?_⟩
  exact Nat.le_trans h.missed (List.Sublist.countP_le hj.sublist)

theorem get?_tags (h : w.Bare k) (level : Nat) (name : String) : w.tags.get? level name = none :=
  Option.eq_none_iff_forall_not_mem.mpr (h.tags level name)

theorem pick (h : w.Bare k) (chooser : Chooser) (selector : Selector H) (count : Nat) :
    (w.pick chooser selector count).2.Bare k :=
  h.of_suffix rfl rfl (List.suffix_cons _ _)

/-- **A pick that is out of range** is one miss more. -/
theorem pick_miss (h : w.Bare k) {name : String} {selector : Selector H} {count : Nat}
    (hmiss : count ≤ (w.pick (.rule name) selector count).1) :
    (w.pick (.rule name) selector count).2.Bare (k + 1) := by
  refine ⟨h.tags, h.runtime, ?_⟩
  have hcount : (w.pick (.rule name) selector count).2.journal.misses = w.journal.misses + 1 :=
    List.countP_cons_of_pos (decide_eq_true hmiss)
  have := h.missed
  omega

end World.Bare

/-! ### Expansions -/

/-- **A setting whose rules run away:** they are those of a table that does, none of them without a
name, and nothing that a host gives stands in front of them. -/
structure Setting.RunsAway (s : Setting H) (t : RuleTable H) : Prop where
  rules : s.rules = t.rules
  objects : s.objects = ∅
  named : t.contains "" = false
  away : t.Runaway

variable {s : Setting H} {t : RuleTable H} (h : s.RunsAway t) {k : Nat} {w : World H}

namespace Setting.RunsAway

include h

/-- **What is bare stays bare,** as long as nodes are plain. -/
theorem kept (k : Nat) : World.Kept s Node.Plain (World.Bare k) where
  text _ := trivial
  say n hw := hw.of_suffix rfl rfl (List.suffix_cons _ _)
  freshBag hw := hw.of_suffix rfl rfl List.suffix_rfl
  call _ _ _ _ hw := hw.of_suffix rfl rfl ((List.suffix_cons _ _).trans (List.suffix_cons _ _))
  leave _ hw := ⟨hw.tags.leave _, hw.runtime, hw.missed⟩
  readTag hw hget := absurd hget (by simp [hw.get?_tags])
  runtimeRule hw hget := by
    rw [hw.runtime] at hget
    simp at hget
  tableRule {w name rule} hw hget := by
    rw [h.rules] at hget
    refine ⟨hw.pick _ _ _, ?_⟩
    intro c hc
    exact h.away.plain name (RuleTable.mem_names_of_get? hget) c (RuleTable.mem_candidates hget hc)
  choice hw _ := hw.pick _ _ _
  setTag _ _ _ hgood _ := hgood.elim
  define _ hgood _ := hgood.elim

/-- **In a bare world a reference to a rule of the table is one,** and stands for a candidate of it,
or misses. -/
theorem resolve {name : String} (hname : t.contains name = true) (level : Nat) (hw : w.Bare k) :
    (∃ c w', w.resolve s level name = (.nodes c.nodes true, w') ∧ w'.Bare k ∧
      c ∈ t.candidates name) ∨
    (∃ obstacle w', w.resolve s level name = (.stuck obstacle, w') ∧ w'.Bare (k + 1)) := by
  have hne : name ≠ "" := by
    rintro rfl
    rw [h.named] at hname
    cases hname
  obtain ⟨rule, hrule⟩ : ∃ rule, t.rules[name]? = some rule := RuleTable.exists_get? hname
  have hobject : s.objects[name]? = none := by
    rw [h.objects]
    exact Std.ExtTreeMap.getElem?_empty
  have hruntime : w.runtime[name]? = none := by
    rw [hw.runtime]
    exact Std.ExtTreeMap.getElem?_empty
  have hresolve : w.resolve s level name = w.resolveRule (.rule name) rule := by
    unfold World.resolve
    rw [if_neg hne, hw.get?_tags, hobject, hruntime, h.rules, hrule]
  rw [hresolve]
  unfold World.resolveRule
  cases hget : rule.candidates[(w.pick (.rule name) rule.selector rule.candidates.length).1]? with
  | some c =>
    left
    refine ⟨c, (w.pick (.rule name) rule.selector rule.candidates.length).2, ?_, hw.pick _ _ _, ?_⟩
    · simp only [hget]
    · exact RuleTable.mem_candidates hrule (List.mem_of_getElem? hget)
  | none =>
    right
    refine ⟨.noCandidate, (w.pick (.rule name) rule.selector rule.candidates.length).2, ?_, ?_⟩
    · simp only [hget]
    · exact hw.pick_miss (List.getElem?_eq_none_iff.mp hget)

end Setting.RunsAway

namespace Direct

/-- It comes to a text only past one miss more. -/
def Astray (k : Nat) (x : Expanded String H) : Prop :=
  ∀ text, x.1 = .ok text → x.2.Bare (k + 1)

theorem astray_error (e : ExpansionError) (w : World H) : Astray k (.error e, w) := by
  intro text htext
  cases htext

theorem Astray.andThen {x : Expanded String H} {f : String → World H → Expanded String H}
    (hx : Astray k x) (hf : ∀ text w, w.Bare (k + 1) → Leaves (World.Bare (k + 1)) (f text w)) :
    Astray k (Direct.andThen x f) := by
  obtain ⟨result, w⟩ := x
  cases result with
  | ok text => exact fun out _ => hf text w (hx text rfl)
  | error e => exact astray_error e w

/-- Entering a frame with a reference to a rule of the table goes astray. -/
def EntersAstray (t : RuleTable H) (enter : Entrance H) : Prop :=
  ∀ k level deepens nodes mods w, 1 ≤ level → (Task.nodes nodes mods).Every Node.Plain 0 →
    (∃ n ∈ nodes, t.LeadsTo n) → World.Bare k w →
    Astray k (enter level deepens (.nodes nodes mods) w)

include h

section Entered

variable {entrance : Entrance H} {level : Nat} (he : EntersAstray t entrance) (hl : 1 ≤ level)
include he hl

theorem astray_node {n : Node BagId} (hn : Node.Every Node.Plain [n]) (hleads : t.LeadsTo n)
    (hw : w.Bare k) : Astray k (node s entrance level n w) := by
  cases n with
  | rule name mods =>
    have hmods : ∀ v ∈ mods.flatMap Modifier.parameters, Node.Every Node.Plain v := fun v hv =>
      hn.part List.mem_cons_self hv
    rcases h.resolve hleads level hw with ⟨c, w', hr, hw', hc⟩ | ⟨obstacle, w', hr, hw'⟩
    · have hname : name ∈ t.names := RuleTable.mem_names_iff.mpr hleads
      rw [node, hr]
      refine he k level true c.nodes mods _ hl ⟨h.away.plain name hname c hc, hmods⟩
        (h.away.onward name hname c hc) ?_
      exact (h.kept k).sayUnknown mods hw'
    · rw [node, hr]
      intro text _
      exact (h.kept (k + 1)).say _ hw'
  | _ => exact hleads.elim

variable (hkept : ∀ k, EntersKeeping Node.Plain (World.Bare k) entrance)
include hkept

theorem astray_nodeList {nodes : List (Node BagId)} (hn : Node.Every Node.Plain nodes)
    (hleads : ∃ n ∈ nodes, t.LeadsTo n) (hw : w.Bare k) :
    Astray k (nodeList s entrance level nodes w) := by
  induction nodes generalizing w with
  | nil =>
    obtain ⟨n, hmem, -⟩ := hleads
    cases hmem
  | cons n nodes ih =>
    have hfirst : Node.Every Node.Plain [n] := hn.single List.mem_cons_self
    rw [nodeList]
    obtain ⟨m, hmem, hm⟩ := hleads
    rcases List.mem_cons.mp hmem with rfl | hmem
    · -- what comes behind the reference keeps the miss
      refine (astray_node h he hl hfirst hm hw).andThen fun text w₁ hw₁ => ?_
      have hrest := (h.kept (k + 1)).nodeList (hkept (k + 1)) hl hn.tail (World.after_zero hw₁)
      exact hrest.property.andThen fun more w₂ hw₂ => hw₂
    · have hbefore := ((h.kept k).node (hkept k) hl hfirst (World.after_zero hw)).property
      rcases hx : node s entrance level n w with ⟨result, w₁⟩
      rw [hx] at hbefore
      cases result with
      | error e => exact astray_error e w₁
      | ok text => exact (ih hn.tail ⟨m, hmem, hm⟩ hbefore).andThen fun more w₂ hw₂ => hw₂

theorem astray_perform {nodes : List (Node BagId)} {mods : List (Modifier BagId)}
    (hn : (Task.nodes nodes mods).Every Node.Plain 0) (hleads : ∃ n ∈ nodes, t.LeadsTo n)
    (hw : w.Bare k) :
    Astray k (perform s entrance level (.nodes nodes mods) w) := by
  refine (astray_nodeList h he hl hkept hn.1 hleads hw).andThen fun text w₁ hw₁ => ?_
  exact ((h.kept (k + 1)).modify (hkept (k + 1)) hl hn.2 text (World.after_zero hw₁)).property

end Entered

/-- **Frames with a reference to a rule of the table go astray,** however many frames are free. -/
theorem astray_enter (free : Nat) : EntersAstray t (enter s free) := by
  induction free with
  | zero => exact fun k level deepens nodes mods w _ _ _ _ => astray_error _ _
  | succ free ih =>
    have hkept : ∀ k, EntersKeeping Node.Plain (World.Bare k) (enter s free) :=
      fun k => (h.kept k).enter free
    intro k level deepens nodes mods w hl hn hleads hw
    cases deepens with
    | false => exact astray_perform h ih hl hkept hn hleads hw
    | true =>
      rw [enter]
      split
      · exact astray_error _ _
      · have hbody := astray_perform h ih (Nat.le_succ_of_le hl) hkept hn hleads hw
        exact hbody.andThen fun text w₁ hw₁ => (h.kept (k + 1)).leave hl hw₁

/-- **An expansion that refers to a rule of the table** comes to a text only past a miss. -/
theorem astray_expand {nodes : List (Node BagId)} (hn : Node.Every Node.Plain nodes)
    (hleads : ∃ n ∈ nodes, t.LeadsTo n) (hw : w.Bare k) : Astray k (expand s nodes w) := by
  unfold expand
  split
  · exact astray_error _ _
  · rename_i free _
    split
    · exact astray_error _ _
    · have hkept : ∀ k, EntersKeeping Node.Plain (World.Bare k) (enter s free) :=
        fun k => (h.kept k).enter free
      have hfrom : (w.leave 1).Bare k := (h.kept k).leave (Nat.le_refl 1) hw
      exact astray_perform h (astray_enter h free) (Nat.le_refl 1) hkept ⟨hn, by simp⟩ hleads hfrom

end Direct

end TemplateGrammar
