import TemplateGrammar.Proofs.Expansion.Errors
import TemplateGrammar.Proofs.Template.Nesting

/-!
# What an expansion costs

`Costs rules c nodes` says that the nodes, and whatever they can come to stand for, lie at most `c`
deep in one another: parts count one, and so do the candidates of a rule that is referred to.  It is
said of templates without loops and without rules of the run, which have no such bound.

What costs `c` is expanded within `c` levels and `2 * c` frames (`succeeds_nodeList`): a construct
goes at most one level deeper, and puts at most two frames on the stack for each of its parts, its
own and one for the part.
-/

namespace TemplateGrammar

/-- The node itself is neither a loop nor a definition of a rule of the run. -/
def Node.Tame {σ : Type} : Node σ → Prop
  | .define _ _ | .whileBlock _ _ => False
  | _ => True

instance {σ : Type} : DecidablePred (Node.Tame : Node σ → Prop)
  | .define _ _ | .whileBlock _ _ => inferInstanceAs (Decidable False)
  | .text _ | .weight _ | .rule _ _ | .tag _ _ | .choice _ _ _ | .ifBlock _ _ _ =>
    inferInstanceAs (Decidable True)

/-- Nowhere in the nodes is there a loop or a definition of a rule of the run. -/
def Node.AllTame {σ : Type} (nodes : List (Node σ)) : Prop :=
  Node.Throughout (fun nodes => ∀ n ∈ nodes, n.Tame) nodes

/-- **What nodes cost:** how deep they and what they can stand for lie in one another. -/
def Costs {H : Type} (rules : Dict (Rule H)) : Nat → List (Node BagId) → Prop
  | 0, nodes => ∀ n ∈ nodes, n.isLeaf = true
  | c + 1, nodes => ∀ n ∈ nodes, n.Tame ∧ (∀ part ∈ n.parts, Costs rules c part) ∧
      ∀ name mods, n = .rule name mods → ∀ rule, rules[name]? = some rule →
        ∀ candidate ∈ rule.candidates, Costs rules c candidate.nodes

section Costs

variable {H : Type} {rules : Dict (Rule H)} {c : Nat}

theorem Costs.succ {nodes : List (Node BagId)} (h : Costs rules c nodes) :
    Costs rules (c + 1) nodes := by
  induction c generalizing nodes with
  | zero =>
    intro n hn
    have hleaf := h n hn
    refine ⟨?_, ?_, ?_⟩
    · cases n <;> simp [Node.isLeaf] at hleaf <;> trivial
    · rw [Node.parts_of_isLeaf hleaf]
      simp
    · rintro name mods rfl
      cases hleaf
  | succ c ih =>
    intro n hn
    obtain ⟨htame, hparts, hrule⟩ := h n hn
    exact ⟨htame, fun part hp => ih (hparts part hp), fun name mods he rule hr candidate hc =>
      ih (hrule name mods he rule hr candidate hc)⟩

theorem Costs.mono {nodes : List (Node BagId)} (h : Costs rules c nodes) {c' : Nat} (hc : c ≤ c') :
    Costs rules c' nodes := by
  induction hc with
  | refl => exact h
  | step _ ih => exact ih.succ

theorem costs_leaves {nodes : List (Node BagId)} (h : ∀ n ∈ nodes, n.isLeaf = true) (c : Nat) :
    Costs rules c nodes := by
  have h0 : Costs rules 0 nodes := h
  exact h0.mono (Nat.zero_le c)

theorem costs_text (text : String) (c : Nat) : Costs rules c [.text text] :=
  costs_leaves (fun n hn => by rw [List.mem_singleton.mp hn]; rfl) c

/-- The candidates of a rule cost less than a reference to it. -/
theorem Costs.candidates {name : String} {mods : List (Modifier BagId)}
    (h : Costs rules c [.rule name mods]) {rule : Rule H} (hr : rules[name]? = some rule)
    {candidate : Candidate} (hc : candidate ∈ rule.candidates) :
    Costs rules c candidate.nodes := by
  cases c with
  | zero => cases h _ List.mem_cons_self
  | succ c => exact ((h _ List.mem_cons_self).2.2 name mods rfl rule hr candidate hc).succ

end Costs

/-! ### What leaves the rules of the run alone -/

namespace World

variable {H : Type}

@[simp] theorem runtime_sayAll (w : World H) (ns : List Notice) :
    (w.sayAll ns).runtime = w.runtime := by
  induction ns generalizing w with
  | nil => rfl
  | cons n ns ih => exact ih (w.say n)

@[simp] theorem runtime_setTag (w : World H) (level : Nat) (name : String) (values : List String)
    (s : Selector H) : (w.setTag level name values s).runtime = w.runtime := by
  unfold setTag
  split <;> rfl

@[simp] theorem runtime_resolveRule (w : World H) (chooser : Chooser) (rule : Rule H) :
    (w.resolveRule chooser rule).2.runtime = w.runtime := by
  unfold resolveRule
  dsimp only
  split <;> rfl

@[simp] theorem runtime_resolve (s : Setting H) (level : Nat) (name : String) (w : World H) :
    (w.resolve s level name).2.runtime = w.runtime := by
  unfold resolve
  split
  · rfl
  · split
    · dsimp only
      split <;> rfl
    · split
      · rfl
      · split
        · exact runtime_resolveRule _ _ _
        · split
          · exact runtime_resolveRule _ _ _
          · rfl

end World

variable {H : Type} {s : Setting H} {c : Nat}

theorem costs_resolveRule {w : World H} {chooser : Chooser} {rule : Rule H}
    (hr : ∀ candidate ∈ rule.candidates, Costs s.rules c candidate.nodes)
    {nodes : List (Node BagId)} {deepens : Bool} {w' : World H}
    (h : w.resolveRule chooser rule = (.nodes nodes deepens, w')) : Costs s.rules c nodes := by
  unfold World.resolveRule at h
  dsimp only at h
  split at h
  · rename_i candidate hget
    obtain ⟨rfl, -⟩ := Resolution.nodes.inj (Prod.mk.inj h).1
    exact hr candidate (List.mem_of_getElem? hget)
  · cases (Prod.mk.inj h).1

/-- **Where no rule of the run is defined,** a name stands for a text or for a candidate of its
rule. -/
theorem costs_resolve {w : World H} (hw : w.runtime = ∅) {level : Nat} {name : String}
    (hr : ∀ rule, s.rules[name]? = some rule →
      ∀ candidate ∈ rule.candidates, Costs s.rules c candidate.nodes)
    {nodes : List (Node BagId)} {deepens : Bool} {w' : World H}
    (h : w.resolve s level name = (.nodes nodes deepens, w')) : Costs s.rules c nodes := by
  have htext : ∀ text {d d' : Bool} {v v' : World H}, (Resolution.nodes [.text text] d, v) =
      (.nodes nodes d', v') → Costs s.rules c nodes := by
    intro text d d' v v' he
    obtain ⟨rfl, -⟩ := Resolution.nodes.inj (Prod.mk.inj he).1
    exact costs_text text c
  unfold World.resolve at h
  rw [hw] at h
  split at h
  · exact htext _ h
  · split at h
    · dsimp only at h
      split at h
      · exact htext _ h
      · cases (Prod.mk.inj h).1
    · split at h
      · exact htext _ h
      · rw [Std.ExtTreeMap.getElem?_empty] at h
        dsimp only at h
        split at h
        · rename_i rule hrule
          exact costs_resolveRule (hr rule hrule) h
        · cases (Prod.mk.inj h).1

/-- The operands of a condition are its sides, texts, or candidates of the rule its right side
refers to. -/
theorem costs_operands {w : World H} (hw : w.runtime = ∅) (level : Nat)
    {condition : Condition BagId} (hl : Costs s.rules c condition.left)
    (hr : Costs s.rules c condition.right) :
    ∀ v ∈ condition.operands s level w, Costs s.rules c v := by
  intro v hv
  rcases List.mem_cons.mp hv with rfl | hv
  · exact hl
  · have htexts : ∀ {texts : List String}, v ∈ texts.map (fun text => [Node.text text]) →
        Costs s.rules c v := by
      intro texts h
      obtain ⟨text, -, rfl⟩ := List.mem_map.mp h
      exact costs_text text c
    have hcandidates : ∀ {name mods rule}, condition.right = [.rule name mods] →
        s.rules[name]? = some rule →
        v ∈ rule.candidates.map Candidate.nodes → Costs s.rules c v := by
      intro name mods rule hright hrule h
      obtain ⟨candidate, hcandidate, rfl⟩ := List.mem_map.mp h
      rw [hright] at hr
      exact hr.candidates hrule hcandidate
    have hsame : v ∈ [condition.right] → Costs s.rules c v := fun h => List.mem_singleton.mp h ▸ hr
    simp only [Condition.rightOperands, hw, Std.ExtTreeMap.getElem?_empty, Option.none_or] at hv
    split at hv
    -- a membership test and its denial take the same operands
    iterate 2
      · rename_i hright
        split at hv
        · exact htexts hv
        · split at hv
          · rename_i hrule
            exact hcandidates hright hrule hv
          · exact hsame hv
    · exact hsame hv

namespace Direct

variable {α β : Type}

/-- There is a result, and still no rule of the run is defined. -/
def Succeeds (x : Expanded α H) : Prop :=
  ∃ a w, x = (.ok a, w) ∧ w.runtime = ∅

theorem succeeds_ok (a : α) {w : World H} (h : w.runtime = ∅) : Succeeds (.ok a, w) :=
  ⟨a, w, rfl, h⟩

theorem Succeeds.andThen {x : Expanded α H} {f : α → World H → Expanded β H} (hx : Succeeds x)
    (hf : ∀ a w, x = (.ok a, w) → w.runtime = ∅ → Succeeds (f a w)) :
    Succeeds (Direct.andThen x f) := by
  obtain ⟨a, w, rfl, hw⟩ := hx
  exact hf a w rfl hw

/-- What the parts of a task cost. -/
def TaskCosts (rules : Dict (Rule H)) (c : Nat) : Task → Prop
  | .nodes nodes mods => Costs rules c nodes ∧ ∀ v ∈ mods.flatMap Modifier.parameters,
    Costs rules c v
  | .tag _ values _ => ∀ v ∈ values, Costs rules c v
  | .condition operands op yes no => op.Accepts operands.length ∧
    (∀ v ∈ operands, Costs rules c v) ∧
      Costs rules c yes ∧ ∀ nodes ∈ no, Costs rules c nodes

section Part

variable (hc : ∀ nodes free level w, Costs s.rules c nodes → 2 * c ≤ free → level + c ≤ s.maxLevel →
  w.runtime = ∅ → Succeeds (nodeList s (enter s free) level nodes w))

include hc

theorem succeeds_enter_part {nodes : List (Node BagId)} (hn : Costs s.rules c nodes)
    {free level : Nat} (hfree : 2 * c + 1 ≤ free) (hlevel : level + c ≤ s.maxLevel) {w : World H}
    (hw : w.runtime = ∅) :
    Succeeds (enter s free level false (.nodes nodes []) w) := by
  cases free with
  | zero => omega
  | succ free =>
    have hnodes := hc nodes free level w hn (by omega) hlevel hw
    exact hnodes.andThen fun text w' _ hw' => succeeds_ok text hw'

theorem succeeds_arguments {values : List (List (Node BagId))}
    (hv : ∀ v ∈ values, Costs s.rules c v) {free level : Nat} (hfree : 2 * c + 1 ≤ free)
    (hlevel : level + c ≤ s.maxLevel) {w : World H} (hw : w.runtime = ∅) :
    Succeeds (arguments (enter s free) level values w) := by
  induction values generalizing w with
  | nil => exact succeeds_ok [] hw
  | cons v more ih =>
    have hfirst := succeeds_enter_part hc (hv v List.mem_cons_self) hfree hlevel hw
    refine hfirst.andThen fun text w' _ hw' => ?_
    have hmore := ih (fun u hu => hv u (List.mem_cons_of_mem v hu)) hw'
    exact hmore.andThen fun texts w'' _ hw'' => succeeds_ok (text :: texts) hw''

theorem succeeds_branch {op : Comparison} {yes : List (Node BagId)}
    {no : Option (List (Node BagId))} (hy : Costs s.rules c yes)
    (hn : ∀ nodes ∈ no, Costs s.rules c nodes) {texts : List String}
    (ha : op.Accepts texts.length) {free level : Nat} (hfree : 2 * c + 1 ≤ free)
    (hlevel : level + c ≤ s.maxLevel) {w : World H} (hw : w.runtime = ∅) :
    Succeeds (branch (enter s free) level op yes no texts w) := by
  obtain ⟨holds, hh⟩ := Option.isSome_iff_exists.mp ((op.isSome_holds?_iff texts).mpr ha)
  rw [branch, hh]
  cases holds with
  | true => exact succeeds_enter_part hc hy hfree hlevel hw
  | false =>
    cases no with
    | some nodes => exact succeeds_enter_part hc (hn nodes rfl) hfree hlevel hw
    | none => exact succeeds_ok "" hw

theorem succeeds_modify {mods : List (Modifier BagId)}
    (hm : ∀ v ∈ mods.flatMap Modifier.parameters, Costs s.rules c v) (text : String)
    {free level : Nat} (hfree : 2 * c + 1 ≤ free) (hlevel : level + c ≤ s.maxLevel) {w : World H}
    (hw : w.runtime = ∅) :
    Succeeds (modify s (enter s free) level mods text w) := by
  induction mods generalizing text w with
  | nil => exact succeeds_ok text hw
  | cons mod more ih =>
    have hmod : ∀ v ∈ mod.parameters, Costs s.rules c v :=
      fun v hv => hm v (List.mem_append_left _ hv)
    have hmore : ∀ v ∈ more.flatMap Modifier.parameters, Costs s.rules c v := fun v hv =>
      hm v (List.mem_append_right mod.parameters hv)
    rw [modify]
    split
    · exact ih hmore text hw
    · rename_i method _
      refine (succeeds_arguments hc hmod hfree hlevel hw).andThen fun args w' _ hw' => ?_
      exact ih hmore _ hw'

theorem succeeds_perform {t : Task} (ht : TaskCosts s.rules c t) {free level : Nat}
    (hfree : 2 * c + 1 ≤ free) (hlevel : level + c ≤ s.maxLevel) {w : World H}
    (hw : w.runtime = ∅) :
    Succeeds (perform s (enter s free) level t w) := by
  cases t with
  | nodes nodes mods =>
    have hnodes := hc nodes free level w ht.1 (by omega) hlevel hw
    exact hnodes.andThen fun text w' _ hw' => succeeds_modify hc ht.2 text hfree hlevel hw'
  | tag name values site =>
    refine (succeeds_arguments hc ht hfree hlevel hw).andThen fun texts w' _ hw' => ?_
    exact succeeds_ok "" ((World.runtime_setTag _ _ _ _ _).trans hw')
  | condition operands op yes no =>
    obtain ⟨haccepts, hoperands, hyes, hno⟩ := ht
    refine (succeeds_arguments hc hoperands hfree hlevel hw).andThen fun texts w' hx hw' => ?_
    have ha : op.Accepts texts.length := by rwa [length_of_arguments hx]
    exact succeeds_branch hc hyes hno ha hfree hlevel hw'

/-- A task is entered with one frame, and one level if it goes deeper. -/
theorem succeeds_enter {t : Task} (ht : TaskCosts s.rules c t) {free level : Nat}
    (hfree : 2 * c + 2 ≤ free) (hlevel : level + 1 + c ≤ s.maxLevel) (deepens : Bool) {w : World H}
    (hw : w.runtime = ∅) :
    Succeeds (enter s free level deepens t w) := by
  cases free with
  | zero => omega
  | succ free =>
    cases deepens with
    | false => exact succeeds_perform hc ht (by omega) (by omega) hw
    | true =>
      have hroom : ¬s.maxLevel < level + 1 := by omega
      rw [enter, if_neg hroom]
      have hframes : 2 * c + 1 ≤ free := by omega
      have hperform := succeeds_perform hc ht hframes hlevel hw
      exact hperform.andThen fun text w' _ hw' => succeeds_ok text hw'

theorem succeeds_node {n : Node BagId} (hn : Costs s.rules (c + 1) [n]) {free level : Nat}
    (hfree : 2 * (c + 1) ≤ free) (hlevel : level + (c + 1) ≤ s.maxLevel) {w : World H}
    (hw : w.runtime = ∅) :
    Succeeds (node s (enter s free) level n w) := by
  obtain ⟨htame, hparts, hrule⟩ := hn n List.mem_cons_self
  have hfree' : 2 * c + 2 ≤ free := by omega
  have hlevel' : level + 1 + c ≤ s.maxLevel := by omega
  cases n with
  | text text => exact succeeds_ok text hw
  | weight k => exact succeeds_ok "" hw
  | rule name mods =>
    have hruntime := World.runtime_resolve s level name w
    rw [node]
    split
    · rename_i nodes deepens w' hresolve
      rw [hresolve] at hruntime
      have hnodes : Costs s.rules c nodes := costs_resolve hw (hrule name mods rfl) hresolve
      have hw' : (Machine.sayUnknown s mods w').runtime = ∅ :=
        (World.runtime_sayAll _ _).trans (hruntime.trans hw)
      exact succeeds_enter hc (t := .nodes nodes mods) ⟨hnodes, hparts⟩ hfree' hlevel' deepens hw'
    · rename_i obstacle w' hresolve
      rw [hresolve] at hruntime
      exact succeeds_ok _ (hruntime.trans hw)
  | choice site values mods =>
    rw [node]
    dsimp only
    split
    · rename_i nodes hget
      have hnodes : Costs s.rules c nodes :=
        hparts nodes (List.mem_append_left _ (List.mem_of_getElem? hget))
      have hmods : ∀ v ∈ mods.flatMap Modifier.parameters, Costs s.rules c v := fun v hv =>
        hparts v (List.mem_append_right _ hv)
      exact succeeds_enter hc (t := .nodes nodes mods) ⟨hnodes, hmods⟩ hfree' hlevel' false
        ((World.runtime_sayAll _ _).trans hw)
    · exact succeeds_ok "" hw
  | tag name values =>
    exact succeeds_enter hc (t := .tag name values _) hparts hfree' hlevel' false hw
  | define name values => exact htame.elim
  | ifBlock condition yes no =>
    have hl := hparts condition.left (by simp [Node.parts])
    have hr := hparts condition.right (by simp [Node.parts])
    have hy := hparts yes (by simp [Node.parts])
    have hno : ∀ nodes ∈ no, Costs s.rules c nodes := by
      rintro nodes hn
      obtain rfl : no = some nodes := hn
      exact hparts nodes (by simp [Node.parts])
    have hoperands := costs_operands hw level hl hr
    exact succeeds_enter hc (t := .condition _ _ yes no)
      ⟨condition.accepts_operands s level w, hoperands, hy, hno⟩ hfree' hlevel' false hw
  | whileBlock condition body => exact htame.elim

end Part

/-- **What costs `c` is expanded within `c` levels and `2 * c` frames.** -/
theorem succeeds_nodeList (c : Nat) : ∀ nodes free level w, Costs s.rules c nodes → 2 * c ≤ free →
    level + c ≤ s.maxLevel → w.runtime = ∅ →
    Succeeds (nodeList s (enter s free) level nodes w) := by
  induction c with
  | zero =>
    intro nodes free level w hn hfree hlevel hw
    induction nodes generalizing w with
    | nil => exact succeeds_ok "" hw
    | cons n rest ih =>
      have hleaf : n.isLeaf = true := hn n List.mem_cons_self
      have hnode : Succeeds (node s (enter s free) level n w) := by
        cases n with
        | text text => exact succeeds_ok text hw
        | weight k => exact succeeds_ok "" hw
        | _ => cases hleaf
      refine hnode.andThen fun text w' _ hw' => ?_
      have hrest := ih w' (fun m hm => hn m (List.mem_cons_of_mem n hm)) hw'
      exact hrest.andThen fun more w'' _ hw'' => succeeds_ok (text ++ more) hw''
  | succ c ih =>
    intro nodes free level w hn hfree hlevel hw
    induction nodes generalizing w with
    | nil => exact succeeds_ok "" hw
    | cons n rest ihrest =>
      have hone : Costs s.rules (c + 1) [n] := fun m hm => hn m (by simp_all)
      refine (succeeds_node ih hone hfree hlevel hw).andThen fun text w' _ hw' => ?_
      have hrest := ihrest w' (fun m hm => hn m (List.mem_cons_of_mem n hm)) hw'
      exact hrest.andThen fun more w'' _ hw'' => succeeds_ok (text ++ more) hw''

/-- **An expansion ends with a text** where the limits leave room for what its template costs. -/
theorem succeeds_expand {nodes : List (Node BagId)} (hn : Costs s.rules c nodes)
    (hlevel : 1 + c ≤ s.maxLevel) (hframes : 1 + 2 * c ≤ s.maxFrames) {w : World H}
    (hw : w.runtime = ∅) : Succeeds (expand s nodes w) := by
  rw [expand]
  split
  · omega
  · rename_i free hfree
    have hpositive : ¬s.maxLevel = 0 := by omega
    rw [if_neg hpositive]
    have hnodes := succeeds_nodeList c nodes free 1 (w.leave 1) hn (by omega) hlevel hw
    exact hnodes.andThen fun text w' _ hw' => succeeds_ok text hw'

end Direct

end TemplateGrammar
