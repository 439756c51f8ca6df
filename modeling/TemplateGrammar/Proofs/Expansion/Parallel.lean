import TemplateGrammar.Expansion.Direct
import TemplateGrammar.Proofs.Template.Every

/-!
# Expansions in two worlds

Expansions of the same nodes in two worlds go the same way, as long as the worlds are related, and
every operation answers the same for related worlds and leaves them related.  On what an operation
is used may matter, and on which level: so with the relation goes what is good on a level, and of
this it holds that it holds of every node that comes to be expanded there.

`World.Parallel` says so for one operation after the other.  It is carried through the evaluator
function by function, with induction over lists of values, nodes and modifiers, and over the number
of free frames, up to expansions (`Parallel.expand`).  A relation that takes nodes as they come is
an instance, and so is a property of one world, taken as a relation of the world with itself.

The bag of a tag is made before the values of the tag are expanded, and the tag is set after that.
So along with the relation goes how many bags have been given out, which only grows (`World.Since`):
when a tag is set, its bag is one of them.
-/

namespace TemplateGrammar

/-- It holds of every node of a task.  A tag is one that a node sets, with a bag made for it, one of
the first `k`. -/
def Task.Every (good : Node BagId → Prop) (k : Nat) : Task → Prop
  | .nodes list mods => Node.Every good list ∧ ∀ v ∈ mods.flatMap Modifier.parameters,
    Node.Every good v
  | .tag name values site => good (.tag name values) ∧ (∃ n < k, site = .fresh n) ∧ ∀ v ∈ values,
    Node.Every good v
  | .condition operands _ yes no =>
    (∀ v ∈ operands, Node.Every good v) ∧ Node.Every good yes ∧ ∀ v ∈ no, Node.Every good v

variable {H : Type}

/-! ### The bags that have been given out -/

namespace World

/-- How many bags of runs have been given out. -/
def issued (w : World H) : Nat :=
  w.chance.bags.next

theorem issued_sayAll (w : World H) (ns : List Notice) : (w.sayAll ns).issued = w.issued := by
  induction ns generalizing w with
  | nil => rfl
  | cons n ns ih => exact ih (w.say n)

theorem issued_pick (w : World H) (chooser : Chooser) (selector : Selector H) (count : Nat) :
    (w.pick chooser selector count).2.issued = w.issued := by
  cases selector with
  | weighted weights =>
    unfold pick Selector.pick
    dsimp only
    split <;> rfl
  | _ => rfl

theorem issued_resolveRule (w : World H) (chooser : Chooser) (rule : Rule H) :
    (w.resolveRule chooser rule).2.issued = w.issued := by
  unfold resolveRule
  dsimp only
  split <;> exact w.issued_pick _ _ _

theorem issued_resolve (s : Setting H) (level : Nat) (name : String) (w : World H) :
    (w.resolve s level name).2.issued = w.issued := by
  unfold resolve
  split
  · rfl
  · split
    · rename_i tag _
      have hpick := w.issued_pick (.tag name) tag.selector tag.values.length
      dsimp only
      split
      · exact hpick
      · exact hpick
    · split
      · rfl
      · split
        · exact w.issued_resolveRule _ _
        · split
          · exact w.issued_resolveRule _ _
          · rfl

@[simp] theorem chance_setTag (w : World H) (level : Nat) (name : String) (values : List String)
    (selector : Selector H) : (w.setTag level name values selector).chance = w.chance := by
  unfold setTag
  split <;> rfl

theorem issued_setTag (w : World H) (level : Nat) (name : String) (values : List String)
    (selector : Selector H) : (w.setTag level name values selector).issued = w.issued := by
  rw [issued, chance_setTag, issued]

/-- Worlds related so, after at least `k` bags have been given out. -/
def Since (k : Nat) (R : World H → World H → Prop) (w v : World H) : Prop :=
  R w v ∧ k ≤ w.issued

theorem Since.mono {k l : Nat} {R : World H → World H → Prop} {w v : World H} (h : Since l R w v)
    (hk : k ≤ l) : Since k R w v :=
  ⟨h.1, Nat.le_trans hk h.2⟩

end World

namespace Direct

/-- The level of a frame that is entered on a level, raising it or not. -/
def entered (level : Nat) : Bool → Nat
  | true => level + 1
  | false => level

variable {α β : Type} {R : World H → World H → Prop} {w v : World H}

/-- The same result, and related worlds. -/
def Alike (R : World H → World H → Prop) (x y : Expanded α H) : Prop :=
  x.1 = y.1 ∧ R x.2 y.2

/-- Entering a frame with nodes that are good on its level is alike in related worlds. -/
def EntersAlike (good : Nat → Node BagId → Prop) (R : World H → World H → Prop)
    (enter : Entrance H) : Prop :=
  ∀ k level deepens t w v, 1 ≤ level → t.Every (good (entered level deepens)) k →
    World.Since k R w v →
    Alike (World.Since k R) (enter level deepens t w) (enter level deepens t v)

theorem alike_ok (a : α) (h : R w v) : Alike R (.ok a, w) (.ok a, v) :=
  ⟨rfl, h⟩

theorem Alike.andThen {x y : Expanded α H} {f g : α → World H → Expanded β H} (h : Alike R x y)
    (hfg : ∀ a w v, R w v → Alike R (f a w) (g a v)) : Alike R (Direct.andThen x f)
      (Direct.andThen y g) := by
  obtain ⟨result, w⟩ := x
  obtain ⟨result', v⟩ := y
  obtain ⟨rfl, hw⟩ := h
  cases result with
  | ok a => exact hfg a w v hw
  | error e => exact ⟨rfl, hw⟩

theorem Alike.mono {k l : Nat} {x y : Expanded α H} (h : Alike (World.Since l R) x y) (hk : k ≤ l) :
    Alike (World.Since k R) x y :=
  ⟨h.1, h.2.mono hk⟩

end Direct

/-! ### What a name stands for -/

section Resolve

variable {R : World H → World H → Prop}
  (say : ∀ {w v : World H} (n : Notice), R w v → R (w.say n) (v.say n))
  (pick : ∀ {w v : World H} (chooser : Chooser) (selector : Selector H) (count : Nat), R w v →
    (w.pick chooser selector count).1 = (v.pick chooser selector count).1 ∧
      R (w.pick chooser selector count).2 (v.pick chooser selector count).2)
  {w v : World H} (h : R w v)

include pick h

theorem World.alike_resolveRule (chooser : Chooser) (rule : Rule H) :
    (w.resolveRule chooser rule).1 = (v.resolveRule chooser rule).1 ∧
      R (w.resolveRule chooser rule).2 (v.resolveRule chooser rule).2 := by
  obtain ⟨hi, hw⟩ := pick chooser rule.selector rule.candidates.length h
  unfold World.resolveRule
  dsimp only
  rw [hi]
  split
  · exact ⟨rfl, hw⟩
  · exact ⟨rfl, hw⟩

include say

/-- **A name stands for the same** in related worlds that see the same tag under it and have the
same rules of the run. -/
theorem World.alike_resolve {s : Setting H} {level : Nat} {name : String}
    (htag : w.tags.get? level name = v.tags.get? level name) (hruntime : w.runtime = v.runtime) :
    (w.resolve s level name).1 = (v.resolve s level name).1 ∧
      R (w.resolve s level name).2 (v.resolve s level name).2 := by
  unfold World.resolve
  rw [htag, hruntime]
  split
  · exact ⟨rfl, h⟩
  · split
    · rename_i tag _
      obtain ⟨hi, hw⟩ := pick (.tag name) tag.selector tag.values.length h
      dsimp only
      rw [hi]
      split
      · exact ⟨rfl, say _ hw⟩
      · exact ⟨rfl, hw⟩
    · split
      · exact ⟨rfl, h⟩
      · split
        · exact World.alike_resolveRule pick h _ _
        · split
          · exact World.alike_resolveRule pick h _ _
          · exact ⟨rfl, h⟩

end Resolve

theorem Condition.operands_congr {s : Setting H} {level : Nat} {w v : World H}
    (htags : ∀ name, w.tags.get? level name = v.tags.get? level name)
    (hruntime : w.runtime = v.runtime) (c : Condition BagId) :
    c.operands s level w = c.operands s level v := by
  unfold Condition.operands Condition.rightOperands
  simp only [htags, hruntime]

/-! ### Operation by operation -/

/-- **A relation that no operation on worlds breaks or betrays,** where nodes are good on the level
that they are expanded on. -/
structure World.Parallel (s : Setting H) (good : Nat → Node BagId → Prop)
    (R : World H → World H → Prop) : Prop where
  say : ∀ {w v} (n : Notice), R w v → R (w.say n) (v.say n)
  freshBag : ∀ {w v}, R w v → w.freshBag.1 = v.freshBag.1 ∧ R w.freshBag.2 v.freshBag.2
  call : ∀ {w v} (m : Method H) (name text : String) (arguments : List String), R w v →
    (w.call m name text arguments).1 = (v.call m name text arguments).1 ∧
      R (w.call m name text arguments).2 (v.call m name text arguments).2
  leave : ∀ {w v level}, 1 ≤ level → R w v → R (w.leave level) (v.leave level)
  resolve : ∀ {w v level} (name : String), 1 ≤ level → R w v →
    (w.resolve s level name).1 = (v.resolve s level name).1 ∧
      R (w.resolve s level name).2 (v.resolve s level name).2 ∧
      ∀ nodes deepens, (w.resolve s level name).1 = .nodes nodes deepens →
        Node.Every (good (Direct.entered level deepens)) nodes
  parameters : ∀ {level name mods} (deepens : Bool), Node.Every (good level) [.rule name mods] →
    ∀ part ∈ mods.flatMap Modifier.parameters, Node.Every (good (Direct.entered level deepens)) part
  operands : ∀ {w v level n c}, 1 ≤ level → R w v → Node.Every (good level) [n] → c ∈ n.condition? →
    c.operands s level w = c.operands s level v ∧ ∀ part ∈ c.operands s level w,
    Node.Every (good level) part
  choice : ∀ {w v level site values mods}, R w v → good level (.choice site values mods) →
    (w.pick .inline (.default values site) values.length).1 =
      (v.pick .inline (.default values site) values.length).1 ∧
      R (w.pick .inline (.default values site) values.length).2
        (v.pick .inline (.default values site) values.length).2
  setTag : ∀ {w v level name values n} (texts : List String), R w v → 1 ≤ level →
    good level (.tag name values) → n < w.issued →
    R (w.setTag level name texts (.default values (.fresh n)))
      (v.setTag level name texts (.default values (.fresh n)))
  define : ∀ {w v level name values}, R w v → good level (.define name values) →
    (∀ part ∈ values, Node.Every (good level) part) →
    R (w.define name values) (v.define name values)

namespace World.Parallel

open Direct (Alike EntersAlike alike_ok)

variable {s : Setting H} {good : Nat → Node BagId → Prop} {R : World H → World H → Prop}
  (hP : World.Parallel s good R) {entrance : Entrance H} {k level : Nat} {w v : World H}

include hP

theorem since (k : Nat) : World.Parallel s good (World.Since k R) where
  say n h := ⟨hP.say n h.1, h.2⟩
  freshBag h := by
    obtain ⟨hid, hw⟩ := hP.freshBag h.1
    exact ⟨hid, hw, Nat.le_succ_of_le h.2⟩
  call m name text args h := by
    obtain ⟨hout, hw⟩ := hP.call m name text args h.1
    exact ⟨hout, hw, h.2⟩
  leave hl h := ⟨hP.leave hl h.1, h.2⟩
  resolve {w _ level} name hl h := by
    obtain ⟨hr, hw, hnodes⟩ := hP.resolve name hl h.1
    exact ⟨hr, ⟨hw, (w.issued_resolve s level name).symm ▸ h.2⟩, hnodes⟩
  parameters := hP.parameters
  operands hl h := hP.operands hl h.1
  choice {w _ _ _ _ _} h hgood := by
    obtain ⟨hi, hw⟩ := hP.choice h.1 hgood
    exact ⟨hi, hw, (w.issued_pick _ _ _).symm ▸ h.2⟩
  setTag {w _ _ _ _ _} texts h hl hgood hn :=
    ⟨hP.setTag texts h.1 hl hgood hn, (w.issued_setTag _ _ _ _).symm ▸ h.2⟩
  define h hgood hvalues := ⟨hP.define h.1 hgood hvalues, Nat.le_succ_of_le h.2⟩

theorem sayUnknown (mods : List (Modifier BagId)) (h : R w v) :
    R (Machine.sayUnknown s mods w) (Machine.sayUnknown s mods v) := by
  have hall : ∀ (ns : List Notice) (w v : World H), R w v → R (w.sayAll ns) (v.sayAll ns) := by
    intro ns
    induction ns with
    | nil => exact fun w v h => h
    | cons n ns ih => exact fun w v h => ih (w.say n) (v.say n) (hP.say n h)
  exact hall _ w v h

section Entered

variable (he : EntersAlike good R entrance) (hl : 1 ≤ level)

include he hl

omit hP in
theorem arguments {values : List (List (Node BagId))}
    (hv : ∀ part ∈ values, Node.Every (good level) part) (h : World.Since k R w v) :
    Alike (World.Since k R) (Direct.arguments entrance level values w)
      (Direct.arguments entrance level values v) := by
  induction values generalizing w v with
  | nil => exact alike_ok _ h
  | cons value values ih =>
    have hmore : ∀ part ∈ values, Node.Every (good level) part :=
      fun part hp => hv part (List.mem_cons_of_mem value hp)
    rw [Direct.arguments, Direct.arguments]
    refine Alike.andThen (he _ _ _ _ _ _ hl ⟨hv value List.mem_cons_self, by simp⟩ h)
      fun text w₁ v₁ h₁ => ?_
    exact (ih hmore h₁).andThen fun texts w₂ v₂ h₂ => alike_ok _ h₂

omit hP in
theorem block {nodes : Option (List (Node BagId))}
    (hn : ∀ part ∈ nodes, Node.Every (good level) part) (h : World.Since k R w v) :
    Alike (World.Since k R) (Direct.block entrance level nodes w)
      (Direct.block entrance level nodes v) := by
  cases nodes with
  | none => exact alike_ok _ h
  | some nodes => exact he _ _ _ _ _ _ hl ⟨hn nodes rfl, by simp⟩ h

theorem branch {op : Comparison} {yes : List (Node BagId)} {no : Option (List (Node BagId))}
    (hyes : Node.Every (good level) yes) (hno : ∀ part ∈ no, Node.Every (good level) part)
    (operands : List String) (h : World.Since k R w v) : Alike (World.Since k R)
      (Direct.branch entrance level op yes no operands w)
      (Direct.branch entrance level op yes no operands v) := by
  unfold Direct.branch
  split
  · exact ⟨rfl, h⟩
  · exact block he hl (fun part hp => Option.some.inj hp ▸ hyes) ((hP.since k).say _ h)
  · exact block he hl hno ((hP.since k).say _ h)

theorem modify {mods : List (Modifier BagId)}
    (hm : ∀ part ∈ mods.flatMap Modifier.parameters, Node.Every (good level) part) (text : String)
    (h : World.Since k R w v) : Alike (World.Since k R) (Direct.modify s entrance level mods text w)
      (Direct.modify s entrance level mods text v) := by
  induction mods generalizing text w v with
  | nil => exact alike_ok _ h
  | cons mod mods ih =>
    rw [List.flatMap_cons] at hm
    have hfirst : ∀ part ∈ mod.parameters, Node.Every (good level) part := fun part hp =>
      hm part (List.mem_append_left _ hp)
    have hmore : ∀ part ∈ mods.flatMap Modifier.parameters, Node.Every (good level) part :=
      fun part hp => hm part (List.mem_append_right _ hp)
    rw [Direct.modify, Direct.modify]
    split
    · exact ih hmore text h
    · rename_i method _
      refine (arguments he hl hfirst h).andThen fun args w₁ v₁ h₁ => ?_
      obtain ⟨hout, hw⟩ := (hP.since k).call method mod.name text args h₁
      dsimp only
      rw [hout]
      exact ih hmore _ hw

theorem node {n : Node BagId} (hn : Node.Every (good level) [n]) (h : World.Since k R w v) :
    Alike (World.Since k R) (Direct.node s entrance level n w)
      (Direct.node s entrance level n v) := by
  have hgood : good level n := hn.here n List.mem_cons_self
  have hpart : ∀ part ∈ n.parts, Node.Every (good level) part :=
    fun part hp => hn.part List.mem_cons_self hp
  cases n with
  | text text => exact alike_ok _ h
  | weight k => exact alike_ok _ h
  | rule name mods =>
    obtain ⟨hr, hw, hnodes⟩ := (hP.since k).resolve name hl h
    rw [Direct.node, Direct.node]
    rcases hw₁ : w.resolve s level name with ⟨resolution, w₁⟩
    rcases hv₁ : v.resolve s level name with ⟨resolution', v₁⟩
    rw [hw₁] at hnodes
    rw [hw₁, hv₁] at hr hw
    obtain rfl : resolution = resolution' := hr
    cases resolution with
    | nodes nodes deepens =>
      exact he _ _ _ _ _ _ hl ⟨hnodes nodes deepens rfl, hP.parameters deepens hn⟩
        ((hP.since k).sayUnknown mods hw)
    | stuck obstacle => exact alike_ok _ ((hP.since k).say _ hw)
  | choice site values mods =>
    obtain ⟨hi, hw⟩ := (hP.since k).choice h hgood
    rw [Direct.node, Direct.node]
    dsimp only
    rw [hi]
    split
    · rename_i nodes hget
      refine he _ _ _ _ _ _ hl ⟨?_, ?_⟩ ((hP.since k).sayUnknown mods hw)
      · exact hpart nodes (List.mem_append_left _ (List.mem_of_getElem? hget))
      · exact fun part hp => hpart part (List.mem_append_right _ hp)
    · exact alike_ok _ ((hP.since k).say _ hw)
  | tag name values =>
    obtain ⟨hid, hw⟩ := hP.freshBag h.1
    rw [Direct.node, Direct.node]
    dsimp only
    rw [hid.symm]
    -- the bag is the last one that has been given out
    have htask : (Task.tag name values w.freshBag.1).Every (good level) (w.issued + 1) :=
      ⟨hgood, ⟨w.issued, Nat.lt_succ_self _, rfl⟩, hpart⟩
    exact (he _ level false _ _ _ hl htask ⟨hw, Nat.le_refl _⟩).mono (Nat.le_succ_of_le h.2)
  | define name values => exact alike_ok _ ((hP.since k).define h hgood hpart)
  | ifBlock c yes no =>
    obtain ⟨hsame, hoperands⟩ := hP.operands hl h.1 hn rfl
    rw [Direct.node, Direct.node, ← hsame]
    refine he _ _ _ _ _ _ hl ⟨hoperands, hpart yes (by simp [Node.parts]),
      fun part hp => hpart part ?_⟩ h
    obtain rfl := hp
    simp [Node.parts]
  | whileBlock c body =>
    obtain ⟨hsame, hoperands⟩ := hP.operands hl h.1 hn rfl
    -- the block of a loop ends with the loop itself
    have hbody : Node.Every (good level) (body ++ [.whileBlock c body]) :=
      (hpart body (by simp [Node.parts])).append hn
    rw [Direct.node, Direct.node, ← hsame]
    exact he _ _ _ _ _ _ hl ⟨hoperands, hbody, by simp⟩ h

theorem nodeList {nodes : List (Node BagId)} (hn : Node.Every (good level) nodes)
    (h : World.Since k R w v) :
    Alike (World.Since k R) (Direct.nodeList s entrance level nodes w)
      (Direct.nodeList s entrance level nodes v) := by
  induction nodes generalizing w v with
  | nil => exact alike_ok _ h
  | cons n nodes ih =>
    rw [Direct.nodeList, Direct.nodeList]
    refine (hP.node he hl (hn.single List.mem_cons_self) h).andThen fun text w₁ v₁ h₁ => ?_
    exact (ih hn.tail h₁).andThen fun more w₂ v₂ h₂ => alike_ok _ h₂

theorem perform {t : Task} (ht : t.Every (good level) k) (h : World.Since k R w v) :
    Alike (World.Since k R) (Direct.perform s entrance level t w)
      (Direct.perform s entrance level t v) := by
  cases t with
  | nodes nodes mods =>
    obtain ⟨hnodes, hmods⟩ := ht
    refine (hP.nodeList he hl hnodes h).andThen fun text w₁ v₁ h₁ => ?_
    exact hP.modify he hl hmods text h₁
  | tag name values site =>
    obtain ⟨hgood, ⟨n, hn, rfl⟩, hvalues⟩ := ht
    refine (arguments he hl hvalues h).andThen fun texts w₁ v₁ h₁ => ?_
    exact alike_ok _ ((hP.since k).setTag texts h₁ hl hgood (Nat.lt_of_lt_of_le hn h₁.2))
  | condition operands op yes no =>
    obtain ⟨hoperands, hyes, hno⟩ := ht
    refine (arguments he hl hoperands h).andThen fun texts w₁ v₁ h₁ => ?_
    exact hP.branch he hl hyes hno texts h₁

end Entered

theorem enter (free : Nat) : EntersAlike good R (Direct.enter s free) := by
  induction free with
  | zero => exact fun k level deepens t w v hl ht h => ⟨rfl, (hP.since k).say _ h⟩
  | succ free ih =>
    intro k level deepens t w v hl ht h
    cases deepens with
    | false => exact hP.perform ih hl ht h
    | true =>
      rw [Direct.enter, Direct.enter]
      split
      · exact ⟨rfl, (hP.since k).say _ h⟩
      · refine (hP.perform ih (Nat.le_succ_of_le hl) ht h).andThen fun text w₁ v₁ h₁ => ?_
        exact alike_ok _ ((hP.since k).leave hl h₁)

/-- **Related worlds give the same expansion** of nodes that are good on the first level, and stay
related. -/
theorem expand {nodes : List (Node BagId)} (hn : Node.Every (good 1) nodes) (h : R w v) :
    Alike R (Direct.expand s nodes w) (Direct.expand s nodes v) := by
  unfold Direct.expand
  split
  · exact ⟨rfl, hP.say _ h⟩
  · split
    · exact ⟨rfl, hP.say _ h⟩
    · have htask : (Task.nodes nodes []).Every (good 1) 0 := ⟨hn, by simp⟩
      obtain ⟨hresult, hw⟩ :=
        hP.perform (hP.enter _) (Nat.le_refl 1) htask ⟨hP.leave (Nat.le_refl 1) h, Nat.zero_le _⟩
      exact ⟨hresult, hw.1⟩

end World.Parallel

end TemplateGrammar
