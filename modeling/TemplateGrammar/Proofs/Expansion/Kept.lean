import TemplateGrammar.Proofs.Engine.Calls
import TemplateGrammar.Proofs.Expansion.Quiet
import TemplateGrammar.Proofs.Template.Places

/-!
# What expansions keep

A property of worlds that every operation keeps is kept by whole expansions.  What the operations
are used on matters: a property can be kept only as long as the selectors that are asked are those
of tags, rules and choices that stand in the world, in the table or in the nodes, and the nodes are
such that the property allows for them.  So the property comes with a property of nodes, which holds
throughout the nodes that are expanded (`Node.Every`), throughout the candidates of the table, and
throughout the candidates of rules of the run in every world with the property.

`World.Kept` says this for one operation after the other.  It is then kept in parallel by a world
with itself (`Kept.parallel`), and so by whole expansions (`Kept.expand`) and calls
(`Kept.evaluated`).
-/

namespace TemplateGrammar

/-- It holds of every node of the candidates of a rule. -/
def Rule.Every {H : Type} (good : Node BagId → Prop) (rule : Rule H) : Prop :=
  ∀ c ∈ rule.candidates, Node.Every good c.nodes

/-- **What holds of all nodes** holds of every node of a rule. -/
theorem Rule.every_of_forall {H : Type} {good : Node BagId → Prop} (h : ∀ n, good n)
    (rule : Rule H) : rule.Every good :=
  fun c _ => Node.every_of_forall h c.nodes

theorem Rule.every_of_values {H : Type} {good : Node BagId → Prop}
    {values : List (List (Node BagId))} (h : ∀ v ∈ values, Node.Every good v)
    (selector : Selector H) :
    Rule.Every good ⟨values.map (Candidate.mk ""), selector⟩ := by
  intro c hc
  obtain ⟨v, hv, rfl⟩ := List.mem_map.mp hc
  exact h v hv

/-- **What holds of all rules of the run** and of the one that is defined, holds of all after
that. -/
theorem World.define_keeps {H : Type} {p : Rule H → Prop} {w : World H} {name : String}
    {values : List (List (Node BagId))}
    (hnew : p ⟨values.map (Candidate.mk ""), .default values (.fresh w.chance.bags.next)⟩)
    (h : ∀ (other : String) (rule : Rule H), w.runtime[other]? = some rule → p rule)
    (other : String) (rule : Rule H) (hget : (w.define name values).runtime[other]? = some rule) :
    p rule := by
  replace hget : (w.runtime.insert name _)[other]? = some rule := hget
  rw [Std.ExtTreeMap.getElem?_insert] at hget
  split at hget
  · exact Option.some.inj hget ▸ hnew
  · exact h other rule hget

variable {H : Type}

/-- **A property of worlds that every operation keeps** where the nodes are good. -/
structure World.Kept (s : Setting H) (good : Node BagId → Prop) (P : World H → Prop) : Prop where
  text : ∀ text, good (.text text)
  say : ∀ {w} (n : Notice), P w → P (w.say n)
  freshBag : ∀ {w}, P w → P w.freshBag.2
  call : ∀ {w} (m : Method H) (name text : String) (arguments : List String), P w →
    P (w.call m name text arguments).2
  leave : ∀ {w level}, 1 ≤ level → P w → P (w.leave level)
  readTag : ∀ {w level name tag}, P w → w.tags.get? level name = some tag →
    P (w.pick (.tag name) tag.selector tag.values.length).2
  runtimeRule : ∀ {w name rule}, P w → w.runtime[name]? = some rule →
    P (w.pick (.runtimeRule name) rule.selector rule.candidates.length).2 ∧ rule.Every good
  tableRule : ∀ {w name rule}, P w → s.rules[name]? = some rule →
    P (w.pick (.rule name) rule.selector rule.candidates.length).2 ∧ rule.Every good
  choice : ∀ {w site values mods}, P w → good (.choice site values mods) →
    P (w.pick .inline (.default values site) values.length).2
  setTag : ∀ {w level name values n} (texts : List String), P w → 1 ≤ level →
    good (.tag name values) → n < w.issued →
    P (w.setTag level name texts (.default values (.fresh n)))
  define : ∀ {w name values}, P w → good (.define name values) → (∀ v ∈ values, Node.Every good v) →
    P (w.define name values)

/-- The property holds, and at least `k` bags have been given out. -/
def World.After (k : Nat) (P : World H → Prop) (w : World H) : Prop :=
  P w ∧ k ≤ w.issued

theorem World.after_zero {P : World H → Prop} {w : World H} (h : P w) : World.After 0 P w :=
  ⟨h, Nat.zero_le _⟩

namespace Direct

variable {α β : Type} {P : World H → Prop}

/-- Whatever comes out, the world after it has the property. -/
def Leaves (P : World H → Prop) (x : Expanded α H) : Prop :=
  P x.2

/-- Entering a frame with good nodes keeps the property. -/
def EntersKeeping (good : Node BagId → Prop) (P : World H → Prop) (enter : Entrance H) : Prop :=
  ∀ k level deepens t w, 1 ≤ level → t.Every good k → World.After k P w →
    Leaves (World.After k P) (enter level deepens t w)

theorem EntersKeeping.alike {good : Node BagId → Prop} {enter : Entrance H}
    (he : EntersKeeping good P enter) :
    EntersAlike (fun _ => good) (fun w v => w = v ∧ P w) enter := by
  rintro k level deepens t w _ hl ht ⟨⟨rfl, hw⟩, hk⟩
  obtain ⟨hw₁, hk₁⟩ := he k level deepens t w hl ht ⟨hw, hk⟩
  exact ⟨rfl, ⟨rfl, hw₁⟩, hk₁⟩

theorem Alike.leaves {k : Nat} {x : Expanded α H}
    (h : Alike (World.Since k fun w v => w = v ∧ P w) x x) :
    Leaves (World.After k P) x :=
  ⟨h.2.1.2, h.2.2⟩

theorem Leaves.property {k : Nat} {x : Expanded α H}
    (h : Leaves (World.After k P) x) : Leaves P x :=
  h.1

theorem Leaves.andThen {x : Expanded α H} {f : α → World H → Expanded β H} (h : Leaves P x)
    (hf : ∀ a w, P w → Leaves P (f a w)) : Leaves P (Direct.andThen x f) := by
  obtain ⟨result, w⟩ := x
  cases result with
  | ok a => exact hf a w h
  | error e => exact h

end Direct

namespace World.Kept

open Direct (Leaves EntersKeeping)

variable {s : Setting H} {good : Node BagId → Prop} {P : World H → Prop} (hK : World.Kept s good P)
  {entrance : Entrance H} {k level : Nat} {w : World H}

include hK

theorem sayUnknown (mods : List (Modifier BagId)) (hw : P w) : P (Machine.sayUnknown s mods w) :=
  List.foldlRecOn (motive := P) _ World.say hw fun _ hw n _ => hK.say n hw

omit hK in
theorem resolveRule {chooser : Chooser} {rule : Rule H} (hrule : rule.Every good)
    (hpick : P (w.pick chooser rule.selector rule.candidates.length).2) :
    P (w.resolveRule chooser rule).2 ∧
      ∀ nodes deepens, (w.resolveRule chooser rule).1 = .nodes nodes deepens →
      Node.Every good nodes := by
  unfold World.resolveRule
  dsimp only
  split
  · rename_i c hget
    refine ⟨hpick, ?_⟩
    intro nodes deepens h
    obtain ⟨rfl, -⟩ := Resolution.nodes.inj h
    exact hrule c (List.mem_of_getElem? hget)
  · refine ⟨hpick, ?_⟩
    intro nodes deepens h
    cases h

/-- **What a name stands for is good,** and finding it keeps the property. -/
theorem resolve (level : Nat) (name : String) (hw : P w) :
    P (w.resolve s level name).2 ∧
      ∀ nodes deepens, (w.resolve s level name).1 = .nodes nodes deepens →
      Node.Every good nodes := by
  have htext : ∀ (text : String) (d : Bool) (nodes : List (Node BagId)) (deepens : Bool),
      Resolution.nodes [.text text] d = .nodes nodes deepens → Node.Every good nodes := by
    intro text d nodes deepens h
    obtain ⟨rfl, -⟩ := Resolution.nodes.inj h
    exact .text (hK.text text)
  unfold World.resolve
  split
  · exact ⟨hw, htext "" false⟩
  · split
    · rename_i tag htag
      have hpick := hK.readTag hw htag
      dsimp only
      split
      · exact ⟨hK.say _ hpick, htext _ false⟩
      · exact ⟨hpick, fun nodes deepens h => by cases h⟩
    · split
      · exact ⟨hw, htext _ false⟩
      · split
        · rename_i rule hget
          obtain ⟨hpick, hrule⟩ := hK.runtimeRule hw hget
          exact resolveRule hrule hpick
        · split
          · rename_i rule hget
            obtain ⟨hpick, hrule⟩ := hK.tableRule hw hget
            exact resolveRule hrule hpick
          · exact ⟨hw, fun nodes deepens h => by cases h⟩

theorem operands {c : Condition BagId} (hleft : Node.Every good c.left)
    (hright : Node.Every good c.right) (hw : P w) :
    ∀ v ∈ c.operands s level w, Node.Every good v := by
  intro v hv
  rcases List.mem_cons.mp hv with rfl | hv
  · exact hleft
  · rcases Condition.mem_rightOperands hv with rfl | ⟨text, rfl⟩ | ⟨name, rule, -, hrule, hv⟩
    · exact hright
    · exact .text (hK.text text)
    · obtain ⟨c, hc, rfl⟩ := List.mem_map.mp hv
      rcases hrule with hrule | hrule
      · exact (hK.runtimeRule hw hrule).2 c hc
      · exact (hK.tableRule hw hrule).2 c hc

/-- What every operation keeps is a relation of a world with itself, which goes in parallel. -/
theorem parallel : World.Parallel s (fun _ => good) fun w v => w = v ∧ P w where
  say n h := by
    obtain ⟨rfl, hw⟩ := h
    exact ⟨rfl, hK.say n hw⟩
  freshBag h := by
    obtain ⟨rfl, hw⟩ := h
    exact ⟨rfl, rfl, hK.freshBag hw⟩
  call m name text args h := by
    obtain ⟨rfl, hw⟩ := h
    exact ⟨rfl, rfl, hK.call m name text args hw⟩
  leave hl h := by
    obtain ⟨rfl, hw⟩ := h
    exact ⟨rfl, hK.leave hl hw⟩
  resolve name _ h := by
    obtain ⟨rfl, hw⟩ := h
    obtain ⟨hw₁, hnodes⟩ := hK.resolve _ name hw
    exact ⟨rfl, ⟨rfl, hw₁⟩, hnodes⟩
  parameters _ hn part hp := hn.part List.mem_cons_self hp
  operands _ h hn hc := by
    obtain ⟨rfl, hw⟩ := h
    obtain ⟨hleft, hright⟩ := hn.sides List.mem_cons_self hc
    exact ⟨rfl, hK.operands hleft hright hw⟩
  choice h hgood := by
    obtain ⟨rfl, hw⟩ := h
    exact ⟨rfl, rfl, hK.choice hw hgood⟩
  setTag texts h hl hgood hn := by
    obtain ⟨rfl, hw⟩ := h
    exact ⟨rfl, hK.setTag texts hw hl hgood hn⟩
  define h hgood hvalues := by
    obtain ⟨rfl, hw⟩ := h
    exact ⟨rfl, hK.define hw hgood hvalues⟩

section Entered

variable (he : EntersKeeping good P entrance) (hl : 1 ≤ level)
include he hl

theorem branch {op : Comparison} {yes : List (Node BagId)} {no : Option (List (Node BagId))}
    (hyes : Node.Every good yes) (hno : ∀ v ∈ no, Node.Every good v) (operands : List String)
    (hw : World.After k P w) :
    Leaves (World.After k P) (Direct.branch entrance level op yes no operands w) :=
  (hK.parallel.branch he.alike hl hyes hno operands ⟨⟨rfl, hw.1⟩, hw.2⟩).leaves

theorem modify {mods : List (Modifier BagId)}
    (hm : ∀ v ∈ mods.flatMap Modifier.parameters, Node.Every good v)
    (text : String) (hw : World.After k P w) : Leaves (World.After k P)
      (Direct.modify s entrance level mods text w) :=
  (hK.parallel.modify he.alike hl hm text ⟨⟨rfl, hw.1⟩, hw.2⟩).leaves

theorem node {n : Node BagId} (hn : Node.Every good [n]) (hw : World.After k P w) :
    Leaves (World.After k P) (Direct.node s entrance level n w) :=
  (hK.parallel.node he.alike hl hn ⟨⟨rfl, hw.1⟩, hw.2⟩).leaves

theorem nodeList {nodes : List (Node BagId)} (hn : Node.Every good nodes) (hw : World.After k P w) :
    Leaves (World.After k P) (Direct.nodeList s entrance level nodes w) :=
  (hK.parallel.nodeList he.alike hl hn ⟨⟨rfl, hw.1⟩, hw.2⟩).leaves

end Entered

theorem enter (free : Nat) : EntersKeeping good P (Direct.enter s free) := by
  intro k level deepens t w hl ht hw
  exact (hK.parallel.enter free k level deepens t w w hl ht ⟨⟨rfl, hw.1⟩, hw.2⟩).leaves

/-- **Expansions of good nodes keep the property,** whether they come to a text or not. -/
theorem expand {nodes : List (Node BagId)} (hn : Node.Every good nodes) (hw : P w) :
    P (Direct.expand s nodes w).2 :=
  (hK.parallel.expand hn ⟨rfl, hw⟩).2.2

theorem settled {text : String} {x : Expanded String H} (h : Leaves P x) :
    P (Engine.settled text x).2 := by
  obtain ⟨result, w⟩ := x
  cases result with
  | ok out => exact hK.say _ h
  | error cause => exact h

/-- **Calls keep the property,** if taking up a template does, and if what is taken up is good. -/
theorem evaluated (takeUp : ∀ w nodes, P w → P (w.takeUp nodes).2) (text : String)
    (placed : ∀ nodes k, parseText text = .ok nodes →
      Node.Every good (Node.placeList BagId.fresh k nodes).1)
    (hw : P w) : P (Engine.evaluated s text w).2 := by
  have hsaid := hK.say (.input text) hw
  unfold Engine.evaluated
  cases hp : parseText text with
  | error failure => exact hsaid
  | ok nodes => exact hK.settled (hK.expand (placed nodes _ hp) (takeUp _ nodes hsaid))

omit hK in
theorem evaluated_of_forall (hall : World.Kept s (fun _ => True) P)
    (takeUp : ∀ w nodes, P w → P (w.takeUp nodes).2) (text : String) (hw : P w) :
    P (Engine.evaluated s text w).2 :=
  hall.evaluated takeUp text (fun _ _ _ => Node.every_of_forall (fun _ => trivial) _) hw

end World.Kept

end TemplateGrammar
