import TemplateGrammar.Proofs.Choice.Rounds
import TemplateGrammar.Proofs.Expansion.Kept

/-!
# The bags of rules, while something is expanded

The bag of a rule belongs to the rule.  An expansion picks from it when it picks for a rule of the
table that holds it, and at no other time: inline choices have bags of their own, and so have the
tags and the rules that an expansion makes (`World.Apart`).  So what is said of such a bag and of
the journal is kept by an expansion, if notes other than of picks for rules make no difference to
it, and the picks for rules of the table keep it (`Watches.evaluated`).
-/

namespace TemplateGrammar

/-- The bag of the candidates of a rule. -/
def BagId.isRule : BagId → Bool
  | ofRule _ _ => true
  | _ => false

variable {H : Type}

/-- A selector that picks from no bag of a rule. -/
def Selector.Apart (s : Selector H) : Prop :=
  ∀ id, s.bag? = some id → id.isRule = false

/-- If the node is a choice, then with a bag that is not a rule's. -/
def Node.OwnBag : Node BagId → Prop
  | .choice site _ _ => site.isRule = false
  | _ => True

theorem Selector.apart_default {σ : Type} (values : List (Value σ)) {site : BagId}
    (h : site.isRule = false) : (Selector.default values site : Selector H).Apart := by
  intro id hid
  rwa [← Selector.bag?_default hid]

theorem Selector.Apart.bag?_ne {s : Selector H} (h : s.Apart) {id : BagId}
    (hid : id.isRule = true) : s.bag? ≠ some id := by
  intro hs
  rw [h id hs] at hid
  cases hid

/-- Templates that are taken up get bags that are no rule's. -/
theorem Node.ownBag_placeList {f : Nat → BagId} (hf : ∀ k, (f k).isRule = false) (k : Nat)
    (nodes : List (Node Unit)) : Node.Every Node.OwnBag (Node.placeList f k nodes).1 := by
  refine Node.Throughout.place (p := fun _ => True) ?_
    (Node.every_of_forall (fun _ => trivial) nodes) k
  intro n j _
  cases n with
  | choice site values mods => exact hf j
  | _ => trivial

/-- **Apart:** no tag and no rule of the run picks from the bag of a rule. -/
structure World.Apart (w : World H) : Prop where
  tags : w.tags.All fun tag => tag.selector.Apart
  runtime : ∀ (name : String) (rule : Rule H), w.runtime[name]? = some rule →
    rule.selector.Apart ∧ rule.Every Node.OwnBag

namespace World.Apart

variable {w w' : World H}

theorem of_eq (h : w.Apart) (htags : w'.tags = w.tags)
    (hruntime : w'.runtime = w.runtime) : w'.Apart :=
  ⟨htags ▸ h.tags, hruntime ▸ h.runtime⟩

theorem setTag (h : w.Apart) (level : Nat) (name : String) (texts : List String)
    {selector : Selector H} (hs : selector.Apart) : (w.setTag level name texts selector).Apart := by
  refine ⟨?_, ?_⟩
  · rw [World.tags_setTag]
    exact h.tags.store level name hs
  · rw [World.runtime_setTag]
    exact h.runtime

theorem define (h : w.Apart) (name : String) {values : List (List (Node BagId))}
    (hv : ∀ v ∈ values, Node.Every Node.OwnBag v) : (w.define name values).Apart := by
  refine ⟨h.tags, ?_⟩
  intro other rule hget
  unfold World.define at hget
  dsimp only at hget
  rw [Std.ExtTreeMap.getElem?_insert] at hget
  split at hget
  · obtain rfl := Option.some.inj hget
    refine ⟨Selector.apart_default values rfl, ?_⟩
    intro c hc
    obtain ⟨v, hmem, rfl⟩ := List.mem_map.mp hc
    exact hv v hmem
  · exact h.runtime other rule hget

theorem forget (w : World H) : w.forget.Apart := by
  refine ⟨TagStore.all_clear _ w.tags, ?_⟩
  intro name rule hget
  simp [World.forget] at hget

end World.Apart

/-- **What can be watched of the bag of a rule,** beside the journal: notes other than of picks for
rules make no difference, and picks for the rules of the table keep it. -/
structure Watches (s : Setting H) (id : BagId) (Q : Bag → Journal → Prop) : Prop where
  owned : id.isRule = true
  note : ∀ {b j} (entry : Entry), (∀ name count i, entry ≠ .pick (.rule name) count i) → Q b j →
    Q b (entry :: j)
  apart : ∀ (name : String) (rule : Rule H), s.rules[name]? = some rule → rule.Every Node.OwnBag
  pick : ∀ {name : String} {rule : Rule H} (w : World H), s.rules[name]? = some rule →
    Q (w.chance.bags.get id) w.journal →
    Q ((w.pick (.rule name) rule.selector rule.candidates.length).2.chance.bags.get id)
      (w.pick (.rule name) rule.selector rule.candidates.length).2.journal

/-- The worlds with what is watched. -/
structure World.Watched (id : BagId) (Q : Bag → Journal → Prop) (w : World H) : Prop where
  apart : w.Apart
  bag : Q (w.chance.bags.get id) w.journal

namespace Watches

variable {s : Setting H} {id : BagId} {Q : Bag → Journal → Prop} (hQ : Watches s id Q) {w : World H}

include hQ

theorem say (h : w.Watched id Q) (n : Notice) : (w.say n).Watched id Q :=
  ⟨h.apart.of_eq rfl rfl, hQ.note (.notice n) (fun _ _ _ he => by cases he) h.bag⟩

theorem other (h : w.Watched id Q) {chooser : Chooser} (hc : ∀ name, chooser ≠ .rule name)
    {selector : Selector H} (hs : selector.Apart) (count : Nat) :
    (w.pick chooser selector count).2.Watched id Q := by
  refine ⟨h.apart.of_eq rfl rfl, ?_⟩
  have hbag : (w.pick chooser selector count).2.chance.bags.get id = w.chance.bags.get id :=
    Selector.get_bags_pick (hs.bag?_ne hQ.owned) count w.chance
  rw [hbag]
  refine hQ.note (.pick chooser count _) ?_ h.bag
  intro name n i he
  exact hc name (Entry.pick.inj he).1

theorem setTag (h : w.Watched id Q) (level : Nat) (name : String) (texts : List String)
    {selector : Selector H} (hs : selector.Apart) :
    (w.setTag level name texts selector).Watched id Q := by
  have hset : ∀ {b : Bag} {j : Journal}, Q b j →
      Q b (.setTag level name texts :: .notice (.tagSet name texts) :: j) := by
    intro b j hj
    have hsaid := hQ.note (.notice (.tagSet name texts)) (fun _ _ _ he => by cases he) hj
    exact hQ.note (.setTag level name texts) (fun _ _ _ he => by cases he) hsaid
  refine ⟨h.apart.setTag level name texts hs, ?_⟩
  unfold World.setTag
  split
  · exact hset (hQ.say h (.tagReplaced name)).bag
  · exact hset h.bag

theorem define (h : w.Watched id Q) (name : String) {values : List (List (Node BagId))}
    (hv : ∀ v ∈ values, Node.Every Node.OwnBag v) : (w.define name values).Watched id Q := by
  refine ⟨h.apart.define name hv, ?_⟩
  have hsaid := (hQ.say h (if w.runtime.contains name then .runtimeRuleReplaced name
    else .runtimeRuleAdded name)).bag
  exact hQ.note (.define name values.length) (fun _ _ _ he => by cases he) hsaid

/-- **What is watched is kept** by every operation. -/
theorem kept : World.Kept s Node.OwnBag (World.Watched id Q) where
  text _ := trivial
  say n h := hQ.say h n
  freshBag h := ⟨h.apart.of_eq rfl rfl, h.bag⟩
  call _ name text arguments h := by
    have hsaid := hQ.say h (.modifierRun name text arguments)
    exact ⟨h.apart.of_eq rfl rfl, hQ.note (.call name text arguments)
      (fun _ _ _ he => by cases he) hsaid.bag⟩
  leave _ h := ⟨⟨h.apart.tags.leave _, h.apart.runtime⟩, h.bag⟩
  readTag h hget := hQ.other h (fun _ he => by cases he) (h.apart.tags _ _ _ hget) _
  runtimeRule h hget := by
    obtain ⟨hselector, hcandidates⟩ := h.apart.runtime _ _ hget
    exact ⟨hQ.other h (fun _ he => by cases he) hselector _, hcandidates⟩
  tableRule {w _ _} h hget := ⟨⟨h.apart.of_eq rfl rfl, hQ.pick w hget h.bag⟩, hQ.apart _ _ hget⟩
  choice h hgood := hQ.other h (fun _ he => by cases he) (Selector.apart_default _ hgood) _
  setTag texts h _ _ _ := hQ.setTag h _ _ texts (Selector.apart_default _ rfl)
  define h _ hv := hQ.define h _ hv

/-- **What is watched is kept by calls,** whatever their text, and whatever they come to. -/
theorem evaluated (h : w.Watched id Q) (text : String) :
    (Engine.evaluated s text w).2.Watched id Q := by
  refine hQ.kept.evaluated ?_ text ?_ h
  · exact fun w nodes hw => ⟨hw.apart.of_eq rfl rfl, hw.bag⟩
  · exact fun nodes k _ => Node.ownBag_placeList (fun _ => rfl) k nodes

end Watches

end TemplateGrammar
