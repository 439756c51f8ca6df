import TemplateGrammar.Proofs.Choice.Indices
import TemplateGrammar.Proofs.Expansion.Holding
import TemplateGrammar.Proofs.Expansion.Steps
import TemplateGrammar.Proofs.Template.Parsed

/-!
# Picks that hit

A pick misses if its index is no index of what is picked from.  Whoever picks was made for a list:
the selector of a rule for its candidates, that of a tag for the values that its node has, and that
of a choice for the choice's own.  So no pick misses if the lists are not empty and their weights
can be drawn by (`Node.Fits`), and if it is the same list that is picked from.  For a tag this is
not clear at once, because what is stored are the texts of its values, collected one by one: there
are as many of them as there are values (`inRange_of_setTag`).

Two phases show it.  Bags stay sound, and rules of the run fit, as every operation keeps this
(`World.kept_fits`).  Then, on the way of an expansion, tags fit and all that is noted is fair,
which is that picks hit and that nothing is said to have been missed (`hits_reaches`,
`hits_expand`).
-/

namespace TemplateGrammar

/-! ### What fits -/

/-- Weights of the values of a tag, a definition or a choice can be drawn by. -/
def Node.Weighs {σ : Type} : Node σ → Prop
  | tag _ values => Value.Weighs values
  | define _ values => Value.Weighs values
  | choice _ values _ => Value.Weighs values
  | _ => True

instance {σ : Type} : DecidablePred (Node.Weighs : Node σ → Prop)
  | .tag _ values => inferInstanceAs (Decidable (Value.Weighs values))
  | .define _ values => inferInstanceAs (Decidable (Value.Weighs values))
  | .choice _ values _ => inferInstanceAs (Decidable (Value.Weighs values))
  | .text _ | .weight _ | .rule _ _ | .ifBlock _ _ _ | .whileBlock _ _ => .isTrue trivial

/-- **The node fits:** a tag, a definition or a choice has a value, and its weights can be drawn
by. -/
def Node.Fits {σ : Type} (n : Node σ) : Prop :=
  n.Filled ∧ n.Weighs

variable {H : Type}

/-- **The rule fits:** its selector answers with its candidates, and all nodes of these fit. -/
def Rule.Fits (rule : Rule H) : Prop :=
  rule.selector.InRange rule.candidates.length ∧ rule.Every Node.Fits

/-- The rules that an expansion is given fit. -/
def Setting.Fits (s : Setting H) : Prop :=
  ∀ (name : String) (rule : Rule H), s.rules[name]? = some rule → rule.Fits

/-- Bags are sound, and rules of the run fit. -/
structure World.Fits (w : World H) : Prop where
  bags : w.chance.bags.Sound
  runtime : ∀ (name : String) (rule : Rule H), w.runtime[name]? = some rule → rule.Fits

/-- The selector of every tag answers with its values. -/
def World.TagsFit (w : World H) : Prop :=
  w.tags.All fun tag => tag.selector.InRange tag.values.length

namespace World

variable {s : Setting H} {w : World H}

theorem Fits.pick (h : w.Fits) (chooser : Chooser) (selector : Selector H) (count : Nat) :
    (w.pick chooser selector count).2.Fits :=
  ⟨h.bags.pick selector count, h.runtime⟩

theorem Fits.define (h : w.Fits) {name : String} {values : List (List (Node BagId))}
    (hgood : Node.Fits (.define name values)) (hvalues : ∀ v ∈ values, Node.Every Node.Fits v) :
    (w.define name values).Fits := by
  refine ⟨h.bags, World.define_keeps ⟨?_, Rule.every_of_values hvalues _⟩ h.runtime⟩
  show (Selector.default values _ : Selector H).InRange (values.map (Candidate.mk "")).length
  rw [List.length_map]
  exact Selector.inRange_default _ hgood.1 hgood.2

/-- **Bags stay sound and rules of the run go on to fit,** where the nodes do. -/
theorem kept_fits (hs : s.Fits) : World.Kept s Node.Fits World.Fits where
  text _ := ⟨trivial, trivial⟩
  say _ h := ⟨h.bags, h.runtime⟩
  freshBag h := ⟨h.bags, h.runtime⟩
  call _ _ _ _ h := ⟨h.bags, h.runtime⟩
  leave _ h := ⟨h.bags, h.runtime⟩
  readTag h _ := h.pick _ _ _
  runtimeRule h hget := ⟨h.pick _ _ _, (h.runtime _ _ hget).2⟩
  tableRule h hget := ⟨h.pick _ _ _, (hs _ _ hget).2⟩
  choice h _ := h.pick _ _ _
  setTag texts h _ _ _ := by
    unfold World.setTag
    split <;> exact ⟨h.bags, h.runtime⟩
  define h hgood hvalues := h.define hgood hvalues

end World

/-! ### What is fair to note -/

/-- **Nothing was missed:** a pick is one of so many, a name that was left was not defined, and a
choice found a value. -/
def Entry.Fair : Entry → Prop
  | .pick _ count index => index < count
  | .notice (.leftAsWritten _ obstacle) => obstacle = .notDefined
  | .notice .choiceMissed => False
  | _ => True

/-- All that was noted since some journal is fair. -/
def World.Fair (j : Journal) (w : World H) : Prop :=
  ∃ new, w.journal = new ++ j ∧ ∀ entry ∈ new, entry.Fair

namespace World

variable {s : Setting H} {w w' : World H} {j : Journal}

theorem Fair.more (h : w.Fair j) (more : Journal) (hw : w'.journal = more ++ w.journal)
    (hmore : ∀ entry ∈ more, entry.Fair) : w'.Fair j := by
  obtain ⟨new, hj, hnew⟩ := h
  refine ⟨more ++ new, by rw [hw, hj, List.append_assoc], fun entry hentry => ?_⟩
  rcases List.mem_append.mp hentry with hentry | hentry
  · exact hmore entry hentry
  · exact hnew entry hentry

theorem Fair.say (h : w.Fair j) {n : Notice} (hn : (Entry.notice n).Fair) : (w.say n).Fair j :=
  h.more [.notice n] rfl fun _ hentry => List.mem_singleton.mp hentry ▸ hn

theorem Fair.sayUnknown (h : w.Fair j) (mods : List (Modifier BagId)) :
    (Machine.sayUnknown s mods w).Fair j := by
  refine List.foldlRecOn (motive := fun w : World H => w.Fair j) _ World.say h fun w hw n hn =>
    Fair.say hw ?_
  obtain ⟨mod, -, rfl⟩ := List.mem_map.mp hn
  trivial

theorem Fair.pick (h : w.Fair j) {chooser : Chooser} {selector : Selector H} {count : Nat}
    (hit : (w.pick chooser selector count).1 < count) : (w.pick chooser selector count).2.Fair j :=
  h.more [.pick chooser count (w.pick chooser selector count).1] rfl fun _ hentry =>
    List.mem_singleton.mp hentry ▸ hit

theorem Fair.setTag (h : w.Fair j) (level : Nat) (name : String) (values : List String)
    (selector : Selector H) : (w.setTag level name values selector).Fair j := by
  unfold World.setTag
  split
  · refine h.more [.setTag level name values, .notice (.tagSet name values),
      .notice (.tagReplaced name)] rfl ?_
    simp [Entry.Fair]
  · refine h.more [.setTag level name values, .notice (.tagSet name values)] rfl ?_
    simp [Entry.Fair]

theorem Fair.define (h : w.Fair j) (name : String) (values : List (List (Node BagId))) :
    (w.define name values).Fair j := by
  unfold World.define
  split
  · refine h.more [.define name values.length, .notice (.runtimeRuleReplaced name)] rfl ?_
    simp [Entry.Fair]
  · refine h.more [.define name values.length, .notice (.runtimeRuleAdded name)] rfl ?_
    simp [Entry.Fair]

theorem Fair.call (h : w.Fair j) (m : Method H) (name text : String) (args : List String) :
    (w.call m name text args).2.Fair j := by
  refine h.more [.call name text args, .notice (.modifierRun name text args)] rfl ?_
  simp [Entry.Fair]

/-! ### What a name stands for -/

/-- **A rule that fits** stands for one of its candidates. -/
theorem resolveRule_of_fits (hw : w.Fits) {rule : Rule H} (hrule : rule.Fits) (chooser : Chooser) :
    (∃ c ∈ rule.candidates, (w.resolveRule chooser rule).1 = .nodes c.nodes true) ∧
      (w.Fair j → (w.resolveRule chooser rule).2.Fair j) := by
  have hit : (w.pick chooser rule.selector rule.candidates.length).1 < rule.candidates.length :=
    hrule.1 w.chance hw.bags
  unfold World.resolveRule
  dsimp only
  rw [List.getElem?_eq_getElem hit]
  exact ⟨⟨_, List.getElem_mem hit, rfl⟩, fun h => h.pick hit⟩

/-- **Where everything fits,** a name stands for something, or there is nothing under it anywhere;
and what is noted is fair. -/
theorem resolve_of_fits (hs : s.Fits) (hw : w.Fits) (htags : w.TagsFit) (level : Nat)
    (name : String) : ((∃ nodes deepens, (w.resolve s level name).1 = .nodes nodes deepens) ∨
      (w.resolve s level name = (.stuck .notDefined, w) ∧ w.tags.get? level name = none ∧
        s.objects[name]? = none ∧ w.runtime[name]? = none ∧ s.rules[name]? = none)) ∧
    (w.Fair j → (w.resolve s level name).2.Fair j) := by
  unfold World.resolve
  split
  · exact ⟨.inl ⟨_, _, rfl⟩, id⟩
  · cases htag : w.tags.get? level name with
    | some tag =>
      have hit : (w.pick (.tag name) tag.selector tag.values.length).1 < tag.values.length :=
        htags level name tag htag w.chance hw.bags
      dsimp only
      rw [List.getElem?_eq_getElem hit]
      exact ⟨.inl ⟨_, _, rfl⟩, fun h => (h.pick hit).say trivial⟩
    | none =>
      cases hobject : s.objects[name]? with
      | some value => exact ⟨.inl ⟨_, _, rfl⟩, id⟩
      | none =>
        cases hruntime : w.runtime[name]? with
        | some rule =>
          obtain ⟨⟨c, -, hc⟩, hfair⟩ := resolveRule_of_fits hw (hw.runtime name rule hruntime)
            (.runtimeRule name)
          exact ⟨.inl ⟨_, _, hc⟩, hfair⟩
        | none =>
          cases hrule : s.rules[name]? with
          | some rule =>
            obtain ⟨⟨c, -, hc⟩, hfair⟩ := resolveRule_of_fits hw (hs name rule hrule) (.rule name)
            exact ⟨.inl ⟨_, _, hc⟩, hfair⟩
          | none => exact ⟨.inr ⟨rfl, rfl, rfl, rfl, rfl⟩, id⟩

end World

namespace Machine

variable {s : Setting H} {w : World H} {j : Journal}

/-- **What a good instruction notes is fair.** -/
theorem fair_worldAfter (hs : s.Fits) (hw : w.Fits) (htags : w.TagsFit) (h : w.Fair j)
    {i : Instr H} {k : Nat} (hi : i.Every Node.Fits k) (level : Nat) (text : String)
    (args : List String) :
    (worldAfter s level text args i w).Fair j := by
  cases i with
  | node n =>
    cases n with
    | rule name mods =>
      obtain ⟨hfound, hfair⟩ := World.resolve_of_fits (j := j) hs hw htags level name
      replace hfair := hfair h
      rw [worldAfter]
      rcases hr : w.resolve s level name with ⟨resolution, w'⟩
      rw [hr] at hfound hfair
      cases resolution with
      | nodes nodes deepens => exact hfair.sayUnknown mods
      | stuck obstacle =>
        rcases hfound with ⟨nodes, deepens, hnodes⟩ | ⟨hstuck, -⟩
        · cases hnodes
        · obtain ⟨hobstacle, -⟩ := Prod.mk.inj hstuck
          exact hfair.say (Resolution.stuck.inj hobstacle)
    | choice site values mods =>
      have hgood : Node.Fits (.choice site values mods) := hi.here _ List.mem_cons_self
      have hit : (w.pick .inline (.default values site) values.length).1 < values.length :=
        Selector.inRange_default site hgood.1 hgood.2 w.chance hw.bags
      rw [worldAfter]
      dsimp only
      rw [List.getElem?_eq_getElem hit]
      exact (h.pick hit).sayUnknown mods
    | define name values => exact h.define name values
    | tag name values => exact h.more [] rfl (by simp)
    | text text => exact h
    | weight k => exact h
    | ifBlock c yes no => exact h
    | whileBlock c body => exact h
  | evaluate nodes => exact h
  | clearArguments => exact h
  | modify name =>
    rw [worldAfter]
    split
    · exact h.say trivial
    · exact h.call _ _ _ _
  | setTag name selector => exact h.setTag _ _ _ _
  | branch op yes no =>
    rw [worldAfter]
    split
    · exact h
    · exact h.say trivial
    · exact h.say trivial

/-- **Tags go on to fit,** if a tag that is set gets as many values as its selector is for. -/
theorem tagsFit_worldAfter (htags : w.TagsFit) {i : Instr H} (level : Nat) (text : String)
    {args : List String} (hset : ∀ name selector, i = .setTag name selector →
      selector.InRange args.length) :
    (worldAfter s level text args i w).TagsFit := by
  have hsame : ∀ {w' : World H}, w'.tags = w.tags → w'.TagsFit := fun hw => by
    unfold World.TagsFit
    rw [hw]
    exact htags
  cases i with
  | node n =>
    cases n with
    | rule name mods =>
      have hresolve := World.tags_resolve s level name w
      rw [worldAfter]
      rcases hr : w.resolve s level name with ⟨resolution, w'⟩
      rw [hr] at hresolve
      cases resolution with
      | nodes nodes deepens => exact hsame ((World.tags_sayAll _ _).trans hresolve)
      | stuck obstacle => exact hsame hresolve
    | choice site values mods =>
      rw [worldAfter]
      dsimp only
      split
      · exact hsame (World.tags_sayAll _ _)
      · exact hsame rfl
    | _ => exact hsame rfl
  | modify name =>
    rw [worldAfter]
    split <;> exact hsame rfl
  | setTag name selector =>
    show (w.setTag level name args selector).TagsFit
    unfold World.TagsFit
    rw [World.tags_setTag]
    exact htags.store level name (hset name selector rfl)
  | branch op yes no =>
    rw [worldAfter]
    split <;> exact hsame rfl
  | evaluate nodes => exact htags
  | clearArguments => exact htags

/-! ### On the way of an expansion -/

section Way

variable {nodes : List (Node BagId)} {m m₀ m₁ : Machine H} (hs : s.Fits)
  (hn : Node.Every Node.Fits nodes) (hw : m.world.Fits)

include hs hn hw

/-- **A tag gets as many values as its selector is for:** the selector was made for the values of a
node, and as many texts have been collected since. -/
theorem inRange_of_setTag (hb : m.begin s nodes = .go m₀) (hr : Reaches s m₀ m₁) {top : Frame H}
    {below : List (Frame H)} {name : String} {selector : Selector H} {rest : List (Instr H)}
    (hf : m₁.frames.toList = top :: below) (hp : top.pending = .setTag name selector :: rest) :
    selector.InRange top.arguments.length := by
  have root : m₀.Stands (m.world.leave 1) 1 [Held.nothing.frame (work nodes) .append true] :=
    (begin_eq_go hb).2.2
  have stands : m₁.Stands m₁.world m₁.level ((Held.mk top.result top.arguments).frame
      top.pending top.handover top.deepens :: below) := ⟨rfl, rfl, hf⟩
  obtain ⟨t, w₀, done, hentered⟩ := (arises_of_reaches root hr).entered root stands
  obtain ⟨values, caller, hexpanding, rfl, hargs⟩ := hentered.findsArguments_setTag hp
  obtain ⟨parent, lower, -, hcaller⟩ := hexpanding.next
  -- the node is one that was about to be expanded, so it fits
  have hwork := ((World.kept_fits hs).holds_of_reaches hn hw hb hexpanding.reached).work
  rw [hcaller] at hwork
  have hnode : Node.Every Node.Fits [Node.tag name values] :=
    hwork _ List.mem_cons_self (.node (.tag name values)) List.mem_cons_self
  have hgood : Node.Fits (.tag name values) := hnode.here _ List.mem_cons_self
  have hlength : top.arguments.length = values.length := Direct.length_of_arguments hargs
  rw [hlength]
  exact Selector.inRange_default _ hgood.1 hgood.2

variable {j : Journal}

theorem hits_worldAfter (hb : m.begin s nodes = .go m₀) (hr : Reaches s m₀ m₁) {top : Frame H}
    {below : List (Frame H)} {i : Instr H} {rest : List (Instr H)}
    (hf : m₁.frames.toList = top :: below) (hp : top.pending = i :: rest)
    (h : m₁.world.TagsFit ∧ m₁.world.Fair j) :
    (worldAfter s m₁.level top.result top.arguments i m₁.world).TagsFit ∧
      (worldAfter s m₁.level top.result top.arguments i m₁.world).Fair j := by
  obtain ⟨hworld, hwork⟩ := (World.kept_fits hs).holds_of_reaches hn hw hb hr
  rw [hf] at hwork
  have hi : i.Every Node.Fits m₁.world.issued :=
    hwork top List.mem_cons_self i (hp ▸ List.mem_cons_self)
  refine ⟨tagsFit_worldAfter h.1 _ _ ?_, fair_worldAfter hs hworld h.1 h.2 hi _ _ _⟩
  rintro name selector rfl
  exact inRange_of_setTag hs hn hw hb hr hf hp

variable (h : m.world.TagsFit ∧ m.world.Fair j)

include h

/-- **Wherever an expansion comes through,** tags fit, and all that was noted is fair. -/
theorem hits_reaches (hb : m.begin s nodes = .go m₀) (hr : Reaches s m₀ m₁) :
    m₁.world.TagsFit ∧ m₁.world.Fair j := by
  have leave : ∀ (w : World H) (level : Nat), 1 ≤ level → w.TagsFit ∧ w.Fair j →
      (w.leave level).TagsFit ∧ (w.leave level).Fair j := fun w level _ h => ⟨h.1.leave level, h.2⟩
  refine keeps_reaches leave ?_ h hb hr
  exact fun m₀ m₁ top below i rest hb hr hf hp h => hits_worldAfter hs hn hw hb hr hf hp h

/-- **After an expansion** tags fit, and all that was noted is fair. -/
theorem hits_expand : (m.expand s nodes).2.world.TagsFit ∧ (m.expand s nodes).2.world.Fair j := by
  have limit : ∀ (w : World H) (n : Notice), n.IsLimit → w.TagsFit ∧ w.Fair j →
      (w.say n).TagsFit ∧ (w.say n).Fair j := by
    intro w n hlimit h
    refine ⟨h.1, h.2.say ?_⟩
    cases n with
    | frameLimit => trivial
    | levelLimit level => trivial
    | _ => cases hlimit
  have leave : ∀ (w : World H) (level : Nat), 1 ≤ level → w.TagsFit ∧ w.Fair j →
      (w.leave level).TagsFit ∧ (w.leave level).Fair j := fun w level _ h => ⟨h.1.leave level, h.2⟩
  refine keeps_expand limit leave ?_ h
  exact fun m₀ m₁ top below i rest hb hr hf hp h => hits_worldAfter hs hn hw hb hr hf hp h

end Way

end Machine

end TemplateGrammar
