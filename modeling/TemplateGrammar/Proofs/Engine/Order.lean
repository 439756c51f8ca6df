import TemplateGrammar.Proofs.Engine.Concord
import TemplateGrammar.Proofs.Rules.Order

/-!
# Registering in another order

Engines are twins if expansions are given the same on both and their worlds are twins; they may
differ in what their journals hold.  Twins answer one call after another alike, whether the calls
keep what earlier ones left or not (`Twin.answers`).

Rules that are registered on an engine go into its table, and what is said of them into its journal
(`exists_foldl_offerRule`).  In another order they make the same table, so the engines are twins:
names, candidates and findings are the same, and so are the results of all calls
(`order_of_registration`).
-/

namespace TemplateGrammar

variable {H : Type}

theorem World.Twin.forget {j k : Journal} {w v : World H} (h : World.Twin j k w v) :
    World.Twin j k w.forget v.forget := by
  refine ⟨congrArg TagStore.clear h.tags, rfl, ⟨fun id => ?_, rfl, h.chance.random, h.chance.host⟩,
    h.journal⟩
  show w.chance.bags.settle.get id = v.chance.bags.settle.get id
  rw [Bags.get_settle, Bags.get_settle, h.chance.bags]

theorem World.twin_sayAll (w : World H) (ns ms : List Notice) :
    World.Twin (w.sayAll ns).journal (w.sayAll ms).journal (w.sayAll ns) (w.sayAll ms) := by
  rw [World.sayAll_eq, World.sayAll_eq]
  exact ⟨rfl, rfl, ⟨fun _ => rfl, rfl, rfl, rfl⟩, [], rfl, rfl⟩

namespace Engine

/-- **Twins:** engines that differ at most in what their journals, now gone on alike, held before,
and in the frames that stand on their machines. -/
structure Twin (j k : Journal) (e f : Engine H) : Prop where
  setting : f.setting = e.setting
  world : World.Twin j k e.machine.world f.machine.world

namespace Twin

variable {j k : Journal} {e f : Engine H}

theorem beginning (h : Twin j k e f) (keep : Bool) : World.Twin j k (e.beginning keep)
    (f.beginning keep) := by
  cases keep with
  | true => exact h.world
  | false => exact h.world.forget

/-- **Twins answer a call alike,** and twins they remain. -/
theorem call (h : Twin j k e f) (text : String) (keep : Bool) :
    (e.tryExpand text keep).1 = (f.tryExpand text keep).1 ∧
      Twin j k (e.tryExpand text keep).2 (f.tryExpand text keep).2 := by
  obtain ⟨hresult, hworld⟩ := related_tryExpand h.setting
    (alike_evaluated (World.respected_twin j k) twin_takeUp e.setting text (h.beginning keep))
  refine ⟨hresult, ?_, hworld⟩
  rw [setting_tryExpand, setting_tryExpand]
  exact h.setting

/-- **Twins answer all calls alike,** by induction on the calls. -/
theorem answers (h : Twin j k e f) (calls : List (String × Bool)) :
    e.answers calls = f.answers calls := by
  induction calls generalizing e f with
  | nil => rfl
  | cons call calls ih =>
    obtain ⟨hresult, hnext⟩ := h.call call.1 call.2
    rw [Engine.answers, Engine.answers, hresult, ih hnext]

end Twin

/-! ### Registering rules -/

theorem sayAll_append (e : Engine H) (ns ms : List Notice) :
    e.sayAll (ns ++ ms) = (e.sayAll ns).sayAll ms :=
  congrArg (fun w => { e with machine := { e.machine with world := w } }) (List.foldl_append ..)

/-- **Rules that are offered** go into the table, and what is said of them into the journal. -/
theorem exists_foldl_offerRule (e : Engine H) (rules : List (String × Definition H)) :
    ∃ ns, rules.foldl offerRule e = { e with rules := e.rules.registered rules }.sayAll ns := by
  induction rules generalizing e with
  | nil => exact ⟨[], rfl⟩
  | cons r rest ih =>
    obtain ⟨ns, hns⟩ := ih (e.offerRule r)
    refine ⟨(e.rules.add r.1 r.2).notices ++ ns, ?_⟩
    rw [List.foldl_cons, hns, sayAll_append]
    rfl

/-- **Registration order makes no difference.**  Let rules of different names be registered on a
table, in one order and in another.  Then the tables have the same names, for each name the same
candidates, and the same findings in the same order.  And an engine on which they are registered, in
either order, answers all calls that follow alike. -/
theorem order_of_registration {rules rules' : List (String × Definition H)}
    (hnames : (rules.map Prod.fst).Nodup) (hperm : rules.Perm rules') :
    (∀ t : RuleTable H,
      (t.registered rules).names = (t.registered rules').names ∧
      (∀ name, (t.registered rules).candidates name = (t.registered rules').candidates name) ∧
      (∀ flatTags, (t.registered rules).inspect flatTags = (t.registered rules').inspect flatTags) ∧
      (t.registered rules).unresolved = (t.registered rules').unresolved) ∧
    ∀ (e : Engine H) (calls : List (String × Bool)),
      (rules.foldl offerRule e).answers calls = (rules'.foldl offerRule e).answers calls := by
  have htable : ∀ t : RuleTable H, t.registered rules = t.registered rules' :=
    fun t => t.registered_of_perm hnames hperm
  refine ⟨fun t => ?_, fun e calls => ?_⟩
  · rw [htable t]
    exact ⟨rfl, fun _ => rfl, fun _ => rfl, rfl⟩
  · obtain ⟨ns, hns⟩ := e.exists_foldl_offerRule rules
    obtain ⟨ms, hms⟩ := e.exists_foldl_offerRule rules'
    rw [hns, hms, ← htable]
    have htwin : Twin _ _ ({ e with rules := e.rules.registered rules }.sayAll ns)
        ({ e with rules := e.rules.registered rules }.sayAll ms) :=
        ⟨rfl, e.machine.world.twin_sayAll ns ms⟩
    exact htwin.answers calls

/-- Rules that mention each other, one with a text that is no template, and one whose name is not
valid. -/
def mutualRules : List (String × Definition Unit) :=
  [("a", .list ["#b#", "#q#", "[b"]), ("b", .list ["x#a#", "y", "z"]), ("[", .text "n")]

/-- The other way round, the rules make a table with the same cycle, and all calls are answered
alike. -/
theorem order_of_mutualRules :
    (mutualRules.map Prod.fst).Nodup ∧ mutualRules.Perm mutualRules.reverse ∧
      ((.empty : RuleTable Unit).registered mutualRules).inspect true = [.cycle ["a", "b"]] ∧
      ((.empty : RuleTable Unit).registered mutualRules.reverse).inspect true =
        [.cycle ["a", "b"]] ∧
      ∀ calls, (mutualRules.foldl offerRule untouched).answers calls =
        (mutualRules.reverse.foldl offerRule untouched).answers calls := by
  have hnames : (mutualRules.map Prod.fst).Nodup := by decide
  have hperm : mutualRules.Perm mutualRules.reverse := (List.reverse_perm mutualRules).symm
  have hcycle : ((.empty : RuleTable Unit).registered mutualRules).inspect true =
      [.cycle ["a", "b"]] := by
    decide +kernel
  obtain ⟨htables, hanswers⟩ := order_of_registration hnames hperm
  exact ⟨hnames, hperm, hcycle, ((htables .empty).2.2.1 true).symm.trans hcycle, hanswers untouched⟩

end Engine

end TemplateGrammar
