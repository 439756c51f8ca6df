import TemplateGrammar.Proofs.Engine.News
import TemplateGrammar.Proofs.Rules.Editions

/-!
# The rounds of a rule, over a whole history

The candidates of a rule with the selector it gets by default come out of a bag that was made when
the rule was registered.  Nothing else picks from this bag.  An engine on which a host uses only
selectors that it can have got holds none that picks from the bag of a registration to come
(`Orderly`); and from the registration on the bag is the rule's alone, as long as the host gives the
rule's selector to no other rule (`Deals`).  So all picks for the rule, in calls that keep what
there is and in calls that forget it, in calls that come to a text and in calls that are broken off,
go in rounds, each of which has every candidate once (`rounds_of_rule`).
-/

namespace TemplateGrammar

variable {H : Type}

theorem Journal.picksOf_note (entry : Entry) (j : Journal) {who : Chooser}
    (h : ∀ count i, entry ≠ .pick who count i) :
    Journal.picksOf (entry :: j) who = j.picksOf who := by
  have hnone : Journal.picksOf [entry] who = [] := by
    cases entry with
    | pick chooser count i =>
      have hne : ¬chooser = who := fun he => h count i (by rw [he])
      simp [picksOf, hne]
    | _ => rfl
  rw [← List.singleton_append, picksOf_append, hnone, List.append_nil]

theorem Journal.picksOf_pick (who : Chooser) (count i : Nat) (j : Journal) :
    Journal.picksOf (.pick who count i :: j) who = j.picksOf who ++ [i] := by
  rw [← List.singleton_append, picksOf_append]
  simp [picksOf]

theorem Journal.picksOf_notices (ns : List Notice) (who : Chooser) :
    Journal.picksOf (ns.map Entry.notice).reverse who = [] := by
  rw [picksOf, List.reverse_reverse]
  induction ns with
  | nil => rfl
  | cons n ns ih => exact ih

namespace Engine

/-! ### Fair hosts -/

/-- The rule that something done to an engine is about. -/
def Act.about? : Act H → Option String
  | .addRule name _ | .removeRule name | .setSelector name _ => some name
  | _ => none

/-- The selector that a host brings along. -/
def Act.brought? : Act H → Option (Selector H)
  | .addRule _ d => d.selector?
  | .setSelector _ s => some s
  | _ => none

/-- **A fair host** brings no selector that picks from the bag of a registration to come. -/
def Act.Fair (e : Engine H) (a : Act H) : Prop :=
  ∀ s, a.brought? = some s → ∀ name k, s.bag? = some (.ofRule name k) → k < e.rules.edition name

/-- **An engine of a fair host.** -/
inductive Fair : Engine H → Prop
  | start (options : Options) (random : Random) (host : H) : Fair (.start options random host)
  | built {p : Plan H} {files : FileTree} {entropy : UInt64} {host : H} {e : Engine H}
      (h : p.build files entropy host = (.ok (), e))
      (brought : ∀ r ∈ p.rules, ∀ s, r.2.selector? = some s →
        ∀ name k, s.bag? ≠ some (.ofRule name k)) : Fair e
  | act {e : Engine H} (h : Fair e) (a : Act H) (ha : a.Fair e) : Fair (e.act a)

/-- **A rule is spared** by what is not about it, and does not give its selector to another rule. -/
def Act.Spares (name : String) (selector : Selector H) (a : Act H) : Prop :=
  a.about? ≠ some name ∧ ∀ s, a.brought? = some s → s.bag? ≠ selector.bag?

/-- The indices that are picked for one who asks, while one thing after another is done. -/
def picksDuring (who : Chooser) : Engine H → List (Act H) → List Nat
  | _, [] => []
  | e, a :: acts => (e.news a).picksOf who ++ picksDuring who (e.act a) acts

/-! ### What a call keeps -/

/-- No tag, no rule of the run and no inline choice of a rule picks from the bag of a rule. -/
structure Apart (e : Engine H) : Prop where
  rules : ∀ name rule, e.rules.get? name = some rule → rule.Every Node.OwnBag
  world : e.machine.world.Apart

variable {e : Engine H}

theorem Apart.beginning (h : e.Apart) (keep : Bool) : (e.beginning keep).Apart := by
  cases keep with
  | true => exact h.world
  | false => exact .forget _

theorem get_bags_beginning (e : Engine H) (keep : Bool) {id : BagId} (hid : id.isRule = true) :
    (e.beginning keep).chance.bags.get id = e.machine.world.chance.bags.get id := by
  cases keep with
  | true => rfl
  | false =>
    have hfresh : id.isFresh = false := by
      cases id with
      | fresh n => cases hid
      | _ => rfl
    show e.machine.world.chance.bags.settle.get id = _
    rw [Bags.get_settle, hfresh]
    rfl

/-- **What is watched of the bag of a rule is kept by calls,** and so is what is apart. -/
theorem Apart.call (h : e.Apart) {id : BagId} {Q : Bag → Journal → Prop}
    (hQ : Watches e.setting id Q) (hbag : Q (e.machine.world.chance.bags.get id) e.journal)
    (text : String) (keep : Bool) :
    (e.act (.expand text keep)).machine.world.Watched id Q := by
  have hbegun : (e.beginning keep).Watched id Q := by
    refine ⟨h.beginning keep, ?_⟩
    rw [get_bags_beginning e keep hQ.owned]
    cases keep <;> exact hbag
  rw [world_call]
  exact hQ.evaluated hbegun text

/-! ### What is done beside calls -/

theorem Apart.world_act (h : e.Apart) {a : Act H} (ha : ∀ text keep, a ≠ .expand text keep) :
    (e.act a).machine.world.Apart := by
  rcases e.world_act ha with ⟨ns, hw⟩ | hw
  · rw [hw, World.sayAll_eq]
    exact h.world.of_eq rfl rfl
  · rw [hw]
    exact h.world.of_eq rfl rfl

/-- **A rule after something was done** was there before, or it was defined, or it is one that was
there with another selector. -/
theorem get?_act_cases {a : Act H} {name : String} {rule : Rule H}
    (hrule : (e.act a).rules.get? name = some rule) :
    e.rules.get? name = some rule ∨
      (∃ d, a = .addRule name d ∧ (e.rules.add name d).result = .ok () ∧
        rule = e.rules.defined name d) ∨
      ∃ s old, a = .setSelector name s ∧ e.rules.get? name = some old ∧
      rule = { old with selector := s } := by
  cases a with
  | expand text keep =>
    obtain ⟨m, hm⟩ := e.given_call text keep
    rw [hm] at hrule
    exact .inl hrule
  | addRule other d =>
    replace hrule : (e.rules.add other d).table.get? name = some rule := hrule
    rcases e.rules.add_cases other d with ⟨-, ht⟩ | ⟨hdone, ht⟩
    · rw [ht] at hrule
      exact .inl hrule
    · rw [ht] at hrule
      rcases RuleTable.get?_insert hrule with ⟨rfl, rfl⟩ | ⟨-, hrule⟩
      · exact .inr (.inl ⟨d, rfl, hdone, rfl⟩)
      · exact .inl hrule
  | removeRule other => exact .inl (RuleTable.get?_remove hrule)
  | setSelector other s =>
    replace hrule : (e.setSelector other s).2.rules.get? name = some rule := hrule
    unfold Engine.setSelector at hrule
    unfold RuleTable.setSelector at hrule
    cases hold : e.rules.get? other with
    | none =>
      rw [hold] at hrule
      exact .inl hrule
    | some old =>
      rw [hold] at hrule
      rcases RuleTable.get?_insert hrule with ⟨rfl, rfl⟩ | ⟨-, hrule⟩
      · exact .inr (.inr ⟨s, old, rfl, hold, rfl⟩)
      · exact .inl hrule
  | addMethod kind other m => exact .inl hrule
  | addObject other value => exact .inl hrule
  | removeObject other => exact .inl hrule
  | takeNotices => exact .inl hrule

/-- If it was not there before, its selector was brought, or picks from the bag of the edition or
from none. -/
theorem get?_act (h : e.Apart) {a : Act H} {name : String} {rule : Rule H}
    (hrule : (e.act a).rules.get? name = some rule) :
    e.rules.get? name = some rule ∨ (a.about? = some name ∧ rule.Every Node.OwnBag ∧
      (a.brought? = some rule.selector ∨ ∀ id, rule.selector.bag? = some id →
        id = .ofRule name (e.rules.edition name) ∧
        e.rules.edition name < (e.act a).rules.edition name)) := by
  rcases get?_act_cases hrule with hold | ⟨d, rfl, hdone, rfl⟩ | ⟨s, old, rfl, hold, rfl⟩
  · exact .inl hold
  · refine .inr ⟨rfl, e.rules.apart_defined name d, ?_⟩
    rcases e.rules.bag?_defined name d with hs | hs
    · exact .inl hs
    · refine .inr fun id hid => ?_
      have hedition : (e.act (.addRule name d)).rules.edition name = e.rules.edition name + 1 := by
        rcases e.rules.add_cases name d with ⟨hrefused, -⟩ | ⟨-, ht⟩
        · exact absurd hdone hrefused
        · show (e.rules.add name d).table.edition name = _
          rw [ht, RuleTable.edition_insert, if_pos rfl]
      exact ⟨hs id hid, by omega⟩
  · exact .inr ⟨rfl, h.rules name old hold, .inl rfl⟩

theorem get?_act_of_ne (e : Engine H) {a : Act H} {name : String} (ha : a.about? ≠ some name) :
    (e.act a).rules.get? name = e.rules.get? name := by
  cases a with
  | expand text keep =>
    obtain ⟨m, hm⟩ := e.given_call text keep
    rw [hm]
  | addRule other d =>
    have hne : name ≠ other := fun he => ha (congrArg some he.symm)
    show (e.rules.add other d).table.get? name = _
    rcases e.rules.add_cases other d with ⟨-, ht⟩ | ⟨-, ht⟩
    · rw [ht]
    · rw [ht, RuleTable.get?_insert_of_ne _ hne]
  | removeRule other =>
    have hne : name ≠ other := fun he => ha (congrArg some he.symm)
    exact RuleTable.get?_remove_of_ne _ hne
  | setSelector other s =>
    have hne : name ≠ other := fun he => ha (congrArg some he.symm)
    show (e.setSelector other s).2.rules.get? name = _
    unfold Engine.setSelector RuleTable.setSelector
    cases e.rules.get? other with
    | none => rfl
    | some old => exact RuleTable.get?_insert_of_ne _ hne _ _
  | addMethod kind other m => rfl
  | addObject other value => rfl
  | removeObject other => rfl
  | takeNotices => rfl

theorem edition_le_act (e : Engine H) (a : Act H) (name : String) :
    e.rules.edition name ≤ (e.act a).rules.edition name := by
  cases a with
  | expand text keep =>
    obtain ⟨m, hm⟩ := e.given_call text keep
    exact hm ▸ Nat.le_refl _
  | addRule other d => exact e.rules.edition_le_add other name d
  | setSelector other s =>
    show _ ≤ (e.setSelector other s).2.rules.edition name
    unfold Engine.setSelector RuleTable.setSelector
    cases e.rules.get? other <;> exact Nat.le_refl _
  | _ => exact Nat.le_refl _

theorem Apart.act (h : e.Apart) (a : Act H) : (e.act a).Apart := by
  refine ⟨?_, ?_⟩
  · intro name rule hrule
    rcases get?_act h hrule with hold | ⟨-, hapart, -⟩
    · exact h.rules name rule hold
    · exact hapart
  · rcases a.call_or with ⟨text, keep, rfl⟩ | ha
    · -- any bag will do, and nothing need be said of it
      have hQ : Watches e.setting (.ofRule "" 0) fun _ _ => True :=
        ⟨rfl, fun _ _ _ => trivial, h.rules, fun _ _ _ => trivial⟩
      exact (h.call hQ trivial text keep).apart
    · exact h.world_act ha

/-! ### Bags of registrations to come -/

/-- **Orderly:** rules pick from bags of registrations that have been, and the bags of those to come
have not been picked from. -/
structure Orderly (e : Engine H) : Prop extends Apart e where
  issued : ∀ name rule, e.rules.get? name = some rule →
    ∀ m k, rule.selector.bag? = some (.ofRule m k) →
    k < e.rules.edition m
  unpicked : ∀ m k, e.rules.edition m ≤ k →
    e.machine.world.chance.bags.get (.ofRule m k) = Bag.empty

/-- **A fair host leaves an orderly engine orderly.** -/
theorem Orderly.act (h : e.Orderly) {a : Act H} (ha : a.Fair e) : (e.act a).Orderly := by
  refine ⟨h.toApart.act a, ?_, ?_⟩
  · intro name rule hrule m k hbag
    have hle := e.edition_le_act a m
    rcases get?_act h.toApart hrule with hold | ⟨-, -, hs | hs⟩
    · have := h.issued name rule hold m k hbag
      omega
    · have := ha _ hs m k hbag
      omega
    · obtain ⟨hid, hlt⟩ := hs _ hbag
      obtain ⟨rfl, rfl⟩ := BagId.ofRule.inj hid
      exact hlt
  · intro m k hk
    have hle := e.edition_le_act a m
    have hempty := h.unpicked m k (Nat.le_trans hle hk)
    rcases a.call_or with ⟨text, keep, rfl⟩ | hne
    · have hQ : Watches e.setting (.ofRule m k) fun b _ => b = Bag.empty := by
        refine ⟨rfl, fun _ _ hb => hb, h.rules, ?_⟩
        intro name rule w hget hw
        have hne : rule.selector.bag? ≠ some (.ofRule m k) := by
          intro hbag
          have := h.issued name rule hget m k hbag
          omega
        exact (Selector.get_bags_pick hne _ _).trans hw
      exact (h.toApart.call hQ hempty text keep).bag
    · rw [bags_act e hne]
      exact hempty

theorem Orderly.sayAll (h : e.Orderly) (ns : List Notice) : (e.sayAll ns).Orderly := by
  have hworld : (e.sayAll ns).machine.world = e.machine.world.sayAll ns := rfl
  refine ⟨⟨h.rules, ?_⟩, h.issued, ?_⟩
  · rw [hworld, World.sayAll_eq]
    exact h.world.of_eq rfl rfl
  · rw [hworld, World.sayAll_eq]
    exact h.unpicked

theorem orderly_start (options : Options) (random : Random) (host : H) :
    (Engine.start options random host).Orderly := by
  have hnone : ∀ name, (Engine.start options random host).rules.get? name = none := by
    intro name
    simp [Engine.start, RuleTable.empty, RuleTable.get?]
  refine ⟨⟨?_, TagStore.all_empty _ _, ?_⟩, ?_, ?_⟩
  · intro name rule hrule
    rw [hnone] at hrule
    cases hrule
  · intro name rule hget
    simp [Engine.start, World.start] at hget
  · intro name rule hrule
    rw [hnone] at hrule
    cases hrule
  · intro m k _
    simp [Engine.start, World.start, Bags.empty, Bags.get]

/-- **The engines of a fair host are orderly.** -/
theorem orderly_of_fair (h : Fair e) : e.Orderly := by
  induction h with
  | start options random host => exact orderly_start options random host
  | built h brought =>
    refine Plan.build_keeps (fun e ns he => he.sayAll ns) ?_ ?_ ?_ (orderly_start _ _ _) h
    · intro e name texts he
      exact Orderly.act he (a := .addRule name (.list texts)) fun s hs => by cases hs
    · intro e r hr he
      refine Orderly.act he (a := .addRule r.1 r.2) ?_
      intro s hs name k hbag
      exact absurd hbag (brought r hr s hs name k)
    · intro e kind name m he
      exact Orderly.act he (a := .addMethod kind name m) fun s hs => by cases hs
  | act _ a ha ih => exact ih.act ha

/-! ### The bag of a rule -/

/-- **The bag is the rule's alone,** and so many picks have come out of it. -/
structure Deals (e : Engine H) (name : String) (rule : Rule H) (id : BagId)
    (picks : List Nat) : Prop extends Apart e where
  stands : e.rules.get? name = some rule
  selector : rule.selector = .bag id
  owned : ∃ k, id = .ofRule name k
  many : 0 < rule.candidates.length
  others : ∀ other rule', other ≠ name → e.rules.get? other = some rule' →
    rule'.selector.bag? ≠ some id
  dealt : (e.machine.world.chance.bags.get id).Dealt rule.candidates.length picks

/-- A rule that is registered, with several candidates and without weights, has a bag of its own. -/
theorem Orderly.deals (h : e.Orderly) {name : String} {d : Definition H}
    (hadd : (e.addRule name d).1 = .ok ()) (hd : d.selector? = none) {rule : Rule H}
    (hrule : (e.addRule name d).2.rules.get? name = some rule) (hmany : 2 ≤ rule.candidates.length)
    (hweight : ∀ c ∈ rule.candidates, Value.hasWeight c.nodes = false) :
    (e.addRule name d).2.Deals name rule (.ofRule name (e.rules.edition name)) [] := by
  have hact : (e.act (.addRule name d)).Orderly := by
    refine h.act ?_
    intro s hs
    replace hs : d.selector? = some s := hs
    rw [hd] at hs
    cases hs
  have htable : (e.addRule name d).2.rules =
      ⟨e.rules.rules.insert name (e.rules.defined name d),
        e.rules.editions.insert name (e.rules.edition name + 1)⟩ := by
    rcases e.rules.add_cases name d with ⟨hr, -⟩ | ⟨-, ht⟩
    · exact absurd hadd hr
    · exact ht
  obtain rfl : rule = e.rules.defined name d := by
    rw [htable, RuleTable.get?_insert_self] at hrule
    exact (Option.some.inj hrule).symm
  refine ⟨hact.toApart, hrule, e.rules.selector_defined hd hmany hweight, ⟨_, rfl⟩,
    by omega, ?_, ?_⟩
  · intro other rule' hne hget hbag
    rw [htable, RuleTable.get?_insert_of_ne _ hne] at hget
    have := h.issued other rule' hget name _ hbag
    omega
  · have hbags : (e.addRule name d).2.machine.world.chance.bags = e.machine.world.chance.bags :=
      e.bags_act (a := .addRule name d) fun _ _ he => by cases he
    rw [hbags, h.unpicked name _ (Nat.le_refl _)]
    exact Bag.dealt_empty _

variable {name : String} {rule : Rule H} {id : BagId} {picks : List Nat}

/-- What is watched of the bag during a call: that it goes on with the rounds, one pick for each
that is noted. -/
theorem Deals.watches (h : e.Deals name rule id picks) (j : Journal) :
    Watches e.setting id fun b journal => ∃ new, journal = new ++ j ∧
      b.Dealt rule.candidates.length (picks ++ new.picksOf (.rule name)) := by
  have howned : id.isRule = true := by
    obtain ⟨k, rfl⟩ := h.owned
    rfl
  refine ⟨howned, ?_, h.rules, ?_⟩
  · rintro b _ entry hentry ⟨new, rfl, hb⟩
    refine ⟨entry :: new, rfl, ?_⟩
    rwa [Journal.picksOf_note entry new (hentry name)]
  · rintro other rule' w hget ⟨new, hj, hb⟩
    let count := rule'.candidates.length
    have hjournal : (w.pick (.rule other) rule'.selector count).2.journal =
        .pick (.rule other) count (rule'.selector.pick count w.chance).1 :: new ++ j := by
      rw [List.cons_append, ← hj]
      rfl
    by_cases hname : other = name
    · -- a pick for the rule
      subst hname
      obtain rfl : rule' = rule := Option.some.inj (Eq.trans hget.symm h.stands)
      refine ⟨_, hjournal, ?_⟩
      obtain ⟨hindex, hbag⟩ := Selector.pick_bag id count w.chance
      rw [Journal.picksOf_pick, ← List.append_assoc, h.selector, hindex]
      show Bag.Dealt _ _ (((Selector.bag id).pick count w.chance).2.bags.get id)
      rw [hbag]
      exact hb.pick h.many _
    · refine ⟨_, hjournal, ?_⟩
      have hbag : (w.pick (.rule other) rule'.selector count).2.chance.bags.get id =
          w.chance.bags.get id :=
        Selector.get_bags_pick (h.others other rule' hname hget) count w.chance
      have hnote : ∀ n i, Entry.pick (.rule other) count (rule'.selector.pick count w.chance).1 ≠
          .pick (.rule name) n i := by
        intro n i he
        exact hname (Chooser.rule.inj (Entry.pick.inj he).1)
      rw [Journal.picksOf_note _ new hnote, hbag]
      exact hb

/-- **What is done deals on,** one pick for each that is noted. -/
theorem Deals.act (h : e.Deals name rule id picks) {a : Act H} (ha : a.Spares name rule.selector) :
    (e.act a).Deals name rule id (picks ++ (e.news a).picksOf (.rule name)) := by
  have hothers : ∀ other rule', other ≠ name → (e.act a).rules.get? other = some rule' →
      rule'.selector.bag? ≠ some id := by
    intro other rule' hne hget
    rcases get?_act h.toApart hget with hold | ⟨-, -, hs | hs⟩
    · exact h.others other rule' hne hold
    · have hbag := ha.2 _ hs
      rwa [h.selector] at hbag
    · intro hbag
      obtain ⟨hid, -⟩ := hs id hbag
      obtain ⟨k, rfl⟩ := h.owned
      exact hne (BagId.ofRule.inj hid).1.symm
  refine ⟨h.toApart.act a, ?_, h.selector, h.owned, h.many, hothers, ?_⟩
  · rw [get?_act_of_ne e ha.1]
    exact h.stands
  · rcases a.call_or with ⟨text, keep, rfl⟩ | hne
    · have hbegun : ∃ new, e.journal = new ++ e.journal ∧
          (e.machine.world.chance.bags.get id).Dealt rule.candidates.length
            (picks ++ Journal.picksOf new (.rule name)) := by
        refine ⟨[], rfl, ?_⟩
        show Bag.Dealt _ (picks ++ []) _
        rw [List.append_nil]
        exact h.dealt
      obtain ⟨new, hj, hb⟩ := (h.toApart.call (h.watches e.journal) hbegun text keep).bag
      have hnews : e.news (.expand text keep) = new := news_of_append hj
      rw [hnews]
      exact hb
    · obtain ⟨ns, hns⟩ := e.news_act hne
      rw [bags_act e hne, hns, Journal.picksOf_notices, List.append_nil]
      exact h.dealt

theorem Deals.after (h : e.Deals name rule id picks) {acts : List (Act H)}
    (hacts : ∀ a ∈ acts, a.Spares name rule.selector) :
    (e.after acts).Deals name rule id (picks ++ e.picksDuring (.rule name) acts) := by
  induction acts generalizing e picks with
  | nil =>
    rw [picksDuring, List.append_nil]
    exact h
  | cons a acts ih =>
    rw [picksDuring, ← List.append_assoc]
    exact ih (h.act (hacts a List.mem_cons_self)) fun b hb => hacts b (List.mem_cons_of_mem a hb)

/-- **The picks for a rule go in rounds,** from its registration on, whatever is done that spares
the rule. -/
theorem rounds_of_rule (he : Fair e) {d : Definition H} (hadd : (e.addRule name d).1 = .ok ())
    (hd : d.selector? = none) (hrule : (e.addRule name d).2.rules.get? name = some rule)
    (hmany : 2 ≤ rule.candidates.length)
    (hweight : ∀ c ∈ rule.candidates, Value.hasWeight c.nodes = false)
    {acts : List (Act H)} (hacts : ∀ a ∈ acts, a.Spares name rule.selector) :
    Rounds rule.candidates.length ((e.addRule name d).2.picksDuring (.rule name) acts) := by
  have hdeals := (orderly_of_fair he).deals hadd hd hrule hmany hweight
  exact (hdeals.after hacts).dealt.rounds

/-- **Shuffle bags are exact over whole histories.**  On the engine of a fair host, let a rule be
registered, without a selector of its own, that has `n` candidates, two or more, and no weights.
Whatever is done from then on that spares the rule, calls of any text, that keep what there is or
forget it, that come to a text or are broken off: the picks for the rule go in rounds, so that for
each `k` those with the numbers `k * n` up to `k * n + n - 1` pick every candidate once.  The same
is true of all who hold one bag that no one has picked from, as long as they ask about one number of
candidates, whoever else is asked in between. -/
theorem shuffle_exact :
    (∀ e : Engine H, Fair e → ∀ (name : String) (d : Definition H), (e.addRule name d).1 = .ok () →
      d.selector? = none → ∀ rule, (e.addRule name d).2.rules.get? name = some rule →
      2 ≤ rule.candidates.length →
      (∀ c ∈ rule.candidates, Value.hasWeight c.nodes = false) →
      ∀ acts : List (Act H), (∀ a ∈ acts, a.Spares name rule.selector) →
      ∀ k, (k + 1) * rule.candidates.length ≤
        ((e.addRule name d).2.picksDuring (.rule name) acts).length →
        ((((e.addRule name d).2.picksDuring (.rule name) acts).drop
          (k * rule.candidates.length)).take
          rule.candidates.length).Perm (List.range rule.candidates.length)) ∧
    ∀ (id : BagId) (n : Nat) (asked : List (Selector H × Nat)) (c : Chance H),
    c.bags.get id = Bag.empty → (∀ a ∈ asked, a.1.bag? = some id → a.2 = n) →
      ∀ k, (k + 1) * n ≤ (Selector.answersOf id asked c).length →
        (((Selector.answersOf id asked c).drop (k * n)).take n).Perm (List.range n) := by
  constructor
  · intro e he name d hadd hd rule hrule hmany hweight acts hacts
    exact rounds_of_rule he hadd hd hrule hmany hweight hacts
  · intro id n asked c hc hasked
    exact Selector.rounds_answersOf hasked hc

/-! ### A call that is broken off -/

/-- An engine with five levels, and no rules. -/
def fiveLevels : Engine Unit :=
  .start { maxLevel := 5, maxFrames := 20 } (.ofSeed 7) ()

/-- The engine with a rule of three candidates. -/
def threeCandidates : Engine Unit :=
  (fiveLevels.addRule "r" (.list ["x", "y", "z"])).2

/-- A rule that never ends refers to the first one on its way, and is called. -/
def brokenCall : List (Act Unit) :=
  [.addRule "u" (.text "#r##u#"), .expand "#u#" false]

theorem picks_brokenCall : threeCandidates.picksDuring (.rule "r") brokenCall = [2, 0, 1, 1] := by
  let e := threeCandidates.act (.addRule "u" (.text "#r##u#"))
  have hpicks : threeCandidates.picksDuring (.rule "r") brokenCall =
      (threeCandidates.news (.addRule "u" (.text "#r##u#"))).picksOf (.rule "r") ++
        ((e.news (.expand "#u#" false)).picksOf (.rule "r") ++ []) := rfl
  rw [hpicks, news_call]
  decide +kernel

/-- Before the levels run out, a round is complete, and the next has begun. -/
theorem rounds_brokenCall : threeCandidates.picksDuring (.rule "r") brokenCall = [2, 0, 1, 1] ∧
    ((threeCandidates.picksDuring (.rule "r") brokenCall).take 3).Perm (List.range 3) := by
  have hadd : (fiveLevels.addRule "r" (.list ["x", "y", "z"])).1 = .ok () := by
    have hok : (fiveLevels.addRule "r" (.list ["x", "y", "z"])).1.isOk = true := by decide +kernel
    cases hr : (fiveLevels.addRule "r" (.list ["x", "y", "z"])).1 with
    | ok _ => rfl
    | error cause =>
      rw [hr] at hok
      cases hok
  have hsome : (threeCandidates.rules.get? "r").isSome = true := by decide +kernel
  have hthree : ∀ rule ∈ threeCandidates.rules.get? "r", rule.candidates.length = 3 ∧
      ∀ c ∈ rule.candidates, Value.hasWeight c.nodes = false := by decide +kernel
  refine ⟨picks_brokenCall, ?_⟩
  obtain ⟨rule, hrule⟩ := Option.isSome_iff_exists.mp hsome
  obtain ⟨hlength, hweight⟩ := hthree rule hrule
  have hspares : ∀ a ∈ brokenCall, a.Spares "r" rule.selector := by
    intro a ha
    rcases List.mem_cons.mp ha with rfl | ha
    · exact ⟨by decide, fun s hs => by cases hs⟩
    · obtain rfl := List.mem_singleton.mp ha
      exact ⟨by decide, fun s hs => by cases hs⟩
  have hround := shuffle_exact.1 fiveLevels (.start _ _ _) "r" _ hadd rfl rule hrule (by omega)
    hweight brokenCall hspares 0
  have hpicks : (fiveLevels.addRule "r" (.list ["x", "y", "z"])).2.picksDuring (.rule "r")
      brokenCall = [2, 0, 1, 1] :=
    picks_brokenCall
  rw [hpicks, hlength] at hround
  rw [picks_brokenCall]
  exact hround (by decide)

end Engine

end TemplateGrammar
