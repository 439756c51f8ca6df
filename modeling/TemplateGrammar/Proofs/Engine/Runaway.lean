import TemplateGrammar.Proofs.Choice.Indices
import TemplateGrammar.Proofs.Engine.Literal
import TemplateGrammar.Proofs.Engine.News
import TemplateGrammar.Proofs.Expansion.Runaway
import TemplateGrammar.Proofs.Rules.Names

/-!
# Runaway recursion is contained

Where the rules of a table run away, a call that asks for one of them is ended by a limit, and the
engine is as good as before (`tryExpand_runaway`).  The only other way out is a selector that
answers with an index out of range.

No pick of a call is out of range if the selectors of the rules answer in range
(`Made.picksInRange`).  Bags always do, and rules choose by them unless they have weights or
selectors of their own: in whatever a host does with an engine, nothing gets into a bag that is not
an index of a candidate (`Made.sound_after`).
-/

namespace TemplateGrammar

variable {H : Type}

namespace Journal

theorem misses_append (new j : Journal) : Journal.misses (new ++ j) = new.misses + j.misses :=
  List.countP_append

theorem misses_eq_zero_iff {j : Journal} :
    j.misses = 0 ↔ ∀ name count index, .pick (.rule name) count index ∈ j → index < count := by
  rw [misses, List.countP_eq_zero]
  constructor
  · intro h name count index hmem
    have hno := h _ hmem
    simpa [Entry.isMiss] using hno
  · intro h entry hmem
    unfold Entry.isMiss
    split
    · have := h _ _ _ hmem
      simpa using this
    · simp

end Journal

namespace Engine

/-- **The picks that a call makes for rules of the table are in range.** -/
def PicksInRange (e : Engine H) (text : String) (keep : Bool) : Prop :=
  ∀ name count index, .pick (.rule name) count index ∈ e.news (.expand text keep) → index < count

theorem PicksInRange.misses {e : Engine H} {text : String} {keep : Bool}
    (h : e.PicksInRange text keep) :
    (e.act (.expand text keep)).journal.misses = e.journal.misses := by
  have hnews : (e.news (.expand text keep)).misses = 0 := Journal.misses_eq_zero_iff.mpr h
  rw [journal_call, Journal.misses_append, hnews, Nat.zero_add]

/-! ### Calls that ask for a rule -/

/-- In a bare world, a reference to a rule is ended by a limit, or there was a miss more. -/
theorem evaluated_runaway {s : Setting H} {t : RuleTable H} (h : s.RunsAway t) {name : String}
    (hvalid : isValidName name = true) (hname : t.contains name = true) {k : Nat} {w : World H}
    (hw : w.Bare k) :
    (∃ cause, (evaluated s ("#" ++ name ++ "#") w).1 = .error (.expansion cause) ∧
      cause.IsLimit s) ∨ (evaluated s ("#" ++ name ++ "#") w).2.Bare (k + 1) := by
  let taken := (w.say (.input ("#" ++ name ++ "#"))).takeUp [.rule name []]
  have hstart : taken.2.Bare k := hw.of_suffix rfl rfl (List.suffix_cons _ _)
  have hplain : Node.Every Node.Plain taken.1 := by
    refine .intro ?_ ?_
    · intro n hn
      rw [List.mem_singleton.mp hn]
      trivial
    · intro n hn part hpart
      rw [List.mem_singleton.mp hn] at hpart
      cases hpart
  have hleads : ∃ n ∈ taken.1, t.LeadsTo n := ⟨.rule name [], List.mem_cons_self, hname⟩
  have hastray := Direct.astray_expand h hplain hleads hstart
  have hlimits := Direct.onlyLimits_expand s taken.1 taken.2
  rw [evaluated_of_parse s (parseText_mark hvalid)]
  show (∃ cause, (settled _ (Direct.expand s taken.1 taken.2)).1 = .error (.expansion cause) ∧
    cause.IsLimit s) ∨ (settled _ (Direct.expand s taken.1 taken.2)).2.Bare (k + 1)
  rcases hx : Direct.expand s taken.1 taken.2 with ⟨result, w'⟩
  rw [hx] at hastray hlimits
  cases result with
  | ok out => exact .inr ((h.kept (k + 1)).say _ (hastray out rfl))
  | error cause => exact .inl ⟨cause, rfl, hlimits cause rfl⟩

/-- **Runaway recursion is always contained.**  Let every candidate of every rule of a table refer
to a rule of the table again, let no candidate set a tag or define a rule, and let there be no
objects.  As long as the picks for rules are in range, a call that asks for a rule and keeps nothing
answers the error of a limit and never a text, whatever the limits, the random stream, the methods
and what the host remembers are.  The next call of a text that is written as a literal answers the
text, where the limits leave room for the root. -/
theorem tryExpand_runaway {e : Engine H} (hb : e.rules.Built) (ha : e.rules.Runaway)
    (hobjects : e.objects = ∅) {name : String} (hname : e.rules.contains name = true)
    (hrange : e.PicksInRange ("#" ++ name ++ "#") false) :
    ((e.tryExpand ("#" ++ name ++ "#") false).1 =
      .error (.expansion (.levelLimit e.options.maxLevel)) ∨
      (e.tryExpand ("#" ++ name ++ "#") false).1 =
        .error (.expansion (.frameLimit e.options.maxFrames))) ∧
    (1 ≤ e.options.maxLevel → 1 ≤ e.options.maxFrames → ∀ text keep,
      ((e.tryExpand ("#" ++ name ++ "#") false).2.tryExpand (literal text) keep).1 = .ok text) := by
  constructor
  · have hrule : ∀ name, e.rules.contains name = true → isValidName name = true := by
      intro name hname
      obtain ⟨rule, hget⟩ := RuleTable.exists_get? hname
      exact hb.isValidName hget
    have hnamed : e.rules.contains "" = false := by
      cases hempty : e.rules.contains "" with
      | false => rfl
      | true => exact absurd rfl (RuleTable.ne_empty_of_isValidName (hrule "" hempty))
    have haway : e.setting.RunsAway e.rules := ⟨rfl, hobjects, hnamed, ha⟩
    have hbare : (e.beginning false).Bare e.journal.misses :=
      ⟨TagStore.all_clear _ _, rfl, Nat.le_refl _⟩
    have houtcome := e.outcome_call ("#" ++ name ++ "#") false
    have hresult := congrArg Prod.fst houtcome
    rcases evaluated_runaway haway (hrule name hname) hname hbare
      with ⟨cause, hcause, hlimit⟩ | hmissed
    · rw [hresult, hcause]
      rcases hlimit with rfl | rfl
      · exact .inl rfl
      · exact .inr rfl
    · -- there is no miss in the journal that was not there before
      exfalso
      have hmore := hmissed.missed
      rw [← world_call] at hmore
      have hsame := hrange.misses
      rw [journal] at hsame
      omega
  · intro hlevel hframes text keep
    obtain ⟨m, hm⟩ := e.given_tryExpand ("#" ++ name ++ "#") false
    rw [hm, congrArg Prod.fst (outcome_call { e with machine := m } (literal text) keep)]
    exact evaluated_literal hlevel hframes text _

/-! ### Selectors that answer in range -/

end Engine

/-- **Sound bags stay sound,** whatever is expanded. -/
theorem World.kept_sound (s : Setting H) :
    World.Kept s (fun _ => True) fun w => w.chance.bags.Sound where
  text _ := trivial
  say _ h := h
  freshBag h := h
  call _ _ _ _ h := h
  leave _ h := h
  readTag h _ := h.pick _ _
  runtimeRule h _ := ⟨h.pick _ _, Rule.every_of_forall (fun _ => trivial) _⟩
  tableRule h _ := ⟨h.pick _ _, Rule.every_of_forall (fun _ => trivial) _⟩
  choice h _ := h.pick _ _
  setTag {w level name _ _} texts h _ _ _ := by
    unfold World.setTag
    split <;> exact h
  define h _ _ := h

/-- All bags are sound, and there have been so many misses. -/
structure World.Hitting (k : Nat) (w : World H) : Prop where
  bags : w.chance.bags.Sound
  misses : w.journal.misses = k

namespace World.Hitting

variable {k : Nat} {w : World H}

theorem pick (h : w.Hitting k) {chooser : Chooser} {selector : Selector H} {count : Nat}
    (hhit : ¬Entry.isMiss (.pick chooser count (w.pick chooser selector count).1) = true) :
    (w.pick chooser selector count).2.Hitting k :=
  ⟨h.bags.pick selector count, (List.countP_cons_of_neg hhit).trans h.misses⟩

/-- **Where the selectors of the rules answer in range,** there are no more misses. -/
theorem kept {s : Setting H} (hselectors : ∀ (name : String) (rule : Rule H),
    s.rules[name]? = some rule →
    rule.selector.InRange rule.candidates.length) (k : Nat) : World.Kept s (fun _ => True)
      (World.Hitting k) where
  text _ := trivial
  say _ h := ⟨h.bags, h.misses⟩
  freshBag h := ⟨h.bags, h.misses⟩
  call _ _ _ _ h := ⟨h.bags, h.misses⟩
  leave _ h := ⟨h.bags, h.misses⟩
  readTag h _ := h.pick Bool.false_ne_true
  runtimeRule h _ := ⟨h.pick Bool.false_ne_true, Rule.every_of_forall (fun _ => trivial) _⟩
  tableRule {w name rule} h hget := by
    refine ⟨h.pick ?_, Rule.every_of_forall (fun _ => trivial) _⟩
    intro hmiss
    have hin := hselectors name rule hget w.chance h.bags
    exact Nat.lt_irrefl _ (Nat.lt_of_lt_of_le hin (of_decide_eq_true hmiss))
  choice h _ := h.pick Bool.false_ne_true
  setTag {w level name _ _} texts h _ _ _ := by
    unfold World.setTag
    split <;> exact ⟨h.bags, h.misses⟩
  define h _ _ := ⟨h.bags, h.misses⟩

end World.Hitting

namespace Engine

theorem sound_beginning {e : Engine H} (h : e.machine.world.chance.bags.Sound) (keep : Bool) :
    (e.beginning keep).chance.bags.Sound := by
  cases keep with
  | true => exact h
  | false =>
    intro id
    show (e.machine.world.chance.bags.settle.get id).Sound
    rw [Bags.get_settle]
    split
    · intro i hi
      cases hi
    · exact h id

theorem sound_act {e : Engine H} (h : e.machine.world.chance.bags.Sound) (a : Act H) :
    (e.act a).machine.world.chance.bags.Sound := by
  rcases a.call_or with ⟨text, keep, rfl⟩ | ha
  · rw [world_call]
    exact (World.kept_sound e.setting).evaluated_of_forall (fun w nodes hw => hw) text
      (sound_beginning h keep)
  · rw [bags_act e ha]
    exact h

/-- **All bags of an engine are sound,** whatever was done with it since it was made. -/
theorem Made.sound_after {e : Engine H} (he : Made e) (acts : List (Act H)) :
    (e.after acts).machine.world.chance.bags.Sound := by
  have hmade : e.machine.world.chance.bags.Sound := by
    obtain ⟨random, host, ns, hw⟩ := he.world
    rw [hw, World.sayAll_eq]
    exact Bags.sound_empty
  clear he
  induction acts generalizing e with
  | nil => exact hmade
  | cons a acts ih => exact ih (sound_act hmade a)

/-- **If the selectors of the rules answer in range,** then in a call they do, whatever its text is,
and whatever was done with the engine before. -/
theorem Made.picksInRange {e : Engine H} (he : Made e) (acts : List (Act H))
    (hselectors : ∀ name rule,
    (e.after acts).rules.get? name = some rule → rule.selector.InRange rule.candidates.length)
    (text : String) (keep : Bool) : (e.after acts).PicksInRange text keep := by
  have hbegin : ((e.after acts).beginning keep).Hitting (e.after acts).journal.misses := by
    refine ⟨sound_beginning (he.sound_after acts) keep, ?_⟩
    cases keep <;> rfl
  have takeUp : ∀ (w : World H) nodes, w.Hitting (e.after acts).journal.misses →
      (w.takeUp nodes).2.Hitting (e.after acts).journal.misses :=
      fun w nodes hw => ⟨hw.bags, hw.misses⟩
  have hkept := World.Hitting.kept (s := (e.after acts).setting) hselectors
    (e.after acts).journal.misses
  have hend := (hkept.evaluated_of_forall takeUp text hbegin).misses
  rw [← world_call] at hend
  have hjournal := congrArg Journal.misses ((e.after acts).journal_call text keep)
  rw [Journal.misses_append, journal, hend] at hjournal
  exact Journal.misses_eq_zero_iff.mp (by omega)

/-! ### Two rules that ask for each other -/

/-- An engine with a few levels and frames, and no rules. -/
def fewLevels : Engine Unit :=
  .start { maxLevel := 20, maxFrames := 50 } (.ofSeed 1) ()

/-- Each of two rules asks for the other one or for itself, in all of its candidates, and for more
beside. -/
def askingBoth : List (Act Unit) :=
  [.addRule "a" (.list ["#b#", "(\x7b(x,y)\x7d)#b.m(#a#)#"]),
    .addRule "b" (.list ["[if #a# == x then y]#a#", "#b# z"])]

/-- The call is ended, and the next one is answered. -/
theorem tryExpand_askingBoth :
    (((fewLevels.after askingBoth).tryExpand "#a#" false).1 = .error (.expansion (.levelLimit 20)) ∨
      ((fewLevels.after askingBoth).tryExpand "#a#" false).1 =
        .error (.expansion (.frameLimit 50))) ∧
    (((fewLevels.after askingBoth).tryExpand "#a#" false).2.tryExpand (literal "[#a#]") true).1 =
      .ok "[#a#]" := by
  let e := fewLevels.after askingBoth
  have hbuilt : e.rules.Built := (RuleTable.Built.empty.add "a" _).add "b" _
  have hplain : ∀ name ∈ e.rules.names, ∀ c ∈ e.rules.candidates name,
      Node.ThroughoutWithin (fun nodes => ∀ n ∈ nodes, n.Plain) 3 c.nodes := by decide +kernel
  have honward : ∀ name ∈ e.rules.names, ∀ c ∈ e.rules.candidates name, ∃ n ∈ c.nodes,
      e.rules.LeadsTo n := by
    decide +kernel
  have haway : e.rules.Runaway := ⟨fun name hname c hc =>
    (hplain name hname c hc).throughout, honward⟩
  have hbags : ∀ name ∈ e.rules.names, ∀ rule ∈ e.rules.get? name,
      rule.selector.bag?.isSome = true ∧ 0 < rule.candidates.length := by decide +kernel
  have hselectors : ∀ name rule, e.rules.get? name = some rule →
      rule.selector.InRange rule.candidates.length := by
    intro name rule hget
    obtain ⟨hbag, hsome⟩ := hbags name (RuleTable.mem_names_of_get? hget) rule hget
    obtain ⟨id, hid⟩ := Option.isSome_iff_exists.mp hbag
    rw [Selector.eq_bag_of_bag? hid]
    exact Selector.inRange_bag id hsome
  have hname : e.rules.contains "a" = true := by decide +kernel
  have hmade : Made fewLevels := .start _ _ _
  have hrange : e.PicksInRange "#a#" false := hmade.picksInRange askingBoth hselectors "#a#" false
  obtain ⟨hended, hnext⟩ := tryExpand_runaway hbuilt haway rfl hname hrange
  exact ⟨hended, hnext (by decide) (by decide) "[#a#]" true⟩

end Engine

end TemplateGrammar
