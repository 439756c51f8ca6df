import TemplateGrammar.Proofs.Engine.Runaway
import TemplateGrammar.Proofs.Engine.Unresolved
import TemplateGrammar.Proofs.Rules.Defaults

/-!
# Selectors by default never miss

A host that leaves the selectors to the table (`Engine.Allows`) gets no index out of range, as long
as weights can be drawn by in the table and in every template: no call says that a rule, a tag or a
choice found nothing to pick, and what is left as it was written is a name that there is nothing
under (`hits_of_byDefault`).

Between calls the table has selectors by default, bags are sound, and rules of the run and tags fit
(`Engine.Fit`).  Weights are looked at when a template is expanded, and not before: a rule that
cannot be drawn from may come and go in between.
-/

namespace TemplateGrammar

variable {H : Type}

namespace Engine

/-- **The text weighs:** if it is a template, weights of all lists of values in it can be drawn
by. -/
def TextWeighs (text : String) : Prop :=
  ∀ nodes, parseText text = .ok nodes → Node.Every Node.Weighs nodes

/-- **What a host may do that leaves selectors alone:** rules come without selectors, none is
replaced, and templates are expanded only if weights can be drawn by, in the table and in the
template. -/
def Allows (e : Engine H) : Act H → Prop
  | .expand text _ => e.rules.Weighs ∧ TextWeighs text
  | .addRule _ d => d.selector? = none
  | .setSelector _ _ => False
  | _ => True

/-- **An engine with selectors by default,** in all of its history. -/
inductive ByDefault : Engine H → Prop
  | start (options : Options) (random : Random) (host : H) : ByDefault (.start options random host)
  | built {p : Plan H} {files : FileTree} {entropy : UInt64} {host : H} {e : Engine H}
      (hd : ∀ r ∈ p.rules, r.2.selector? = none)
      (h : p.build files entropy host = (.ok (), e)) : ByDefault e
  | act {e : Engine H} (h : ByDefault e) {a : Act H} (ha : e.Allows a) : ByDefault (e.act a)

/-- **Between calls** the table has selectors by default, and what the world has of bags, rules and
tags fits. -/
structure Fit (e : Engine H) : Prop where
  rules : e.rules.ByDefault
  world : e.machine.world.Fits
  tags : e.machine.world.TagsFit

/-! ### A call -/

section Call

variable {e : Engine H} {text : String}

theorem Fit.setting (h : e.Fit) (hrules : e.rules.Weighs) : e.setting.Fits :=
  fun _ _ hget => RuleTable.fits_of_weighs h.rules hrules hget

theorem Fit.beginning (h : e.Fit) (keep : Bool) : (e.beginning keep).Fits ∧
    (e.beginning keep).TagsFit := by
  have hbags : (e.beginning keep).chance.bags.Sound := sound_beginning h.world.bags keep
  cases keep with
  | true => exact ⟨h.world, h.tags⟩
  | false =>
    exact ⟨⟨hbags, fun name rule hget => (Dict.get?_empty_ne name rule hget).elim⟩,
      TagStore.all_clear _ _⟩

/-- **What is taken up fits.** -/
theorem TextWeighs.placed (htext : TextWeighs text) {nodes : List (Node Unit)}
    (hp : parseText text = .ok nodes) (k : Nat) :
    Node.Every Node.Fits (Node.placeList BagId.fresh k nodes).1 := by
  have hfilled : Node.Every Node.Filled (Node.placeList BagId.fresh k nodes).1 :=
    Node.Throughout.place (fun n j hn => hn.place j) (filled_of_parseText hp) k
  have hweighs : Node.Every Node.Weighs (Node.placeList BagId.fresh k nodes).1 :=
    Node.Throughout.place (fun n j hn => hn.place j) (htext nodes hp) k
  exact Node.every_fits hfilled hweighs

/-- **A call of a text that weighs** leaves tags that fit, and all that it notes is fair. -/
theorem hits_evaluated {s : Setting H} (hs : s.Fits) (htext : TextWeighs text) {w : World H}
    (hw : w.Fits) {j : Journal} (h : w.TagsFit ∧ w.Fair j) : (evaluated s text w).2.TagsFit ∧
    (evaluated s text w).2.Fair j := by
  have hsaid : (w.say (.input text)).TagsFit ∧ (w.say (.input text)).Fair j :=
    ⟨h.1, h.2.say trivial⟩
  unfold evaluated
  cases hp : parseText text with
  | error failure => exact hsaid
  | ok nodes =>
    -- the evaluator ends in the world of the machine that expands the same
    let taken := (w.say (.input text)).takeUp nodes
    let m : Machine H := ⟨taken.2, .empty, 0⟩
    have hend : (m.expand s taken.1).2.world.TagsFit ∧ (m.expand s taken.1).2.world.Fair j :=
      Machine.hits_expand hs (htext.placed hp _) ⟨hw.bags, hw.runtime⟩ hsaid
    have houtcome : _ = Direct.expand s taken.1 taken.2 := Machine.outcome_expand s taken.1 m
    show (settled text (Direct.expand s taken.1 taken.2)).2.TagsFit ∧
      (settled text (Direct.expand s taken.1 taken.2)).2.Fair j
    rw [← houtcome]
    cases (m.expand s taken.1).1 with
    | ok out => exact ⟨hend.1, hend.2.say trivial⟩
    | error cause => exact hend

variable (h : e.Fit) (hrules : e.rules.Weighs) (htext : TextWeighs text) (keep : Bool)

include h hrules htext

theorem Fit.call : (e.act (.expand text keep)).Fit := by
  obtain ⟨hworld, htags⟩ := h.beginning keep
  have hkept : World.Kept e.setting Node.Fits World.Fits := World.kept_fits (h.setting hrules)
  have hfits : (evaluated e.setting text (e.beginning keep)).2.Fits :=
    hkept.evaluated (fun w nodes hw => ⟨hw.bags, hw.runtime⟩) text
      (fun nodes k hp => htext.placed hp k) hworld
  have hhits := hits_evaluated (j := (e.beginning keep).journal) (h.setting hrules) htext hworld
    ⟨htags, [], rfl, nofun⟩
  have hsame : (e.act (.expand text keep)).rules = e.rules := e.rules_tryExpand text keep
  refine ⟨hsame ▸ h.rules, ?_, ?_⟩
  · rw [world_call]
    exact hfits
  · rw [world_call]
    exact hhits.1

/-- **All news of the call are fair.** -/
theorem Fit.fair_news : ∀ entry ∈ e.news (.expand text keep), entry.Fair := by
  obtain ⟨hworld, htags⟩ := h.beginning keep
  have hjournal : (e.beginning keep).journal = e.journal := by cases keep <;> rfl
  obtain ⟨new, hnew, hfair⟩ := (hits_evaluated (j := e.journal) (h.setting hrules) htext hworld
    ⟨htags, [], hjournal, nofun⟩).2
  have hnews : e.news (.expand text keep) ++ e.journal = new ++ e.journal := by
    rw [← journal_call, journal, world_call]
    exact hnew
  rw [List.append_cancel_right hnews]
  exact hfair

/-- **Wherever the call comes through,** everything fits. -/
theorem Fit.reaches {m₀ m : Machine H} (hm₀ : e.Starts text keep m₀)
    (hm : Machine.Reaches e.setting m₀ m) :
    m.world.Fits ∧ m.world.TagsFit := by
  obtain ⟨nodes, hp, hb⟩ := hm₀
  obtain ⟨hworld, htags⟩ := h.beginning keep
  have hs : e.setting.Fits := h.setting hrules
  have hnodes := htext.placed hp (e.beginning keep).chance.bags.next
  have htaken : (((e.beginning keep).say (.input text)).takeUp nodes).2.Fits :=
    ⟨hworld.bags, hworld.runtime⟩
  refine ⟨((World.kept_fits hs).holds_of_reaches hnodes htaken hb hm).world, ?_⟩
  exact (Machine.hits_reaches hs hnodes htaken ⟨htags, [], rfl, nofun⟩ hb hm).1

end Call

/-! ### A history -/

theorem Fit.of_world {e e' : Engine H} (h : e.Fit) (hrules : e'.rules.ByDefault)
    (hbags : e'.machine.world.chance.bags = e.machine.world.chance.bags)
    (hruntime : e'.machine.world.runtime = e.machine.world.runtime)
    (htags : e'.machine.world.tags = e.machine.world.tags) : e'.Fit := by
  refine ⟨hrules, ⟨hbags ▸ h.world.bags, hruntime ▸ h.world.runtime⟩, ?_⟩
  unfold World.TagsFit
  rw [htags]
  exact h.tags

theorem Fit.sayAll {e : Engine H} (h : e.Fit) {rules : RuleTable H} (hrules : rules.ByDefault)
    {objects : Dict String} {methods : Dict (Method H)} (ns : List Notice) :
    (sayAll { e with rules, objects, methods } ns).Fit := by
  have hworld : (Engine.sayAll { e with rules, objects, methods } ns).machine.world =
      e.machine.world.sayAll ns := rfl
  rw [World.sayAll_eq] at hworld
  refine h.of_world hrules ?_ ?_ ?_
  · rw [hworld]
  · rw [hworld]
  · rw [hworld]

theorem fit_start (options : Options) (random : Random) (host : H) :
    (start options random host).Fit := by
  refine ⟨RuleTable.byDefault_empty, ⟨Bags.sound_empty, ?_⟩, TagStore.all_empty _ _⟩
  exact fun name rule hget => (Dict.get?_empty_ne name rule hget).elim

theorem Fit.addRule {e : Engine H} (h : e.Fit) (name : String) {d : Definition H}
    (hd : d.selector? = none) : (e.addRule name d).2.Fit :=
  h.sayAll (h.rules.add name hd) _

theorem fit_built {p : Plan H} {files : FileTree} {entropy : UInt64} {host : H} {e : Engine H}
    (hd : ∀ r ∈ p.rules, r.2.selector? = none)
    (h : p.build files entropy host = (.ok (), e)) : e.Fit :=
  Plan.build_keeps (fun _ ns he => he.sayAll he.rules ns) (fun _ name _ he => he.addRule name rfl)
    (fun _ r hr he => he.addRule r.1 (hd r hr)) (fun _ _ _ _ he => he.sayAll he.rules _)
      (fit_start _ _ _) h

theorem Fit.act {e : Engine H} (h : e.Fit) {a : Act H} (ha : e.Allows a) : (e.act a).Fit := by
  cases a with
  | expand text keep => exact h.call ha.1 ha.2 keep
  | addRule name d => exact h.addRule name ha
  | removeRule name => exact h.of_world (h.rules.remove name) rfl rfl rfl
  | setSelector name s => exact ha.elim
  | addMethod kind name m => exact h.sayAll h.rules _
  | addObject name value => exact h.of_world h.rules rfl rfl rfl
  | removeObject name => exact h.of_world h.rules rfl rfl rfl
  | takeNotices => exact h.of_world h.rules rfl rfl rfl

/-- **In all of its history** an engine with selectors by default fits. -/
theorem ByDefault.fit {e : Engine H} (h : e.ByDefault) : e.Fit := by
  induction h with
  | start options random host => exact fit_start options random host
  | built hd h => exact fit_built hd h
  | act _ ha ih => exact ih.act ha

end Engine

/-- **Where everything fits,** a reference is expanded, or it is left as it was written because
there is nothing under its name. -/
theorem Machine.reference_of_fits {s : Setting H} (hs : s.Fits) {m : Machine H} (hw : m.world.Fits)
    (htags : m.world.TagsFit) {top : Frame H} {below : List (Frame H)} {name : String}
    {mods : List (Modifier BagId)} {rest : List (Instr H)} (hf : m.frames.toList = top :: below)
    (hp : top.pending = .node (.rule name mods) :: rest) :
    (∃ nodes deepens w, m.world.resolve s m.level name = (.nodes nodes deepens, w) ∧
      m.advance s = Turn.status (pushChain s nodes mods deepens { m.taken rest with world := w })) ∨
    (m.advance s = .running (((m.taken rest).say (.leftAsWritten name .notDefined)).append
      ("#" ++ name ++ "#")) ∧
      m.world.tags.get? m.level name = none ∧ s.objects[name]? = none ∧
      m.world.runtime[name]? = none ∧
      s.rules[name]? = none) := by
  have hadvance : m.advance s = Turn.status (reference s name mods (m.taken rest)) :=
    advance_of_pending hf hp
  have htaken : (m.taken rest).world.resolve s (m.taken rest).level name =
      m.world.resolve s m.level name := rfl
  have hresolve := (World.resolve_of_fits (j := []) hs hw htags m.level name).1
  rcases hresolve with ⟨nodes, deepens, hnodes⟩ | ⟨hstuck, hnone⟩
  · rcases hr : m.world.resolve s m.level name with ⟨resolution, w⟩
    rw [hr] at hnodes
    obtain rfl : resolution = .nodes nodes deepens := hnodes
    refine .inl ⟨nodes, deepens, w, rfl, ?_⟩
    rw [hadvance, reference, htaken, hr]
  · refine .inr ⟨?_, hnone⟩
    rw [hadvance, reference, htaken, hstuck]
    rfl

namespace Engine

/-- **Selectors by default never miss.**  Let rules have come without selectors, and let weights be
such, in the table and in each template that was expanded, that they can be drawn by.  Then in a
call of a template of which this holds too, every pick is in range, and no notice says that a rule
had no candidate, that a tag had no value or that a choice was missed.  Wherever the call comes
through, a reference about to be expanded is expanded, or it is left as it was written, and then
there is no tag, no object, no rule of the run and no rule of the table under its name. -/
theorem hits_of_byDefault {e : Engine H} (he : e.ByDefault) {text : String} (keep : Bool)
    (ha : e.Allows (.expand text keep)) :
    (∀ chooser count index, .pick chooser count index ∈ e.news (.expand text keep) →
      index < count) ∧
    (∀ name, .notice (.leftAsWritten name .noCandidate) ∉ e.news (.expand text keep) ∧
      .notice (.leftAsWritten name .noTagValue) ∉ e.news (.expand text keep)) ∧
    .notice .choiceMissed ∉ e.news (.expand text keep) ∧
    ∀ m₀ m, e.Starts text keep m₀ → Machine.Reaches e.setting m₀ m → ∀ top below name mods rest,
      m.frames.toList = top :: below → top.pending = .node (.rule name mods) :: rest →
      (∃ nodes deepens w, m.world.resolve e.setting m.level name = (.nodes nodes deepens, w) ∧
        m.advance e.setting =
          Machine.Turn.status (Machine.pushChain e.setting nodes mods deepens
            { m.taken rest with world := w })) ∨
      (m.advance e.setting =
          .running (((m.taken rest).say (.leftAsWritten name .notDefined)).append
            ("#" ++ name ++ "#")) ∧
        m.world.tags.get? m.level name = none ∧ e.objects[name]? = none ∧
          m.world.runtime[name]? = none ∧
        e.rules.get? name = none) := by
  have hfit : e.Fit := he.fit
  have hfair := hfit.fair_news ha.1 ha.2 keep
  refine ⟨?_, ?_, fun hmem => hfair _ hmem, ?_⟩
  · exact fun chooser count index hmem => hfair _ hmem
  · refine fun name => ⟨fun hmem => ?_, fun hmem => ?_⟩
    · have hobstacle : Obstacle.noCandidate = .notDefined := hfair _ hmem
      cases hobstacle
    · have hobstacle : Obstacle.noTagValue = .notDefined := hfair _ hmem
      cases hobstacle
  · intro m₀ m hm₀ hm top below name mods rest hf hp
    obtain ⟨hw, htags⟩ := hfit.reaches ha.1 ha.2 keep hm₀ hm
    exact Machine.reference_of_fits (hfit.setting ha.1) hw htags hf hp

/-- An engine with one rule, which is thrown by weights. -/
def dicing : Engine Unit :=
  (start { tagScoping := .layered, maxLevel := 9, maxFrames := 20 } (.ofSeed 0) ()).act
    (.addRule "die" (.list ["one:2", "six:1"]))

/-- A template with weights in a tag, in a rule of the run and in a choice, and with a name that is
nowhere provided. -/
def throwing : String := "[t:#die#:1,y:3]\x7bq(#die#,z:2)\x7d\x7b(c,d:1)\x7d#t##q##pips#"

/-- All picks hit; and the machine comes to a reference that stands for nothing, which is left as it
was written. -/
theorem hits_throwing :
    dicing.ByDefault ∧ dicing.Allows (.expand throwing true) ∧
    (∀ chooser count index, .pick chooser count index ∈ dicing.news (.expand throwing true) →
      index < count) ∧
    ∃ m₀ m rest, dicing.Starts throwing true m₀ ∧ Machine.Reaches dicing.setting m₀ m ∧
    asked? m = some "pips" ∧ m.advance dicing.setting =
        .running (((m.taken rest).say (.leftAsWritten "pips" .notDefined)).append "#pips#") ∧
      m.world.tags.get? m.level "pips" = none ∧ m.world.runtime["pips"]? = none := by
  have hd : dicing.ByDefault := .act (.start _ _ _) rfl
  have hrules : dicing.rules.Weighs := by
    have hall : ∀ name ∈ dicing.rules.names, ∀ rule ∈ dicing.rules.get? name,
        Value.Weighs (rule.candidates.map Candidate.nodes) ∧
          ∀ c ∈ rule.candidates, Node.ThroughoutWithin (fun nodes => ∀ n ∈ nodes, n.Weighs)
            3 c.nodes := by
      decide +kernel
    intro name rule hget
    obtain ⟨hweighs, hwithin⟩ := hall name (RuleTable.mem_names_of_get? hget) rule hget
    exact ⟨hweighs, fun c hc => (hwithin c hc).throughout⟩
  have htext : TextWeighs throwing := every_of_within (by decide +kernel)
  have hsteps : (dicing.stepsInto throwing true 26).bind asked? = some "pips" := by decide +kernel
  have hstuck : (dicing.stepsInto throwing true 26).all (fun m =>
      (m.world.resolve dicing.setting m.level "pips").1 matches .stuck _) = true := by
        decide +kernel
  obtain ⟨m, hm, hasked⟩ := Option.bind_eq_some_iff.mp hsteps
  obtain ⟨m₀, hstarts, hreaches⟩ := reaches_of_stepsInto hm
  obtain ⟨top, below, mods, rest, hf, hp⟩ := exists_of_asked? hasked
  obtain ⟨hpicks, -, -, hfound⟩ := hits_of_byDefault hd true ⟨hrules, htext⟩
  rcases hfound m₀ m hstarts hreaches top below "pips" mods rest hf hp with
    ⟨nodes, deepens, w, hnodes, -⟩ | ⟨hleft, htag, -, hruntime, -⟩
  · rw [hm, Option.all_some, hnodes] at hstuck
    cases hstuck
  · exact ⟨hd, ⟨hrules, htext⟩, hpicks, m₀, m, rest, hstarts, hreaches, hasked, hleft,
      htag, hruntime⟩

end Engine

end TemplateGrammar
