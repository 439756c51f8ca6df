import TemplateGrammar.Proofs.Engine.Unresolved
import TemplateGrammar.Proofs.Expansion.Concord

/-!
# Flat and layered tags concur where only templates set them

Two engines that differ in how tags are scoped, and in nothing else, answer every call alike and are
left alike, if no candidate of the table sets a tag, and templates set none in parameters of
modifiers or in rules of the run (`answers_scopedAs`).  That a call fails makes no difference, nor
does whether it keeps what earlier ones left: what a broken call leaves are tags of the top level,
and these are in both.
-/

namespace TemplateGrammar

namespace Node

variable {σ τ : Type} {f : Nat → τ}

theorem Untagged.place {n : Node σ} (h : n.Untagged) (j : Nat) : (place f j n).1.Untagged := by
  cases n with
  | tag name values => exact h.elim
  | _ => trivial

theorem remote_place {n : Node σ} {k : Nat} {part : List (Node τ)}
    (h : part ∈ (place f k n).1.remote) :
    ∃ part₀ ∈ n.remote, ∃ j, part = (placeList f j part₀).1 := by
  have hparameters : ∀ {mods : List (Modifier σ)} {k : Nat},
      part ∈ (placeModifiers f k mods).1.flatMap Modifier.parameters →
        ∃ part₀ ∈ mods.flatMap Modifier.parameters, ∃ j, part = (placeList f j part₀).1 := by
    intro mods k hpart
    obtain ⟨part₀, hmem, j, hj, -⟩ := mem_parameters_placeModifiers hpart
    exact ⟨part₀, hmem, j, hj⟩
  cases n with
  | rule name mods => exact hparameters h
  | choice site values mods => exact hparameters h
  | define name values =>
    obtain ⟨part₀, hmem, j, hj, -⟩ := mem_placeValues h
    exact ⟨part₀, hmem, j, hj⟩
  | _ => cases h

theorem TagsAtHand.place {n : Node σ} (h : n.TagsAtHand) (j : Nat) :
    (place f j n).1.TagsAtHand := by
  intro part hp
  obtain ⟨part₀, hpart₀, k, rfl⟩ := remote_place hp
  exact Throughout.place (fun n j hn => hn.place j) (h part₀ hpart₀) k

end Node

variable {H : Type}

namespace World.Concur

variable {w v : World H}

theorem forget (h : w.Concur v) : w.forget.Concur v.forget := by
  cases h with
  | @intro ts tags runtime =>
    refine .intro (w := w.forget) (TagStore.concur_clear w.tags ts) ?_
    exact fun name rule hget => (Dict.get?_empty_ne name rule hget).elim

theorem takeUp (h : w.Concur v) (nodes : List (Node Unit)) :
    (w.takeUp nodes).1 = (v.takeUp nodes).1 ∧ (w.takeUp nodes).2.Concur (v.takeUp nodes).2 := by
  cases h with
  | intro tags runtime => exact ⟨rfl, .intro (w := (w.takeUp nodes).2) tags runtime⟩

end World.Concur

namespace Engine

/-- **The text sets tags at hand:** if it is a template, no tag is set in a parameter of a modifier,
or in a rule of the run. -/
def TextTagsAtHand (text : String) : Prop :=
  ∀ nodes, parseText text = .ok nodes → Node.Every Node.TagsAtHand nodes

theorem TextTagsAtHand.onTop {text : String} (h : TextTagsAtHand text) {nodes : List (Node Unit)}
    (hp : parseText text = .ok nodes) (k : Nat) :
    Node.Every (Node.TagsOnTop 1) (Node.placeList BagId.fresh k nodes).1 :=
  Node.Throughout.place (fun _ j hn => ⟨hn.place j, .inl rfl⟩) (h nodes hp) k

/-- **The engines concur:** expansions are given the same, and their worlds concur. -/
structure Concur (e f : Engine H) : Prop where
  setting : f.setting = e.setting
  world : e.machine.world.Concur f.machine.world

/-- The results of one call after another, each with a text, and keeping what earlier ones left or
not. -/
def answers (e : Engine H) : List (String × Bool) → List (Except EngineError String)
  | [] => []
  | call :: calls => (e.tryExpand call.1 call.2).1 :: answers (e.tryExpand call.1 call.2).2 calls

/-- The engine with its tags scoped so, and without any. -/
def scopedAs (e : Engine H) (scoping : TagScoping) : Engine H :=
  { e with
    options := { e.options with tagScoping := scoping }
    machine := { e.machine with world := { e.machine.world with tags := .empty scoping } } }

/-! ### Calls -/

theorem Concur.beginning {e f : Engine H} (h : e.Concur f) (keep : Bool) :
    (e.beginning keep).Concur (f.beginning keep) := by
  cases keep with
  | true => exact h.world
  | false => exact h.world.forget

/-- **A call in worlds that concur** answers the same, and leaves worlds that concur. -/
theorem concur_evaluated {s : Setting H}
    (hs : ∀ (name : String) (rule : Rule H), s.rules[name]? = some rule → rule.Every Node.Untagged)
    {text : String} (htext : TextTagsAtHand text) {w v : World H} (h : w.Concur v) :
    (evaluated s text w).1 = (evaluated s text v).1 ∧
    (evaluated s text w).2.Concur (evaluated s text v).2 := by
  have hsaid := h.say (.input text)
  unfold evaluated
  cases hp : parseText text with
  | error failure => exact ⟨rfl, hsaid⟩
  | ok nodes =>
    obtain ⟨hplaced, htaken⟩ := hsaid.takeUp nodes
    have hnodes := htext.onTop hp w.chance.bags.next
    dsimp only
    rw [← hplaced]
    exact alike_settled World.Concur.say ((World.parallel_concur hs).expand hnodes htaken)

section Calls

variable {e f : Engine H} (h : e.Concur f)
  (hrules : ∀ name rule, e.rules.get? name = some rule → rule.Every Node.Untagged)

include h hrules

/-- **Engines that concur answer a call alike,** and go on to concur. -/
theorem Concur.call {text : String} (htext : TextTagsAtHand text) (keep : Bool) :
    (e.tryExpand text keep).1 = (f.tryExpand text keep).1 ∧
      (e.tryExpand text keep).2.Concur (f.tryExpand text keep).2 := by
  obtain ⟨hresult, hworld⟩ := related_tryExpand h.setting
    (concur_evaluated (s := e.setting) hrules htext (h.beginning keep))
  refine ⟨hresult, ?_, hworld⟩
  rw [setting_tryExpand, setting_tryExpand]
  exact h.setting

theorem Concur.calls {calls : List (String × Bool)}
    (htexts : ∀ call ∈ calls, TextTagsAtHand call.1) :
    e.answers calls = f.answers calls ∧ (e.afterCalls calls).Concur (f.afterCalls calls) := by
  induction calls generalizing e f with
  | nil => exact ⟨rfl, h⟩
  | cons call calls ih =>
    obtain ⟨hresult, hnext⟩ := h.call hrules (htexts call List.mem_cons_self) call.2
    have hsame : (e.tryExpand call.1 call.2).2.rules = e.rules := e.rules_tryExpand call.1 call.2
    obtain ⟨hmore, hend⟩ := ih hnext (hsame ▸ hrules) fun c hc =>
      htexts c (List.mem_cons_of_mem call hc)
    refine ⟨?_, hend⟩
    rw [answers, answers, hresult, hmore]

end Calls

/-! ### Two scopings -/

theorem concur_scopedAs (e : Engine H) (hruntime : e.machine.world.RunUntagged) (a b : TagScoping) :
    (e.scopedAs a).Concur (e.scopedAs b) := by
  have hclear : ∀ scoping : TagScoping, (TagStore.empty scoping : TagStore H).clear =
      .empty scoping := by
    intro scoping
    cases scoping <;> rfl
  have htags : (TagStore.empty a : TagStore H).Concur (.empty b) := by
    have hcleared := TagStore.concur_clear (TagStore.empty a : TagStore H) (.empty b)
    rwa [hclear, hclear] at hcleared
  exact ⟨rfl, .intro (w := { e.machine.world with tags := .empty a }) htags hruntime⟩

/-- **Flat and layered tags agree where only templates set them.**  Let no candidate of the table
set a tag, nor a rule of the run that there is.  Take the engine without tags once with flat and
once with layered ones, and let both answer the same calls, whose templates set no tag in a
parameter of a modifier or in a rule of the run; whatever of them keep what earlier ones left, and
whether or not they succeed.  Then they give the same results, and have the same rules of the run,
bags, random stream, memory of the host and journal in the end; and from every level the same tags
are seen. -/
theorem answers_scopedAs (e : Engine H) (hrules : ∀ name rule, e.rules.get? name = some rule →
    rule.Every Node.Untagged)
    (hruntime : e.machine.world.RunUntagged) (calls : List (String × Bool))
    (htexts : ∀ call ∈ calls, TextTagsAtHand call.1) :
    (e.scopedAs .flat).answers calls = (e.scopedAs .layered).answers calls ∧
    let w := ((e.scopedAs .flat).afterCalls calls).machine.world
    let v := ((e.scopedAs .layered).afterCalls calls).machine.world
    v.runtime = w.runtime ∧ v.chance = w.chance ∧ v.journal = w.journal ∧
      ∀ level, 1 ≤ level → ∀ name, v.tags.get? level name = w.tags.get? level name := by
  obtain ⟨hanswers, -, hworld⟩ := (e.concur_scopedAs hruntime .flat .layered).calls hrules htexts
  refine ⟨hanswers, ?_⟩
  generalize ((e.scopedAs .flat).afterCalls calls).machine.world = w at hworld
  generalize ((e.scopedAs .layered).afterCalls calls).machine.world = v at hworld
  cases hworld with
  | intro tags _ => exact ⟨rfl, rfl, rfl, fun level hl name => (tags.get? hl name).symm⟩

/-- An engine with a rule that asks for two tags, and with one that never ends. -/
def listening : Engine Unit :=
  (start { maxLevel := 9, maxFrames := 20 } (.ofSeed 0) ()).after
    [.addRule "r" (.list ["#t#", "#u#\x7bq(#t#)\x7d"]), .addRule "loop" (.text "#loop#")]

/-- Calls that set tags in a block and in the value of a tag, that are broken off, that are no
templates, and that keep nothing. -/
def mixedCalls : List (String × Bool) :=
  [("[t:a,[u:b]c]#r##q#", true), ("[if a in #t# then [u:#t#] else n]#loop#", true),
    ("#u##r#", true), ("[", true), ("#t#[t:x]#r#", false)]

/-- All of these calls are answered alike. -/
theorem answers_mixedCalls :
    (∀ name rule, listening.rules.get? name = some rule → rule.Every Node.Untagged) ∧
    listening.machine.world.RunUntagged ∧ (∀ call ∈ mixedCalls, TextTagsAtHand call.1) ∧
    (listening.scopedAs .flat).answers mixedCalls =
      (listening.scopedAs .layered).answers mixedCalls := by
  have hrules : ∀ name rule, listening.rules.get? name = some rule → rule.Every Node.Untagged := by
    have hall : ∀ name ∈ listening.rules.names, ∀ rule ∈ listening.rules.get? name,
        ∀ c ∈ rule.candidates,
        Node.ThroughoutWithin (fun nodes => ∀ n ∈ nodes, n.Untagged) 3 c.nodes := by decide +kernel
    intro name rule hget c hc
    exact (hall name (RuleTable.mem_names_of_get? hget) rule hget c hc).throughout
  have hruntime : listening.machine.world.RunUntagged := by
    have hempty : listening.machine.world.runtime = ∅ := by
      rw [← Std.ExtTreeMap.isEmpty_iff]
      decide +kernel
    intro name rule hget
    rw [hempty] at hget
    exact (Dict.get?_empty_ne name rule hget).elim
  have htexts : ∀ call ∈ mixedCalls, TextTagsAtHand call.1 := by
    have hwithin : ∀ call ∈ mixedCalls, ∀ nodes ∈ (parseText call.1).toOption,
        Node.ThroughoutWithin (fun nodes => ∀ n ∈ nodes, ∀ part ∈ n.remote,
          Node.ThroughoutWithin (fun nodes => ∀ n ∈ nodes, n.Untagged) 3 part) 3 nodes := by
          decide +kernel
    intro call hcall nodes hp
    refine Node.Every.imp (every_of_within (hwithin call hcall) nodes hp) fun n hn part hpart => ?_
    exact (hn part hpart).throughout
  exact ⟨hrules, hruntime, htexts, (listening.answers_scopedAs hrules hruntime mixedCalls htexts).1⟩

end Engine

end TemplateGrammar
