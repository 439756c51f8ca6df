import Mathlib.Control.Monad.Basic
import TemplateGrammar.Proofs.Engine.History
import TemplateGrammar.Proofs.Expansion.Quiet
import TemplateGrammar.Proofs.Rules.Bound
import TemplateGrammar.Proofs.Template.Places

/-!
# Templates that leave the tags alone

With layered tags a template that is quiet leaves every tag of the top level as it was, whatever
rules it goes through and however it ends (`get?_tryExpand_of_quiet`).

That it sets no tag is not enough: a membership test against a lone reference expands the candidates
of the rule on the level of the template, and a tag that one of them sets stays there (`tags_leak`).
-/

namespace TemplateGrammar

namespace Node

/-- The node sets no tag. -/
def Untagged {σ : Type} : Node σ → Prop
  | .tag _ _ => False
  | _ => True

instance {σ : Type} : DecidablePred (Untagged : Node σ → Prop)
  | .tag _ _ => inferInstanceAs (Decidable False)
  | .text _ | .weight _ | .rule _ _ | .define _ _ | .choice _ _ _ | .ifBlock _ _ _
    | .whileBlock _ _ =>
    inferInstanceAs (Decidable True)

/-- No node of a tree sets a tag. -/
def AllUntagged {σ : Type} (nodes : List (Node σ)) : Prop :=
  Throughout (fun nodes => ∀ n ∈ nodes, n.Untagged) nodes

variable {σ τ : Type} {guarded : String → Prop} {f : Nat → τ}

theorem listed?_place {c : Condition σ} {k : Nat} {name : String}
    (h : name ∈ (placeCondition f k c).1.listed?) :
    name ∈ c.listed? := by
  obtain ⟨left, op, right⟩ := c
  rcases right with _ | ⟨n, _ | ⟨m, rest⟩⟩
  · cases op <;> cases h
  · cases n with
    | rule name mods => cases op <;> exact h
    | _ => cases op <;> cases h
  · cases op <;> cases n <;> cases h

theorem Quiet.place {n : Node σ} (h : n.Quiet guarded) (j : Nat) :
    (place f j n).1.Quiet guarded := by
  cases n with
  | tag name values => exact h.elim
  | ifBlock c yes no => exact fun name hname => h name (listed?_place hname)
  | whileBlock c body => exact fun name hname => h name (listed?_place hname)
  | _ => trivial

theorem AllTame.sealed {nodes : List (Node σ)} (h : AllTame nodes) : AllSealed guarded nodes := by
  induction h with
  | intro here inside ih =>
    refine .intro (fun n hn => ?_) ih
    cases n with
    | define name values => exact (here _ hn).elim
    | _ => trivial

theorem AllQuiet.place {nodes : List (Node σ)} (h : AllQuiet guarded nodes) (k : Nat) :
    AllQuiet guarded (placeList f k nodes).1 :=
  Throughout.place (fun _ j hq => hq.place j) h k

end Node

namespace Engine

variable {H : Type}

/-- **Quiet templates leave the tags alone.**  Let the tags be layered, and let the rules under some
guarded names be without tags, in the table and on the run, and stay so by what the candidates of
all rules define.  A template that sets no tag, and tests for membership only among the candidates
of such rules, leaves every tag of the top level as it was, with its values and their selector. -/
theorem get?_tryExpand_of_quiet {e : Engine H} (he : Used e) (hl : e.options.tagScoping = .layered)
    (guarded : String → Prop) (hrules : Dict.Sealed guarded e.rules.rules)
    (hruntime : Dict.Sealed guarded e.machine.world.runtime) {text : String}
    {nodes : List (Node Unit)} (hp : parseText text = .ok nodes) (hn : Node.AllQuiet guarded nodes)
    (name : String) :
    (e.tryExpand text true).2.machine.world.tags.get? 1 name =
      e.machine.world.tags.get? 1 name := by
  have hw : e.machine.world.Undisturbed guarded 1 fun name => e.machine.world.tags.get? 1 name :=
    ⟨(scoping_of_used he).trans hl, fun _ => rfl, hruntime⟩
  -- the template is taken up in a world that has only noted it
  let taken := (e.machine.world.say (.input text)).takeUp nodes
  have htaken : taken.2.Undisturbed guarded 1 fun name => e.machine.world.tags.get? 1 name :=
    hw.of_eq rfl rfl
  have hspared : (Direct.expand e.setting taken.1 taken.2).2.Undisturbed guarded 1 _ :=
    htaken.expand hrules (hn.place _)
  have hworld : (e.tryExpand text true).2.machine.world =
      (settled text (Direct.expand e.setting taken.1 taken.2)).2 := by
    refine (congrArg Prod.snd (outcome_tryExpand e text)).trans ?_
    rw [evaluated, hp]
  rw [hworld]
  generalize Direct.expand e.setting taken.1 taken.2 = x at hspared
  obtain ⟨result, w⟩ := x
  cases result with
  | ok out => exact hspared.sees name
  | error cause => exact hspared.sees name

/-! ### A rule with a tag and a rule without -/

/-- The rule `leaky` sets the tag `t`; the rule `calm` sets none, but mentions `leaky`. -/
def leakyAndCalm : Engine Unit :=
  let e : Engine Unit := .start { tagScoping := .layered } (.ofSeed 0) ()
  ((e.addRule "leaky" (.text "[t:leaked]x")).2.addRule "calm" (.list ["x", "#leaky#"])).2

/-- The engine, with a tag `t` of the top level. -/
def tagged : Engine Unit :=
  leakyAndCalm.act (.expand "[t:own]" true)

theorem used_tagged : Used tagged :=
  (((Used.start _ _ _).act (.addRule "leaky" _)).act (.addRule "calm" _)).act _

theorem world_tagged :
    tagged.machine.world = (evaluated leakyAndCalm.setting "[t:own]"
      leakyAndCalm.machine.world).2 :=
  congrArg Prod.snd (outcome_tryExpand leakyAndCalm "[t:own]")

theorem given_tagged : ∃ m, tagged = { leakyAndCalm with machine := m } :=
  given_tryExpand leakyAndCalm "[t:own]" true

/-- A template that asks about one rule and refers to the other. -/
def askingCalm : String := "[if x in #calm# then #leaky# else #calm#]"

/-- With `calm` guarded, the template is quiet, and the tag is what it was. -/
theorem get?_tryExpand_askingCalm :
    Used tagged ∧ tagged.options.tagScoping = .layered ∧
      Dict.Sealed (fun name => name = "calm") tagged.rules.rules ∧
      Dict.Sealed (fun name => name = "calm") tagged.machine.world.runtime ∧
      (∃ nodes, parseText askingCalm = .ok nodes ∧
        Node.AllQuiet (fun name => name = "calm") nodes) ∧
      (tagged.tryExpand askingCalm true).2.machine.world.tags.get? 1 "t" =
        tagged.machine.world.tags.get? 1 "t" := by
  obtain ⟨m, hm⟩ := given_tagged
  have hscoping : tagged.options.tagScoping = .layered := by
    rw [hm]
    rfl
  have hrules : Dict.Sealed (fun name => name = "calm") tagged.rules.rules := by
    have htame : leakyAndCalm.rules.AllTame := by
      have hwithin : ∀ name ∈ leakyAndCalm.rules.names, ∀ c ∈ leakyAndCalm.rules.candidates name,
          Node.ThroughoutWithin (fun nodes => ∀ n ∈ nodes, n.Tame) 3 c.nodes := by decide +kernel
      exact fun name hname c hc => (hwithin name hname c hc).throughout
    have hcalm : ∀ rule ∈ leakyAndCalm.rules.get? "calm", ∀ c ∈ rule.candidates,
        Node.ThroughoutWithin (fun nodes => ∀ n ∈ nodes, n.Quiet fun name => name = "calm")
          3 c.nodes := by
      decide +kernel
    rw [hm]
    intro name rule hrule
    refine ⟨fun c hc => (htame.of_get? hrule hc).sealed, ?_⟩
    rintro rfl c hc
    exact (hcalm rule hrule c hc).throughout
  have hruntime : Dict.Sealed (fun name => name = "calm") tagged.machine.world.runtime := by
    have hempty : tagged.machine.world.runtime = ∅ := by
      rw [world_tagged, ← Std.ExtTreeMap.isEmpty_iff]
      decide +kernel
    intro name rule hrule
    rw [hempty, Std.ExtTreeMap.getElem?_empty] at hrule
    cases hrule
  obtain ⟨nodes, hp, hn⟩ : ∃ nodes, parseText askingCalm = .ok nodes ∧
      Node.AllQuiet (fun name => name = "calm") nodes :=
      exists_parsed (by decide +kernel) (by decide +kernel)
  exact ⟨used_tagged, hscoping, hrules, hruntime, ⟨nodes, hp, hn⟩,
    get?_tryExpand_of_quiet used_tagged hscoping _ hrules hruntime hp hn "t"⟩

/-- A template without a tag, which asks about the rule that sets one. -/
def askingLeaky : String := "[if x in #leaky# then y else n]"

/-- **A membership test lets a tag out.**  The template holds no tag, the call succeeds, and the tag
`t` of the top level is now the one that the rule has set. -/
theorem tags_leak :
    Used tagged ∧ tagged.options.tagScoping = .layered ∧
      (∃ nodes, parseText askingLeaky = .ok nodes ∧ Node.AllUntagged nodes) ∧
      (tagged.tryExpand askingLeaky true).1 = .ok "y" ∧
      (tagged.machine.world.tags.get? 1 "t").map Tag.values = some ["own"] ∧
      ((tagged.tryExpand askingLeaky true).2.machine.world.tags.get? 1 "t").map Tag.values =
        some ["leaked"] := by
  obtain ⟨m, hm⟩ := given_tagged
  have hsetting : tagged.setting = leakyAndCalm.setting := by
    rw [hm]
    rfl
  have hcall := outcome_tryExpand tagged askingLeaky
  rw [hsetting, world_tagged] at hcall
  obtain ⟨hresult, hworld⟩ := Prod.mk.inj hcall
  refine ⟨used_tagged, by rw [hm]; rfl, exists_parsed (by decide +kernel) (by decide +kernel), ?_,
    ?_, ?_⟩
  · rw [hresult]
    decide +kernel
  · rw [world_tagged]
    decide +kernel
  · rw [hworld]
    decide +kernel

end Engine

end TemplateGrammar
