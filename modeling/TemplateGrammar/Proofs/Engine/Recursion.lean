import TemplateGrammar.Proofs.Engine.Calls
import TemplateGrammar.Proofs.Rules.Bound

/-!
# Rules without recursion need no more than a known room

Where the inspection finds neither a rule that mentions itself nor a cycle, expansion cannot run
away: a template goes through each rule at most once on any way down, and between two rules it goes
no deeper than a template can nest.  So limits that leave room for one template more than there are
rules are never reached (`tryExpand_of_inspect`).  Loops, and rules that are defined on the run, the
inspection does not follow, so there must be none.
-/

namespace TemplateGrammar.Engine

variable {H : Type}

/-- What a parsed template costs, once it is taken up, over rules without recursion. -/
theorem costs_of_inspect {t : RuleTable H} (hb : t.Built) {flat : Bool}
    (hclean : ∀ f ∈ t.inspect flat, ¬f.Recursive) (ht : t.AllTame) {text : String}
    {nodes : List (Node Unit)} (hp : parseText text = .ok nodes)
    (hn : Node.AllTame nodes) (k : Nat) :
    Costs t.rules (maxNesting + maxNesting * t.size) (Node.placeList BagId.fresh k nodes).1 := by
  obtain ⟨rank, hrank⟩ := RuleTable.exists_rank hclean
  have hranked : t.Ranked rank := fun name rule hrule => (hrank name rule hrule).2
  have hbelow : ∀ name, t.RanksBelow rank t.size name := by
    intro name hname
    obtain ⟨rule, hrule⟩ := Option.isSome_iff_exists.mp
      (Std.ExtTreeMap.isSome_getElem?_eq_contains.trans hname)
    exact (hrank name rule hrule).1
  have hplaced : Node.AllTame (Node.placeList BagId.fresh k nodes).1 := by
    refine Node.Throughout.place (fun n j h => ?_) hn k
    cases n <;> trivial
  have hall := Node.Refers.throughout hplaced fun name _ => hbelow name
  exact RuleTable.costs_of_ranks hb.sound ht hranked t.size maxNesting (Nat.le_refl _)
    ((nestsWithin_of_parseText hp).place k) hall

/-- **The inspection is sound for recursion.**  Let the rules be a host's, let the inspection find
neither a rule that mentions itself nor a cycle, and let neither a candidate nor the template hold a
loop or a definition of a rule of the run.  Then, with `n` rules, limits of `128 * (n + 1)` levels
and `256 * (n + 1)` frames above the root let every template that is one be expanded to a text,
whatever else the engine holds. -/
theorem tryExpand_of_inspect (e : Engine H) (hb : e.rules.Built) (flat : Bool)
    (hclean : ∀ f ∈ e.rules.inspect flat, ¬f.Recursive) (ht : e.rules.AllTame) (text : String)
    {nodes : List (Node Unit)} (hp : parseText text = .ok nodes) (hn : Node.AllTame nodes)
    (hlevel : 1 + 128 * (e.rules.size + 1) ≤ e.options.maxLevel)
    (hframes : 1 + 256 * (e.rules.size + 1) ≤ e.options.maxFrames) :
    ∃ out, (e.tryExpand text false).1 = .ok out := by
  have houtcome : (e.tryExpand text false).1 =
      (evaluated e.setting text e.machine.world.forget).1 :=
    congrArg Prod.fst (outcome_forgetting e text)
  have hmax : maxNesting = 128 := rfl
  have hlevel' : 1 + (maxNesting + maxNesting * e.rules.size) ≤ e.setting.maxLevel := by
    show _ ≤ e.options.maxLevel
    rw [hmax]
    omega
  have hframes' : 1 + 2 * (maxNesting + maxNesting * e.rules.size) ≤ e.setting.maxFrames := by
    show _ ≤ e.options.maxFrames
    rw [hmax]
    omega
  -- what earlier calls left is forgotten first, the rules of the run among it
  let w := e.machine.world.forget.say (.input text)
  have hcost : Costs e.setting.rules _ (w.takeUp nodes).1 :=
    costs_of_inspect hb hclean ht hp hn w.chance.bags.next
  have hruntime : (w.takeUp nodes).2.runtime = ∅ := rfl
  obtain ⟨out, w', hout, -⟩ := Direct.succeeds_expand hcost hlevel' hframes' hruntime
  refine ⟨out, ?_⟩
  have hevaluated : evaluated e.setting text e.machine.world.forget =
      settled text (Direct.expand e.setting (w.takeUp nodes).1 (w.takeUp nodes).2) := by
    rw [evaluated, hp]
  rw [houtcome, hevaluated, hout]
  rfl

/-! ### A table with two rules -/

/-- The rule `b` asks about the rule `a`, and gives it to itself as the parameter of a modifier. -/
def twoRules : Engine Unit :=
  let e : Engine Unit := .start { tagScoping := .layered, maxLevel := 385, maxFrames := 769 }
    (.ofSeed 0) ()
  ((e.addRule "a" (.list ["x", "y"])).2.addRule "b" (.text "[if #a# in #a# then #a.m(#a#)#]")).2

/-- The template sets a tag to what the upper rule gives. -/
def upperTemplate : String := "[t:#b#]#t#"

theorem tryExpand_upperTemplate : twoRules.rules.size = 2 ∧ twoRules.inspect = [] ∧
    ∃ out, (twoRules.tryExpand upperTemplate false).1 = .ok out := by
  have hb : twoRules.rules.Built := (RuleTable.Built.empty.add "a" _).add "b" _
  have hsize : twoRules.rules.size = 2 := by decide +kernel
  have hfindings : twoRules.rules.inspect false = [] := by decide +kernel
  have ht : twoRules.rules.AllTame := by
    have hwithin : ∀ name ∈ twoRules.rules.names, ∀ c ∈ twoRules.rules.candidates name,
        Node.ThroughoutWithin (fun nodes => ∀ n ∈ nodes, n.Tame) 3 c.nodes := by decide +kernel
    exact fun name hname c hc => (hwithin name hname c hc).throughout
  have hsome : (parseText upperTemplate).toOption.isSome = true := by decide +kernel
  have htame : ∀ nodes ∈ (parseText upperTemplate).toOption,
      Node.ThroughoutWithin (fun nodes => ∀ n ∈ nodes, n.Tame) 3 nodes := by decide +kernel
  refine ⟨hsize, hfindings, ?_⟩
  cases hp : parseText upperTemplate with
  | error f =>
    rw [hp] at hsome
    cases hsome
  | ok nodes =>
    rw [hp] at htame
    have hn : Node.AllTame nodes := (htame nodes rfl).throughout
    refine tryExpand_of_inspect twoRules hb false ?_ ht upperTemplate hp hn ?_ ?_
    · rw [hfindings]
      simp
    · rw [hsize]
      decide
    · rw [hsize]
      decide

end TemplateGrammar.Engine
