import TemplateGrammar.Proofs.Expansion.Cost
import TemplateGrammar.Proofs.Expansion.Parallel
import TemplateGrammar.Proofs.Tags.Layers

/-!
# What leaves the tags of a level alone

With layered tags, what a rule sets on its own level is gone when the rule has been expanded.  So
nodes that set no tag leave what their level sees as it was, whatever rules they refer to, but for
one thing: a membership test against a lone reference expands every candidate of the rule, and does
so on the level of the test.

Given names whose rules hold no tag either (`guarded`), nodes are *quiet* if they set no tag and
make such tests against these rules alone.  That these rules hold no tag has to stay so, and so a
rule of the run under such a name must be made of quiet values wherever it is defined
(`Node.AllSealed`, `Dict.Sealed`).  Then what is quiet is harmless on any level, and what is sealed
on any higher one (`Node.Harmless`), and no operation on harmless nodes disturbs what is seen from
the top level (`World.parallel_undisturbed`).
-/

namespace TemplateGrammar

/-! ### Quiet and sealed trees -/

/-- The name in a membership test against a lone reference. -/
def Condition.listed? {σ : Type} (c : Condition σ) : Option String :=
  match c.op, c.right with
  | .among, [.rule name _] | .notAmong, [.rule name _] => some name
  | _, _ => none

/-- **The right operands of a condition** are its right side, texts, or candidates of the rule that
is listed. -/
theorem Condition.mem_rightOperands {H : Type} {s : Setting H} {level : Nat} {w : World H}
    {c : Condition BagId} {v : List (Node BagId)} (h : v ∈ c.rightOperands s level w) :
    v = c.right ∨ (∃ text, v = [.text text]) ∨ ∃ name rule, c.listed? = some name ∧
      (w.runtime[name]? = some rule ∨ s.rules[name]? = some rule) ∧
      v ∈ rule.candidates.map Candidate.nodes := by
  obtain ⟨left, op, right⟩ := c
  unfold Condition.rightOperands at h
  split at h
  -- a membership test and its denial list the same
  iterate 2
    · rename_i name mods hop hright
      dsimp only at hop hright
      subst hop hright
      split at h
      · obtain ⟨text, -, rfl⟩ := List.mem_map.mp h
        exact .inr (.inl ⟨text, rfl⟩)
      · split at h
        · rename_i rule hrule
          exact .inr (.inr ⟨name, rule, rfl, (Option.or_eq_some_iff.mp hrule).imp id And.right, h⟩)
        · exact .inl (List.mem_singleton.mp h)
  · exact .inl (List.mem_singleton.mp h)

namespace Node

variable {σ : Type} {guarded : String → Prop}

/-- The node sets no tag, and if it tests for membership among candidates, then among those of a
guarded rule. -/
def Quiet (guarded : String → Prop) : Node σ → Prop
  | .tag _ _ => False
  | .ifBlock c _ _ | .whileBlock c _ => ∀ name ∈ c.listed?, guarded name
  | _ => True

instance [DecidablePred guarded] : DecidablePred (Quiet guarded : Node σ → Prop)
  | .tag _ _ => inferInstanceAs (Decidable False)
  | .ifBlock c _ _ | .whileBlock c _ =>
    inferInstanceAs (Decidable (∀ name ∈ c.listed?, guarded name))
  | .text _ | .weight _ | .rule _ _ | .define _ _ | .choice _ _ _ =>
    inferInstanceAs (Decidable True)

/-- **All nodes of a tree are quiet.** -/
def AllQuiet (guarded : String → Prop) (nodes : List (Node σ)) : Prop :=
  Throughout (fun nodes => ∀ n ∈ nodes, n.Quiet guarded) nodes

/-- If the node defines a guarded rule, then with quiet values. -/
def Sealed (guarded : String → Prop) : Node σ → Prop
  | .define name values => guarded name → ∀ v ∈ values, AllQuiet guarded v
  | _ => True

/-- **All nodes of a tree are sealed.** -/
def AllSealed (guarded : String → Prop) (nodes : List (Node σ)) : Prop :=
  Throughout (fun nodes => ∀ n ∈ nodes, n.Sealed guarded) nodes

theorem AllQuiet.sealed {nodes : List (Node σ)} (h : AllQuiet guarded nodes) :
    AllSealed guarded nodes := by
  induction h with
  | intro here inside ih =>
    refine .intro (fun n hn => ?_) ih
    cases n with
    | define name values => exact fun _ v hv => inside _ hn v hv
    | _ => trivial

end Node

/-- The candidates of rules are sealed, and those of guarded rules are quiet. -/
structure Rule.Keeps {H : Type} (guarded : String → Prop) (name : String)
    (rule : Rule H) : Prop where
  all_sealed : ∀ c ∈ rule.candidates, Node.AllSealed guarded c.nodes
  quiet : guarded name → ∀ c ∈ rule.candidates, Node.AllQuiet guarded c.nodes

/-- Every rule of a dictionary keeps to that. -/
def Dict.Sealed {H : Type} (guarded : String → Prop) (rules : Dict (Rule H)) : Prop :=
  ∀ name rule, rules[name]? = some rule → Rule.Keeps guarded name rule

namespace Node

variable {guarded : String → Prop} {low level : Nat} {nodes : List (Node BagId)}

/-- **What may stand on a level** without disturbing what is seen from `low`: above, what is sealed,
and on `low` itself what is quiet. -/
def Harmless (guarded : String → Prop) (low level : Nat) (n : Node BagId) : Prop :=
  n.Sealed guarded ∧ (level ≤ low → n.Quiet guarded)

theorem every_harmless (hsealed : AllSealed guarded nodes)
    (hquiet : level ≤ low → AllQuiet guarded nodes) :
    Every (Harmless guarded low level) nodes := by
  by_cases hl : level ≤ low
  · exact (Every.both hsealed (hquiet hl)).imp fun n hn => ⟨hn.1, fun _ => hn.2⟩
  · exact Every.imp hsealed fun n hn => ⟨hn, fun hle => absurd hle hl⟩

theorem AllQuiet.harmless (h : AllQuiet guarded nodes) : Every (Harmless guarded low level) nodes :=
  every_harmless h.sealed fun _ => h

/-- Above the lower level, it is enough to be sealed. -/
theorem AllSealed.harmless (h : AllSealed guarded nodes) (hl : low < level) :
    Every (Harmless guarded low level) nodes :=
  every_harmless h fun hle => absurd hle (Nat.not_le_of_lt hl)

theorem every_harmless_text (text : String) : Every (Harmless guarded low level) [.text text] :=
  .text ⟨trivial, fun _ => trivial⟩

theorem every_harmless_entered (h : Every (Harmless guarded low level) nodes) (deepens : Bool) :
    Every (Harmless guarded low (Direct.entered level deepens)) nodes := by
  cases deepens with
  | false => exact h
  | true => exact h.imp fun n hn => ⟨hn.1, fun hle => hn.2 (Nat.le_of_succ_le hle)⟩

theorem Quiet.listed {σ : Type} {n : Node σ} (h : n.Quiet guarded) {c : Condition σ}
    (hc : c ∈ n.condition?) : ∀ name ∈ c.listed?, guarded name := by
  cases n with
  | ifBlock c' yes no =>
    obtain rfl := Option.some.inj hc
    exact h
  | whileBlock c' body =>
    obtain rfl := Option.some.inj hc
    exact h
  | _ => cases hc

end Node

/-! ### What a level sees -/

variable {H : Type} {guarded : String → Prop} {low level : Nat}

/-- **Undisturbed:** the lower level sees what it saw, and the rules of the run are sealed. -/
structure World.Undisturbed (guarded : String → Prop) (low : Nat) (seen : String → Option (Tag H))
    (w : World H) : Prop where
  layered : w.tags.scoping = .layered
  sees : ∀ name, w.tags.get? low name = seen name
  runtime : Dict.Sealed guarded w.runtime

namespace World.Undisturbed

variable {seen : String → Option (Tag H)} {w w' : World H}

theorem of_eq (h : w.Undisturbed guarded low seen) (htags : w'.tags = w.tags)
    (hruntime : w'.runtime = w.runtime) :
    w'.Undisturbed guarded low seen :=
  ⟨htags ▸ h.layered, htags ▸ h.sees, hruntime ▸ h.runtime⟩

theorem leave (h : w.Undisturbed guarded low seen) (hl : low ≤ level) :
    (w.leave level).Undisturbed guarded low seen :=
  ⟨(TagStore.scoping_leave _ _).trans h.layered, fun name =>
    (TagStore.get?_leave_of_le w.tags hl name).trans (h.sees name), h.runtime⟩

theorem setTag (h : w.Undisturbed guarded low seen) (hl : low < level) (name : String)
    (values : List String) (selector : Selector H) :
    (w.setTag level name values selector).Undisturbed guarded low seen := by
  refine ⟨?_, fun other => ?_, ?_⟩
  · rw [World.tags_setTag, TagStore.scoping_store]
    exact h.layered
  · rw [World.tags_setTag, TagStore.get?_store_of_lt h.layered hl]
    exact h.sees other
  · rw [World.runtime_setTag]
    exact h.runtime

theorem define (h : w.Undisturbed guarded low seen) {name : String}
    {values : List (List (Node BagId))} (hv : ∀ v ∈ values, Node.AllSealed guarded v)
    (hquiet : guarded name → ∀ v ∈ values, Node.AllQuiet guarded v) :
    (w.define name values).Undisturbed guarded low seen := by
  refine ⟨h.layered, h.sees, fun other rule hget => ?_⟩
  have hnodes : ∀ c ∈ values.map (Candidate.mk ""), c.nodes ∈ values := by
    intro c hc
    obtain ⟨v, hv, rfl⟩ := List.mem_map.mp hc
    exact hv
  unfold World.define at hget
  dsimp only at hget
  rw [Std.ExtTreeMap.getElem?_insert] at hget
  split at hget
  · rename_i hsame
    obtain rfl : name = other := by simpa using hsame
    obtain rfl := Option.some.inj hget
    exact ⟨fun c hc => hv _ (hnodes c hc), fun hg c hc => hquiet hg _ (hnodes c hc)⟩
  · exact h.runtime other rule hget

end World.Undisturbed

/-! ### What harmless nodes do -/

section Harmless

variable {s : Setting H} {seen : String → Option (Tag H)} {w : World H}

theorem Rule.Keeps.harmless {name : String} {rule : Rule H} (h : Rule.Keeps guarded name rule)
    (hl : level ≤ low → guarded name) {c : Candidate} (hc : c ∈ rule.candidates) :
    Node.Every (Node.Harmless guarded low level) c.nodes :=
  Node.every_harmless (h.all_sealed c hc) fun hle => h.quiet (hl hle) c hc

/-- **The operands of a condition are harmless,** if the node that it stands in is. -/
theorem World.Undisturbed.operands (hs : Dict.Sealed guarded s.rules)
    (hw : w.Undisturbed guarded low seen) {n : Node BagId}
    (hn : Node.Every (Node.Harmless guarded low level) [n]) {c : Condition BagId}
    (hc : c ∈ n.condition?) : ∀ v ∈ c.operands s level w,
    Node.Every (Node.Harmless guarded low level) v := by
  obtain ⟨hleft, hright⟩ := hn.sides List.mem_cons_self hc
  have hlisted : level ≤ low → ∀ name ∈ c.listed?, guarded name := fun hle =>
    ((hn.here n List.mem_cons_self).2 hle).listed hc
  intro v hv
  rcases List.mem_cons.mp hv with rfl | hv
  · exact hleft
  · rcases Condition.mem_rightOperands hv with rfl | ⟨text, rfl⟩ | ⟨name, rule, hname, hrule, hv⟩
    · exact hright
    · exact Node.every_harmless_text text
    · obtain ⟨candidate, hcandidate, rfl⟩ := List.mem_map.mp hv
      have hkeeps : Rule.Keeps guarded name rule := hrule.elim (hw.runtime name rule) (hs name rule)
      exact hkeeps.harmless (fun hle => hlisted hle name hname) hcandidate

/-- **What a name stands for is harmless** on the level it is expanded on. -/
theorem World.Undisturbed.resolve (hs : Dict.Sealed guarded s.rules)
    (hw : w.Undisturbed guarded low seen) (hl : low ≤ level) {name : String}
    {nodes : List (Node BagId)} {deepens : Bool}
    (h : (w.resolve s level name).1 = .nodes nodes deepens) :
    Node.Every (Node.Harmless guarded low (Direct.entered level deepens)) nodes := by
  have htext : ∀ text {d : Bool}, Resolution.nodes [.text text] d = .nodes nodes deepens →
      Node.Every (Node.Harmless guarded low (Direct.entered level deepens)) nodes := by
    intro text d he
    obtain ⟨rfl, -⟩ := Resolution.nodes.inj he
    exact Node.every_harmless_text text
  -- a rule is expanded one level deeper, and so above the lower level
  have hrule : ∀ {chooser : Chooser} {rule : Rule H}, Rule.Keeps guarded name rule →
      (w.resolveRule chooser rule).1 = .nodes nodes deepens →
      Node.Every (Node.Harmless guarded low (Direct.entered level deepens)) nodes := by
    intro chooser rule hkeeps he
    unfold World.resolveRule at he
    dsimp only at he
    split at he
    · rename_i c hget
      obtain ⟨rfl, rfl⟩ := Resolution.nodes.inj he
      exact (hkeeps.all_sealed c (List.mem_of_getElem? hget)).harmless (Nat.lt_succ_of_le hl)
    · cases he
  unfold World.resolve at h
  split at h
  · exact htext _ h
  · split at h
    · dsimp only at h
      split at h
      · exact htext _ h
      · cases h
    · split at h
      · exact htext _ h
      · split at h
        · rename_i rule hget
          exact hrule (hw.runtime name rule hget) h
        · split at h
          · rename_i rule hget
            exact hrule (hs name rule hget) h
          · cases h

/-- **Harmless nodes leave what the top level sees as it is:** that it is undisturbed is a relation
of the world with itself, which goes in parallel. -/
theorem World.parallel_undisturbed (hs : Dict.Sealed guarded s.rules) :
    World.Parallel s (Node.Harmless guarded 1) fun w v => w = v ∧ w.Undisturbed guarded 1 seen where
  say n h := by
    obtain ⟨rfl, hw⟩ := h
    exact ⟨rfl, hw.of_eq rfl rfl⟩
  freshBag h := by
    obtain ⟨rfl, hw⟩ := h
    exact ⟨rfl, rfl, hw.of_eq rfl rfl⟩
  call m name text args h := by
    obtain ⟨rfl, hw⟩ := h
    exact ⟨rfl, rfl, hw.of_eq rfl rfl⟩
  leave hl h := by
    obtain ⟨rfl, hw⟩ := h
    exact ⟨rfl, hw.leave hl⟩
  resolve {w v level} name hl h := by
    obtain ⟨rfl, hw⟩ := h
    have hw₁ := hw.of_eq (World.tags_resolve s level name w) (World.runtime_resolve s level name w)
    exact ⟨rfl, ⟨rfl, hw₁⟩, fun nodes deepens hnodes => hw.resolve hs hl hnodes⟩
  parameters deepens hn part hp := Node.every_harmless_entered
    (hn.part List.mem_cons_self hp) deepens
  operands _ h hn hc := by
    obtain ⟨rfl, hw⟩ := h
    exact ⟨rfl, hw.operands hs hn hc⟩
  choice h _ := by
    obtain ⟨rfl, hw⟩ := h
    exact ⟨rfl, rfl, hw.of_eq rfl rfl⟩
  setTag texts h _ hgood _ := by
    obtain ⟨rfl, hw⟩ := h
    exact ⟨rfl, hw.setTag (Nat.lt_of_not_le hgood.2) _ texts _⟩
  define h hgood hvalues := by
    obtain ⟨rfl, hw⟩ := h
    exact ⟨rfl, hw.define (fun v hv => (hvalues v hv).imp fun _ hn => hn.1) hgood.1⟩

/-- **What is quiet leaves the root's tags alone.** -/
theorem World.Undisturbed.expand (hs : Dict.Sealed guarded s.rules) {nodes : List (Node BagId)}
    (hn : Node.AllQuiet guarded nodes) (hw : w.Undisturbed guarded 1 seen) :
    (Direct.expand s nodes w).2.Undisturbed guarded 1 seen :=
  ((World.parallel_undisturbed hs).expand hn.harmless ⟨rfl, hw⟩).2.2

end Harmless

end TemplateGrammar
