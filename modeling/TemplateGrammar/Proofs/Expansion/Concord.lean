import TemplateGrammar.Proofs.Engine.Quiet
import TemplateGrammar.Proofs.Expansion.Kept

/-!
# Worlds that concur on the top level

Flat and layered tags differ only in what is written on deeper levels: it stays in the one and goes
in the other.  So two worlds that differ in nothing but their tags, and see the same tags from the
top level with nothing above it, give the same expansions as long as no tag is set deeper
(`World.Concur`, `World.parallel_concur`).

Whether it is depends on where a node stands.  Choices, blocks, operands and the values of a tag are
expanded on the level of whatever holds them, and may set tags there.  Parameters of modifiers are
expanded with the rule that the reference stands for, and the values of a rule of the run where it
is called, so these must set none (`Node.TagsAtHand`); nor must candidates of the table, which are
expanded a level deeper, or in a membership test on whatever level that stands.
-/

namespace TemplateGrammar

namespace Node

variable {σ : Type}

/-- The lists of nodes that are not expanded with the node on its level: parameters of modifiers,
and the values of a rule of the run. -/
def remote : Node σ → List (List (Node σ))
  | rule _ mods => mods.flatMap Modifier.parameters
  | choice _ _ mods => mods.flatMap Modifier.parameters
  | define _ values => values
  | _ => []

/-- **Tags are set at hand:** no tag is set in what is remote. -/
def TagsAtHand (n : Node σ) : Prop :=
  ∀ part ∈ n.remote, AllUntagged part

/-- **Tags are set on the top level:** they are set at hand, and on no other level than the
first. -/
def TagsOnTop (level : Nat) (n : Node σ) : Prop :=
  n.TagsAtHand ∧ (level = 1 ∨ n.Untagged)

theorem mem_parts_of_mem_remote {n : Node σ} {part : List (Node σ)} (h : part ∈ n.remote) :
    part ∈ n.parts := by
  cases n with
  | rule name mods => exact h
  | choice site values mods => exact List.mem_append_right values h
  | define name values => exact h
  | _ => cases h

/-- **Where no tag is set,** any level will do. -/
theorem AllUntagged.onTop {nodes : List (Node σ)} (h : AllUntagged nodes) (level : Nat) :
    Every (TagsOnTop level) nodes := by
  induction h with
  | intro here inside ih =>
    refine .intro (fun n hn => ⟨fun part hp => ?_, .inr (here n hn)⟩) ih
    exact inside n hn part (mem_parts_of_mem_remote hp)

end Node

variable {H : Type}

/-! ### Concord of tags -/

namespace TagStore

variable {ts us : TagStore H}

/-- **The tags concur:** all lie on the top level, and from there the same are seen. -/
structure Concur (ts us : TagStore H) : Prop where
  left : ts.Within 1
  right : us.Within 1
  same : ∀ name, ts.get? 1 name = us.get? 1 name

theorem Concur.get? (h : ts.Concur us) {level : Nat} (hl : 1 ≤ level) (name : String) :
    ts.get? level name = us.get? level name := by
  rw [get?_of_within h.left hl, get?_of_within h.right hl, h.same]

theorem Concur.store (h : ts.Concur us) (name : String) (tag : Tag H) :
    (ts.store 1 name tag).Concur (us.store 1 name tag) := by
  refine ⟨h.left.store name tag, h.right.store name tag, fun other => ?_⟩
  rw [get?_store_self, get?_store_self, h.same]

theorem Concur.leave (h : ts.Concur us) {level : Nat} (hl : 1 ≤ level) :
    (ts.leave level).Concur (us.leave level) := by
  have within : ∀ {ts : TagStore H}, ts.Within 1 → (ts.leave level).Within 1 := by
    intro ts hts
    cases ts with
    | flat tags => trivial
    | layered tags => exact fun layer hm => hts layer ((List.dropWhile_sublist _).subset hm)
  refine ⟨within h.left, within h.right, fun name => ?_⟩
  rw [get?_leave_of_le ts hl, get?_leave_of_le us hl, h.same]

theorem concur_clear (ts us : TagStore H) : ts.clear.Concur us.clear := by
  have within : ∀ ts : TagStore H, ts.clear.Within 1 := by
    intro ts
    cases ts with
    | flat tags => trivial
    | layered tags => exact fun layer hm => absurd hm List.not_mem_nil
  refine ⟨within ts, within us, fun name => ?_⟩
  have hnone : ∀ ts : TagStore H, ts.clear.get? 1 name = none := fun ts =>
    Option.eq_none_iff_forall_ne_some.mpr fun tag => all_clear (fun _ => False) ts 1 name tag
  rw [hnone, hnone]

end TagStore

/-! ### Concord of worlds -/

/-- No rule of the run sets a tag. -/
def World.RunUntagged (w : World H) : Prop :=
  ∀ (name : String) (rule : Rule H), w.runtime[name]? = some rule → rule.Every Node.Untagged

/-- **The worlds concur:** they differ in their tags only, which concur, and no rule of the run sets
a tag. -/
inductive World.Concur : World H → World H → Prop
  | intro {w : World H} {ts : TagStore H} (tags : w.tags.Concur ts) (runtime : w.RunUntagged) :
      Concur w { w with tags := ts }

variable {s : Setting H} (hs : ∀ (name : String) (rule : Rule H), s.rules[name]? = some rule →
    rule.Every Node.Untagged)

include hs in
/-- **Rules of the run go on to set no tags,** where tags are set on the top level. -/
theorem World.kept_runUntagged (level : Nat) :
    World.Kept s (Node.TagsOnTop level) World.RunUntagged where
  text _ := ⟨nofun, .inr trivial⟩
  say _ h := h
  freshBag h := h
  call _ _ _ _ h := h
  leave _ h := h
  readTag h _ := h
  runtimeRule h hget := ⟨h, fun c hc => Node.AllUntagged.onTop (h _ _ hget c hc) level⟩
  tableRule h hget := ⟨h, fun c hc => Node.AllUntagged.onTop (hs _ _ hget c hc) level⟩
  choice h _ := h
  setTag texts h _ _ _ := by
    unfold World.setTag
    split <;> exact h
  define h hgood _ := World.define_keeps (Rule.every_of_values hgood.1 _) h

namespace World.Concur

variable {w v : World H}

theorem runtime (h : w.Concur v) : w.RunUntagged := by
  cases h
  assumption

theorem say (h : w.Concur v) (n : Notice) : (w.say n).Concur (v.say n) := by
  cases h with
  | intro tags runtime => exact .intro (w := w.say n) tags runtime

theorem freshBag (h : w.Concur v) : w.freshBag.1 = v.freshBag.1 ∧
    w.freshBag.2.Concur v.freshBag.2 := by
  cases h with
  | intro tags runtime => exact ⟨rfl, .intro (w := w.freshBag.2) tags runtime⟩

theorem pick (h : w.Concur v) (chooser : Chooser) (selector : Selector H) (count : Nat) :
    (w.pick chooser selector count).1 = (v.pick chooser selector count).1 ∧
      (w.pick chooser selector count).2.Concur (v.pick chooser selector count).2 := by
  cases h with
  | intro tags runtime => exact ⟨rfl, .intro (w := (w.pick chooser selector count).2) tags runtime⟩

theorem call (h : w.Concur v) (m : Method H) (name text : String) (args : List String) :
    (w.call m name text args).1 = (v.call m name text args).1 ∧
      (w.call m name text args).2.Concur (v.call m name text args).2 := by
  cases h with
  | intro tags runtime => exact ⟨rfl, .intro (w := (w.call m name text args).2) tags runtime⟩

include hs in
theorem define (h : w.Concur v) {level : Nat} {name : String} {values : List (List (Node BagId))}
    (hgood : Node.TagsOnTop level (.define name values)) :
    (w.define name values).Concur (v.define name values) := by
  have hvalues : ∀ v ∈ values, Node.Every (Node.TagsOnTop level) v := fun v hv =>
    Node.AllUntagged.onTop (hgood.1 v hv) level
  have hruntime := (World.kept_runUntagged hs level).define h.runtime hgood hvalues
  cases h with
  | intro tags runtime => exact .intro (w := w.define name values) tags hruntime

theorem setTag (h : w.Concur v) (name : String) (values : List String) (selector : Selector H) :
    (w.setTag 1 name values selector).Concur (v.setTag 1 name values selector) := by
  cases h with
  | @intro ts tags runtime =>
    have hstored := tags.store name ⟨values, selector⟩
    unfold World.setTag
    rw [show ({ w with tags := ts } : World H).tags.get? 1 name =
      w.tags.get? 1 name from (tags.same name).symm]
    split
    · exact .intro hstored runtime
    · exact .intro hstored runtime

theorem leave (h : w.Concur v) {level : Nat} (hl : 1 ≤ level) :
    (w.leave level).Concur (v.leave level) := by
  cases h with
  | intro tags runtime => exact .intro (w := w.leave level) (tags.leave hl) runtime

theorem runtime_eq (h : w.Concur v) : w.runtime = v.runtime := by
  cases h
  rfl

theorem get? (h : w.Concur v) {level : Nat} (hl : 1 ≤ level) (name : String) :
    w.tags.get? level name = v.tags.get? level name := by
  cases h with
  | intro tags runtime => exact tags.get? hl name

end World.Concur

/-! ### Expansions in worlds that concur -/

include hs in
/-- **Worlds that concur go in parallel** where tags are set on the top level, and rules of the
table set none. -/
theorem World.parallel_concur : World.Parallel s Node.TagsOnTop World.Concur where
  say n h := h.say n
  freshBag h := h.freshBag
  call m name text args h := h.call m name text args
  leave hl h := h.leave hl
  resolve {w v level} name hl h := by
    obtain ⟨hresult, hw⟩ := World.alike_resolve (s := s) (fun n h => h.say n)
      (fun chooser selector count h => h.pick chooser selector count) h
        (h.get? hl name) h.runtime_eq
    refine ⟨hresult, hw, fun nodes deepens hnodes => ?_⟩
    exact ((World.kept_runUntagged hs (Direct.entered level deepens)).resolve level name
      h.runtime).2 _ _ hnodes
  parameters deepens hn part hp := Node.AllUntagged.onTop
    ((hn.here _ List.mem_cons_self).1 part hp) _
  operands {w v level n c} hl h hn hc := by
    obtain ⟨hleft, hright⟩ := hn.sides List.mem_cons_self hc
    refine ⟨Condition.operands_congr (h.get? hl) h.runtime_eq c, ?_⟩
    exact (World.kept_runUntagged hs level).operands hleft hright h.runtime
  choice h _ := h.pick _ _ _
  setTag texts h _ hgood _ := by
    -- a node that sets a tag stands on the top level
    obtain rfl := hgood.2.resolve_right id
    exact h.setTag _ texts _
  define h hgood _ := h.define hs hgood

end TemplateGrammar
