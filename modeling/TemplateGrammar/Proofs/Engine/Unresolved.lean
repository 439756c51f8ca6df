import TemplateGrammar.Proofs.Engine.Quiet
import TemplateGrammar.Proofs.Engine.TopTags
import TemplateGrammar.Proofs.Expansion.Holding
import TemplateGrammar.Proofs.Rules.Unresolved

/-!
# Names that are reported as unresolved

A finding that a reference is unresolved is no false alarm: where templates spare the name too, and
the host has no object of it, no expansion ever finds anything under the name, and every reference
to it is left as it was written (`advance_of_unresolved`).

What an expansion can find is what is stored in its world.  Only nodes store tags and rules of the
run, so a world that has nothing of a name stays so as long as the nodes that are expanded spare it
(`World.kept_lacks`): the nodes of the templates, the candidates of the table, and those of rules of
the run, which came from one of the two.
-/

namespace TemplateGrammar

variable {H : Type} {name : String}

/-- **The world lacks a name:** there is no tag and no rule of the run of that name, and rules of
the run spare it. -/
structure World.Lacks (name : String) (w : World H) : Prop where
  tags : ∀ level, w.tags.get? level name = none
  runtime : w.runtime[name]? = none
  spares : ∀ (other : String) (rule : Rule H), w.runtime[other]? = some rule →
    rule.Every (Node.Spares name)

namespace World.Lacks

variable {w : World H}

theorem of_eq {w' : World H} (h : w.Lacks name) (htags : w'.tags = w.tags)
    (hruntime : w'.runtime = w.runtime) :
    w'.Lacks name :=
  ⟨htags ▸ h.tags, hruntime ▸ h.runtime, hruntime ▸ h.spares⟩

theorem setTag (h : w.Lacks name) {other : String} (hother : other ≠ name) (level : Nat)
    (values : List String) (selector : Selector H) :
    (w.setTag level other values selector).Lacks name := by
  have hruntime : (w.setTag level other values selector).runtime = w.runtime := by
    unfold World.setTag
    split <;> rfl
  refine ⟨fun low => ?_, hruntime ▸ h.runtime, hruntime ▸ h.spares⟩
  rw [tags_setTag, TagStore.get?_store_of_ne hother]
  exact h.tags low

theorem define (h : w.Lacks name) {other : String} (hother : other ≠ name)
    {values : List (List (Node BagId))} (hvalues : ∀ v ∈ values, Node.Every (Node.Spares name) v) :
    (w.define other values).Lacks name := by
  refine ⟨h.tags, ?_, World.define_keeps (Rule.every_of_values hvalues _) h.spares⟩
  show (w.runtime.insert other _)[name]? = none
  rw [Std.ExtTreeMap.getElem?_insert, if_neg (by simpa using hother)]
  exact h.runtime

end World.Lacks

/-- **Where nodes spare the name,** a world that lacks it goes on to lack it. -/
theorem World.kept_lacks {s : Setting H}
    (hrules : ∀ (other : String) (rule : Rule H), s.rules[other]? = some rule →
    rule.Every (Node.Spares name)) : World.Kept s (Node.Spares name) (World.Lacks name) where
  text _ := trivial
  say _ h := h.of_eq rfl rfl
  freshBag h := h.of_eq rfl rfl
  call _ _ _ _ h := h.of_eq rfl rfl
  leave {w level} _ h := by
    refine ⟨fun low => ?_, h.runtime, h.spares⟩
    obtain ⟨high, hsame⟩ := w.tags.exists_get?_leave level low name
    exact hsame.trans (h.tags high)
  readTag h _ := h.of_eq rfl rfl
  runtimeRule h hget := ⟨h.of_eq rfl rfl, h.spares _ _ hget⟩
  tableRule h hget := ⟨h.of_eq rfl rfl, hrules _ _ hget⟩
  choice h _ := h.of_eq rfl rfl
  setTag texts h _ hgood _ := h.setTag hgood _ texts _
  define h hgood hvalues := h.define hgood hvalues

theorem Node.every_spares_place {σ τ : Type} {f : Nat → τ} {nodes : List (Node σ)}
    (h : Every (Spares name) nodes) (k : Nat) : Every (Spares name) (placeList f k nodes).1 := by
  refine Throughout.place ?_ h k
  intro n j hn
  cases n <;> exact hn

namespace Engine

/-- **The text spares a name:** if it is a template, no node of it sets a tag or defines a rule of
the name. -/
def TextSpares (name text : String) : Prop :=
  ∀ nodes, parseText text = .ok nodes → Node.Every (Node.Spares name) nodes

/-- **The calls start from a clean slate:** there are no tags and no rules of the run, or the first
call forgets what there is. -/
def StartsClean (e : Engine H) : List (String × Bool) → Prop
  | (_, false) :: _ => True
  | _ => (∀ level name, e.machine.world.tags.get? level name = none) ∧ e.machine.world.runtime = ∅

variable {e : Engine H}

theorem lacks_beginning {keep : Bool} (h : keep = true → e.machine.world.Lacks name) :
    (e.beginning keep).Lacks name := by
  cases keep with
  | true => exact h rfl
  | false =>
    refine ⟨fun level => ?_, Std.ExtTreeMap.getElem?_empty, ?_⟩
    · cases hget : (e.beginning false).tags.get? level name with
      | none => rfl
      | some tag =>
        exact (TagStore.all_clear (fun _ => False) e.machine.world.tags level name tag hget).elim
    · exact fun other rule hget => (Dict.get?_empty_ne other rule hget).elim

/-- **A call of a text that spares the name** leaves nothing under it. -/
theorem lacks_tryExpand (ht : e.rules.Lacks name) {text : String} {keep : Bool}
    (htext : TextSpares name text) (h : (e.beginning keep).Lacks name) :
    (e.tryExpand text keep).2.machine.world.Lacks name := by
  have hkept : World.Kept e.setting (Node.Spares name) (World.Lacks name) :=
    World.kept_lacks ht.spares
  rw [show (e.tryExpand text keep).2.machine.world = _ from e.world_call text keep]
  refine hkept.evaluated (fun w nodes hw => hw.of_eq rfl rfl) text (fun nodes k hp => ?_) h
  exact Node.every_spares_place (htext nodes hp) k

theorem rules_tryExpand (e : Engine H) (text : String) (keep : Bool) :
    (e.tryExpand text keep).2.rules = e.rules := by
  obtain ⟨m, hm⟩ := e.given_tryExpand text keep
  rw [hm]

theorem lacks_afterCalls (ht : e.rules.Lacks name) {calls : List (String × Bool)}
    (htexts : ∀ call ∈ calls, TextSpares name call.1) (h : e.machine.world.Lacks name) :
    (e.afterCalls calls).machine.world.Lacks name := by
  induction calls generalizing e with
  | nil => exact h
  | cons call calls ih =>
    have hrules : (e.tryExpand call.1 call.2).2.rules.Lacks name :=
      e.rules_tryExpand call.1 call.2 ▸ ht
    have hbegin : (e.beginning call.2).Lacks name := lacks_beginning fun _ => h
    have hone := lacks_tryExpand ht (htexts call List.mem_cons_self) hbegin
    exact ih hrules (fun next hnext => htexts next (List.mem_cons_of_mem call hnext)) hone

theorem StartsClean.lacks {call : String × Bool} {more : List (String × Bool)}
    (h : e.StartsClean (call :: more)) :
    (e.beginning call.2).Lacks name := by
  obtain ⟨text, keep⟩ := call
  refine lacks_beginning ?_
  rintro rfl
  obtain ⟨htags, hruntime⟩ := h
  refine ⟨fun level => htags level name, ?_, ?_⟩
  · rw [hruntime]
    exact Std.ExtTreeMap.getElem?_empty
  · intro other rule hget
    rw [hruntime] at hget
    exact (Dict.get?_empty_ne other rule hget).elim

/-- **When the last of the calls begins,** there is nothing under the name. -/
theorem lacks_of_startsClean (ht : e.rules.Lacks name) {calls : List (String × Bool)}
    {text : String} {keep : Bool} (hclean : e.StartsClean (calls ++ [(text, keep)]))
    (htexts : ∀ call ∈ calls, TextSpares name call.1) :
    ((e.afterCalls calls).beginning keep).Lacks name := by
  cases calls with
  | nil => exact hclean.lacks
  | cons call calls =>
    have hrules : (e.tryExpand call.1 call.2).2.rules.Lacks name :=
      e.rules_tryExpand call.1 call.2 ▸ ht
    have hone := lacks_tryExpand ht (htexts call List.mem_cons_self) hclean.lacks
    exact lacks_beginning fun _ =>
      lacks_afterCalls hrules (fun next hnext => htexts next (List.mem_cons_of_mem call hnext)) hone

end Engine

/-- **A reference that nothing is found for** is left as it was written. -/
theorem Machine.advance_of_lacks {s : Setting H} {m : Machine H} (hname : name ≠ "")
    (hobject : s.objects[name]? = none) (hrule : s.rules[name]? = none) (hw : m.world.Lacks name)
    {top : Frame H} {below : List (Frame H)} {mods : List (Modifier BagId)} {rest : List (Instr H)}
    (hf : m.frames.toList = top :: below) (hp : top.pending = .node (.rule name mods) :: rest) :
    m.advance s = .running (((m.taken rest).say (.leftAsWritten name .notDefined)).append
      ("#" ++ name ++ "#")) := by
  have hresolve : m.world.resolve s m.level name = (.stuck .notDefined, m.world) := by
    unfold World.resolve
    rw [if_neg hname, hw.tags, hobject, hw.runtime, hrule]
  rw [advance_of_pending hf hp]
  show Turn.status (reference s name mods (m.taken rest)) = _
  unfold reference
  rw [show (m.taken rest).world.resolve s (m.taken rest).level name = _ from hresolve]
  rfl

/-- A membership test against a reference that nothing is found for is a test against what the
reference comes to. -/
theorem Condition.rightOperands_of_lacks {s : Setting H} {w : World H}
    (hrule : s.rules[name]? = none) (hw : w.Lacks name) (level : Nat) {c : Condition BagId}
    {mods : List (Modifier BagId)} (hc : c.right = [.rule name mods]) :
    c.rightOperands s level w = [c.right] := by
  obtain ⟨left, op, right⟩ := c
  obtain rfl : right = [.rule name mods] := hc
  have hnone : (w.runtime[name]?).or s.rules[name]? = none := by
    rw [hw.runtime, hrule]
    rfl
  cases op with
  | equal => rfl
  | unequal => rfl
  | among =>
    rw [rightOperands]
    dsimp only
    rw [hw.tags, hnone]
  | notAmong =>
    rw [rightOperands]
    dsimp only
    rw [hw.tags, hnone]

namespace Engine

/-- **A finding that a reference is unresolved is no false alarm.**  Let the table report the name,
let there be no object of it, and let calls start from a clean slate whose texts, the last one's
among them, neither set a tag nor define a rule of the name.  Wherever the expansion of the last one
comes through, there is no tag, no rule of the run and no rule of the table under the name; a
membership test against it has no candidates to test against; and a reference to it that is about to
be expanded is left as it was written, with a notice that it is not defined. -/
theorem advance_of_unresolved {e : Engine H} {owner name : String}
    (hfinding : .unresolved owner name ∈ e.rules.unresolved) (hobject : e.objects[name]? = none)
    (calls : List (String × Bool)) (text : String) (keep : Bool)
    (hclean : e.StartsClean (calls ++ [(text, keep)]))
    (htexts : ∀ call ∈ calls ++ [(text, keep)], TextSpares name call.1) {m₀ m : Machine H}
    (hm₀ : (e.afterCalls calls).Starts text keep m₀) (hm : Machine.Reaches e.setting m₀ m) :
    (∀ level, m.world.tags.get? level name = none) ∧ m.world.runtime[name]? = none ∧
    e.rules.get? name = none ∧
    (∀ (c : Condition BagId) mods level, c.right = [.rule name mods] →
      c.rightOperands e.setting level m.world = [c.right]) ∧
    ∀ top below mods rest, m.frames.toList = top :: below →
    top.pending = .node (.rule name mods) :: rest →
      m.advance e.setting =
        .running (((m.taken rest).say (.leftAsWritten name .notDefined)).append
          ("#" ++ name ++ "#")) := by
  have ht : e.rules.Lacks name := RuleTable.lacks_of_unresolved hfinding
  have hbegin : ((e.afterCalls calls).beginning keep).Lacks name :=
    lacks_of_startsClean ht hclean fun call hcall => htexts call (List.mem_append_left _ hcall)
  have hsetting : (e.afterCalls calls).setting = e.setting := by
    obtain ⟨m', hm'⟩ := e.given_afterCalls calls
    rw [hm']
    rfl
  obtain ⟨nodes, hp, hb⟩ := hm₀
  rw [hsetting] at hb
  have hnodes : Node.Every (Node.Spares name) nodes :=
    htexts (text, keep) (List.mem_append_right calls List.mem_cons_self) nodes hp
  have hkept : World.Kept e.setting (Node.Spares name) (World.Lacks name) :=
    World.kept_lacks ht.spares
  have hw : m.world.Lacks name :=
    (hkept.holds_of_reaches (Node.every_spares_place hnodes _) (hbegin.of_eq rfl rfl) hb hm).world
  have hrule : e.setting.rules[name]? = none := ht.absent
  refine ⟨hw.tags, hw.runtime, hrule, ?_, ?_⟩
  · exact fun c mods level hc => Condition.rightOperands_of_lacks hrule hw level hc
  · exact fun top below mods rest hf hp => Machine.advance_of_lacks ht.named hobject hrule hw hf hp

/-! ### A reference inside a rule -/

/-- The machine on which a call has made so many steps, if it comes so far. -/
def stepsInto (e : Engine H) (text : String) (keep : Bool) (n : Nat) : Option (Machine H) :=
  match parseText text with
  | .error _ => none
  | .ok nodes =>
    let taken := ((e.beginning keep).say (.input text)).takeUp nodes
    match Machine.begin e.setting taken.1 { e.machine with world := taken.2 } with
    | .stop _ _ => none
    | .go m => Machine.after e.setting n m

theorem reaches_of_stepsInto {e : Engine H} {text : String} {keep : Bool} {n : Nat} {m : Machine H}
    (h : e.stepsInto text keep n = some m) :
    ∃ m₀, e.Starts text keep m₀ ∧ Machine.Reaches e.setting m₀ m := by
  unfold stepsInto at h
  cases hp : parseText text with
  | error failure =>
    rw [hp] at h
    cases h
  | ok nodes =>
    rw [hp] at h
    dsimp only at h
    split at h
    · cases h
    · rename_i m₀ hb
      exact ⟨m₀, ⟨nodes, hp, hb⟩, Machine.reaches_of_after h⟩

/-- The name that the machine is about to expand a reference to. -/
def asked? (m : Machine H) : Option String :=
  match m.frames.toList with
  | top :: _ =>
    match top.pending with
    | .node (.rule name _) :: _ => some name
    | _ => none
  | [] => none

theorem exists_of_asked? {m : Machine H} {name : String} (h : asked? m = some name) :
    ∃ top below mods rest,
    m.frames.toList = top :: below ∧ top.pending = .node (.rule name mods) :: rest := by
  unfold asked? at h
  split at h
  · rename_i top below hf
    split at h
    · rename_i other mods rest hp
      obtain rfl := Option.some.inj h
      exact ⟨top, below, mods, rest, hf, hp⟩
    · cases h
  · cases h

/-- An engine with one rule, which asks for a name that is nowhere provided, in a test and by
itself. -/
def haunted : Engine Unit :=
  (Engine.start { tagScoping := .layered, maxLevel := 9, maxFrames := 20 } (.ofSeed 0) ()).act
    (.addRule "r" (.text "[if a in #ghost# then y else #ghost#]"))

/-- A template that sets a tag, and asks for the rule through a rule of the run. -/
def asking : String := "[t:x]{q(#r#)}#q#"

/-- The reference in the rule is left as it was written. -/
theorem advance_haunted : ∃ m₀ m, haunted.Starts asking true m₀ ∧
    Machine.Reaches haunted.setting m₀ m ∧
    asked? m = some "ghost" ∧ ∃ rest, m.advance haunted.setting =
      .running (((m.taken rest).say (.leftAsWritten "ghost" .notDefined)).append "#ghost#") := by
  have hfinding : Finding.unresolved "r" "ghost" ∈ haunted.rules.unresolved := by decide +kernel
  have hworld : haunted.machine.world = (World.start .layered (.ofSeed 0) ()).sayAll _ := rfl
  have hclean : haunted.StartsClean [(asking, true)] := by
    refine ⟨fun level name => ?_, by rw [hworld, World.sayAll_eq]; rfl⟩
    cases hget : haunted.machine.world.tags.get? level name with
    | none => rfl
    | some tag =>
      rw [hworld, World.tags_sayAll] at hget
      exact (TagStore.all_empty (fun _ => False) .layered level name tag hget).elim
  have htexts : ∀ call ∈ [(asking, true)], TextSpares "ghost" call.1 := by
    intro call hcall
    rw [List.mem_singleton.mp hcall]
    exact every_of_within (by decide +kernel)
  have hsteps : (haunted.stepsInto asking true 17).bind asked? = some "ghost" := by decide +kernel
  obtain ⟨m, hm, hasked⟩ := Option.bind_eq_some_iff.mp hsteps
  obtain ⟨m₀, hstarts, hreaches⟩ := reaches_of_stepsInto hm
  obtain ⟨top, below, mods, rest, hf, hp⟩ := exists_of_asked? hasked
  obtain ⟨-, -, -, -, hleft⟩ := advance_of_unresolved hfinding Std.ExtTreeMap.getElem?_empty []
    asking true hclean htexts hstarts hreaches
  exact ⟨m₀, m, hstarts, hreaches, hasked, rest, hleft top below mods rest hf hp⟩

end Engine

end TemplateGrammar
