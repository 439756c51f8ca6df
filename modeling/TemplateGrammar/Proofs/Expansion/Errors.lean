import TemplateGrammar.Expansion.Direct

/-!
# The errors of an expansion

An expansion ends without a text only where a limit ends it.  The third error, a condition that has
too few or too many operands, never comes up: a condition gets two operands, or for a membership
test at least one (`accepts_operands`), each of them is expanded to one text
(`length_of_arguments`), and so the branch on them has something to compare (`isSome_holds?_iff`).
-/

namespace TemplateGrammar

/-- The two errors that come from a limit of the setting. -/
def ExpansionError.IsLimit {H : Type} (s : Setting H) (e : ExpansionError) : Prop :=
  e = .levelLimit s.maxLevel ∨ e = .frameLimit s.maxFrames

/-- The numbers of operands that a comparison can compare. -/
def Comparison.Accepts : Comparison → Nat → Prop
  | .equal, n | .unequal, n => n = 2
  | .among, n | .notAmong, n => 1 ≤ n

theorem Comparison.isSome_holds?_iff (op : Comparison) (texts : List String) :
    (op.holds? texts).isSome = true ↔ op.Accepts texts.length := by
  rcases texts with _ | ⟨a, _ | ⟨b, _ | ⟨c, texts⟩⟩⟩ <;> cases op <;> simp [holds?, Accepts]

/-- **A condition has as many operands as its comparison takes.** -/
theorem Condition.accepts_operands {H : Type} (s : Setting H) (level : Nat) (w : World H)
    (c : Condition BagId) : c.op.Accepts (c.operands s level w).length := by
  obtain ⟨left, op, right⟩ := c
  rw [operands, List.length_cons]
  cases op with
  | equal => rfl
  | unequal => rfl
  | among => exact Nat.succ_le_succ (Nat.zero_le _)
  | notAmong => exact Nat.succ_le_succ (Nat.zero_le _)

/-- A task whose condition, if it is one, has operands to compare. -/
def Task.Comparable : Task → Prop
  | .condition operands op _ _ => op.Accepts operands.length
  | _ => True

namespace Direct

variable {H α β : Type} {s : Setting H}

/-- An error, if there is one, comes from a limit. -/
def OnlyLimits (s : Setting H) (x : Expanded α H) : Prop :=
  ∀ e, x.1 = .error e → e.IsLimit s

theorem onlyLimits_ok (a : α) (w : World H) : OnlyLimits s (.ok a, w) := by
  intro e h
  simp at h

theorem OnlyLimits.andThen {x : Expanded α H} {f : α → World H → Expanded β H} (hx : OnlyLimits s x)
    (hf : ∀ a w, x = (.ok a, w) → OnlyLimits s (f a w)) : OnlyLimits s (Direct.andThen x f) := by
  obtain ⟨result, w⟩ := x
  cases result with
  | ok a => exact hf a w rfl
  | error e =>
    intro e' h
    exact hx e' (congrArg Except.error (Except.error.inj h))

theorem length_of_arguments {enter : Entrance H} {level : Nat} {values : List (List (Node BagId))} :
    ∀ {w w' : World H} {texts : List String},
    arguments enter level values w = (.ok texts, w') → texts.length = values.length := by
  induction values with
  | nil =>
    intro w w' texts h
    rw [← Except.ok.inj (Prod.mk.inj h).1]
    rfl
  | cons v values ih =>
    intro w w' texts h
    rw [arguments] at h
    rcases he : enter level false (.nodes v []) w with ⟨first, w₁⟩
    rw [he] at h
    cases first with
    | error e => exact absurd (Prod.mk.inj h).1 (by simp)
    | ok text =>
      dsimp only [andThen] at h
      rcases hr : arguments enter level values w₁ with ⟨more, w₂⟩
      rw [hr] at h
      cases more with
      | error e => exact absurd (Prod.mk.inj h).1 (by simp)
      | ok more =>
        rw [← Except.ok.inj (Prod.mk.inj h).1, List.length_cons, List.length_cons, ih hr]

/-! ### From the frames to the root -/

section Entered

variable {enter : Entrance H} (he : ∀ level deepens t w, t.Comparable →
    OnlyLimits s (enter level deepens t w))
include he

theorem onlyLimits_arguments (level : Nat) (values : List (List (Node BagId))) :
    ∀ w, OnlyLimits s (arguments enter level values w) := by
  induction values with
  | nil => exact fun w => onlyLimits_ok _ w
  | cons v values ih =>
    intro w
    rw [arguments]
    exact (he _ _ (.nodes _ _) _ trivial).andThen fun text w₁ _ => (ih w₁).andThen fun _ w₂ _ =>
      onlyLimits_ok _ w₂

theorem onlyLimits_branch (level : Nat) {op : Comparison} (yes : List (Node BagId))
    (no : Option (List (Node BagId))) {texts : List String} (w : World H)
    (h : op.Accepts texts.length) :
    OnlyLimits s (branch enter level op yes no texts w) := by
  obtain ⟨holds, hh⟩ := Option.isSome_iff_exists.1 ((op.isSome_holds?_iff texts).2 h)
  rw [branch, hh]
  cases holds with
  | true => exact he _ _ (.nodes _ _) _ trivial
  | false =>
    cases no with
    | some nodes => exact he _ _ (.nodes _ _) _ trivial
    | none => exact onlyLimits_ok _ _

theorem onlyLimits_node (level : Nat) (n : Node BagId) (w : World H) :
    OnlyLimits s (node s enter level n w) := by
  cases n with
  | text text => exact onlyLimits_ok _ _
  | weight k => exact onlyLimits_ok _ _
  | rule name mods =>
    rw [node]
    split
    · exact he _ _ (.nodes _ _) _ trivial
    · exact onlyLimits_ok _ _
  | choice site values mods =>
    rw [node]
    dsimp only
    split
    · exact he _ _ (.nodes _ _) _ trivial
    · exact onlyLimits_ok _ _
  | tag name values => exact he _ _ (.tag _ _ _) _ trivial
  | define name values => exact onlyLimits_ok _ _
  | ifBlock c yes no => exact he _ _ (.condition _ _ _ _) _ (c.accepts_operands s level w)
  | whileBlock c body => exact he _ _ (.condition _ _ _ _) _ (c.accepts_operands s level w)

theorem onlyLimits_nodeList (level : Nat) (nodes : List (Node BagId)) :
    ∀ w, OnlyLimits s (nodeList s enter level nodes w) := by
  induction nodes with
  | nil => exact fun w => onlyLimits_ok _ w
  | cons n nodes ih =>
    intro w
    rw [nodeList]
    exact (onlyLimits_node he level n w).andThen fun _ w₁ _ =>
      (ih w₁).andThen fun _ w₂ _ => onlyLimits_ok _ w₂

theorem onlyLimits_modify (level : Nat) (mods : List (Modifier BagId)) :
    ∀ text w, OnlyLimits s (modify s enter level mods text w) := by
  induction mods with
  | nil => exact fun text w => onlyLimits_ok text w
  | cons mod mods ih =>
    intro text w
    rw [modify]
    split
    · exact ih text w
    · exact (onlyLimits_arguments he level mod.parameters w).andThen fun _ _ _ => ih _ _

theorem onlyLimits_perform (level : Nat) {t : Task} (w : World H) (h : t.Comparable) :
    OnlyLimits s (perform s enter level t w) := by
  cases t with
  | nodes nodes mods =>
    exact (onlyLimits_nodeList he level nodes w).andThen fun text w₁ _ =>
      onlyLimits_modify he level mods text w₁
  | tag name values site =>
    exact (onlyLimits_arguments he level values w).andThen fun _ _ _ => onlyLimits_ok _ _
  | condition operands op yes no =>
    refine (onlyLimits_arguments he level operands w).andThen fun texts w₁ hx => ?_
    refine onlyLimits_branch he level yes no w₁ ?_
    rw [length_of_arguments hx]
    exact h

end Entered

theorem onlyLimits_enter (s : Setting H) (free : Nat) :
    ∀ (level : Nat) (deepens : Bool) (t : Task) (w : World H),
    t.Comparable → OnlyLimits s (enter s free level deepens t w) := by
  induction free with
  | zero =>
    intro level deepens t w _ e h
    rw [enter] at h
    exact .inr (Except.error.inj h).symm
  | succ free ih =>
    intro level deepens t w ht
    cases deepens with
    | false => exact onlyLimits_perform ih level w ht
    | true =>
      rw [enter]
      split
      · intro e h
        exact .inl (Except.error.inj h).symm
      · exact (onlyLimits_perform ih (level + 1) w ht).andThen fun _ _ _ => onlyLimits_ok _ _

/-- **Only a limit ends an expansion without a text.** -/
theorem onlyLimits_expand (s : Setting H) (nodes : List (Node BagId)) (w : World H) :
    OnlyLimits s (expand s nodes w) := by
  rw [expand]
  split
  · rename_i hm
    intro e h
    rw [← Except.error.inj h, ← hm]
    exact .inr rfl
  · split
    · rename_i hl
      intro e h
      rw [← Except.error.inj h, ← hl]
      exact .inl rfl
    · exact onlyLimits_perform (onlyLimits_enter s _) 1 _ trivial

end Direct

end TemplateGrammar
