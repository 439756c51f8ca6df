import TemplateGrammar.Proofs.Expansion.Depth
import TemplateGrammar.Proofs.Expansion.Outcome

/-!
# What steps do to the world

What an instruction makes of the world is a function of the world, the level, and what the frame
holds (`Machine.worldAfter`): the machine is in that world after it, or it has said there that a
limit was reached, and stops (`Machine.in_step`).  Beside that, all that happens to the world is
that levels are left.

So a property of worlds holds after an expansion, and wherever it comes through, if it holds at the
start, if leaving a level and reaching a limit keep it, and if every instruction keeps it where the
expansion comes to it (`Machine.keeps_expand`).  Unlike a property that every operation keeps, it
may be kept for what is known of the machine on which the instruction is carried out.
-/

namespace TemplateGrammar

variable {H : Type}

/-- What is said when a limit is reached. -/
def Notice.IsLimit : Notice → Prop
  | frameLimit | levelLimit _ => True
  | _ => False

namespace Machine

variable {s : Setting H}

/-- **The world after an instruction,** in a frame on a level that holds a text and arguments. -/
def worldAfter (s : Setting H) (level : Nat) (text : String) (args : List String) (i : Instr H)
    (w : World H) : World H :=
  match i with
  | .node (.rule name mods) =>
    match w.resolve s level name with
    | (.nodes _ _, w) => sayUnknown s mods w
    | (.stuck obstacle, w) => w.say (.leftAsWritten name obstacle)
  | .node (.choice site values mods) =>
    match w.pick .inline (.default values site) values.length with
    | (k, w) =>
      match values[k]? with
      | some _ => sayUnknown s mods w
      | none => w.say .choiceMissed
  | .node (.tag _ _) => w.freshBag.2
  | .node (.define name values) => w.define name values
  | .modify name =>
    match s.methods[name]? with
    | none => w.say (.modifierUnknown name)
    | some method => (w.call method name text args).2
  | .setTag name selector => w.setTag level name args selector
  | .branch op _ _ =>
    match op.holds? args with
    | none => w
    | some true => w.say .branchTaken
    | some false => w.say .conditionFailed
  | _ => w

end Machine

/-- **The machine is in the world,** or it has said there that a limit was reached. -/
def Turn.In (w : World H) : Turn H → Prop
  | .go m => m.world = w
  | .stop _ m => m.world = w ∨ ∃ n : Notice, n.IsLimit ∧ m.world = w.say n

namespace Machine

variable {s : Setting H}

theorem in_push (s : Setting H) (l : List (Instr H)) (handover : Handover) (deepens : Bool)
    (m : Machine H) : (m.push s l handover deepens).In m.world := by
  unfold push
  split
  · exact .inr ⟨.frameLimit, trivial, rfl⟩
  · split
    · exact .inr ⟨.levelLimit _, trivial, rfl⟩
    · rfl

theorem in_node (s : Setting H) (n : Node BagId) (m : Machine H) (text : String)
    (args : List String) : (node s n m).In (worldAfter s m.level text args (.node n) m.world) := by
  cases n with
  | text text => rfl
  | weight k => rfl
  | rule name mods =>
    rw [node, reference, worldAfter]
    rcases m.world.resolve s m.level name with ⟨resolution, w⟩
    cases resolution with
    | nodes nodes deepens => exact in_push s _ _ _ { m with world := sayUnknown s mods w }
    | stuck obstacle => rfl
  | choice site values mods =>
    rw [node, choice, worldAfter]
    rcases m.world.pick .inline (.default values site) values.length with ⟨k, w⟩
    dsimp only
    cases values[k]? with
    | some nodes => exact in_push s _ _ _ { m with world := sayUnknown s mods w }
    | none => rfl
  | tag name values => exact in_push s _ _ _ { m with world := m.world.freshBag.2 }
  | define name values => rfl
  | ifBlock c yes no => exact in_push s _ _ _ m
  | whileBlock c body => exact in_push s _ _ _ m

theorem in_branch (s : Setting H) (op : Comparison) (yes : List (Node BagId))
    (no : Option (List (Node BagId))) (m : Machine H) (text : String) :
    (branch s op yes no m).In (worldAfter s m.level text m.arguments (.branch op yes no)
      m.world) := by
  rw [worldAfter]
  unfold branch
  cases op.holds? m.arguments with
  | none => exact .inl rfl
  | some taken =>
    cases taken with
    | true => exact in_push s _ _ _ (m.say .branchTaken)
    | false =>
      cases no with
      | none => rfl
      | some nodes => exact in_push s _ _ _ (m.say .conditionFailed)

/-- **An instruction leads to the world after it.** -/
theorem in_step (s : Setting H) (i : Instr H) (m : Machine H) :
    (step s i m).In (worldAfter s m.level m.result m.arguments i m.world) := by
  cases i with
  | node n => exact in_node s n m _ _
  | evaluate nodes => exact in_push s _ _ _ m
  | clearArguments => rfl
  | modify name =>
    show (modify s name m).world = worldAfter s m.level m.result m.arguments (.modify name) m.world
    rw [modify, worldAfter]
    cases s.methods[name]? with
    | none => rfl
    | some method => rfl
  | setTag name selector => rfl
  | branch op yes no => exact in_branch s op yes no m _

theorem in_step_of_pending {m : Machine H} {top : Frame H} {below : List (Frame H)} {i : Instr H}
    {rest : List (Instr H)} (hf : m.frames.toList = top :: below) :
    (step s i (m.taken rest)).In (worldAfter s m.level top.result top.arguments i m.world) := by
  have stands : m.Stands m.world m.level (top :: below) := ⟨rfl, rfl, hf⟩
  have hin := in_step s i (m.taken rest)
  rw [(stands.taken rest).result, (stands.taken rest).arguments] at hin
  exact hin

section Keeps

variable {nodes : List (Node BagId)} {m : Machine H} {Q : World H → Prop}
  (limit : ∀ (w : World H) (n : Notice), n.IsLimit → Q w → Q (w.say n))
  (leave : ∀ (w : World H) (level : Nat), 1 ≤ level → Q w → Q (w.leave level))
  (carried : ∀ m₀ m₁ top below i rest, m.begin s nodes = .go m₀ → Reaches s m₀ m₁ →
    m₁.frames.toList = top :: below → top.pending = i :: rest → Q m₁.world →
    Q (worldAfter s m₁.level top.result top.arguments i m₁.world))
  (start : Q m.world)

include leave carried start

/-- **What instructions keep where an expansion comes to them** holds wherever it comes through. -/
theorem keeps_reaches {m₀ m₁ : Machine H} (hb : m.begin s nodes = .go m₀) (hr : Reaches s m₀ m₁) :
    Q m₁.world := by
  induction hr with
  | refl =>
    obtain ⟨-, -, stands⟩ := begin_eq_go hb
    exact stands.world ▸ leave _ 1 (Nat.le_refl 1) start
  | @tail m₁ m₂ hr hn ih =>
    rcases advance_eq_running hn with ⟨top, below, i, rest, hf, hp, hs⟩
      | ⟨top, parent, lower, hf, hp, hm⟩
    · have hin : (step s i (m₁.taken rest)).In (worldAfter s m₁.level top.result top.arguments
          i m₁.world) :=
        in_step_of_pending hf
      rw [hs] at hin
      rw [show m₂.world = _ from hin]
      exact carried m₀ m₁ top below i rest hb hr hf hp ih
    · rw [hm.world, worldBelow]
      split
      · rename_i hdeep
        have htwo := (inStep_of_reaches hb hr).two_le_level hf hdeep
        exact leave _ _ (by omega) ih
      · exact ih

include limit

/-- **What instructions keep where an expansion comes to them** holds after it, whatever it comes
to. -/
theorem keeps_expand : Q (m.expand s nodes).2.world := by
  have hstopped : ∀ {w : World H} {e : ExpansionError} {m' : Machine H}, (Turn.stop e m').In w →
      Q w → Q m'.world := by
    rintro w e m' (hw | ⟨n, hn, hw⟩) hq
    · exact hw ▸ hq
    · exact hw ▸ limit w n hn hq
  cases hb : m.begin s nodes with
  | stop e m' =>
    rw [expand_of_stop hb]
    have hin := in_push s (work nodes) .append true m.reset
    unfold begin at hb
    split at hb
    · cases hb
    · rename_i hp
      obtain ⟨rfl, rfl⟩ := Turn.stop.inj hb
      rw [hp] at hin
      exact hstopped hin start
  | go m₀ =>
    obtain ⟨m₁, hr, hend⟩ := exists_end s m₀ (height_frames_begin hb)
    have hw : Q m₁.world := keeps_reaches leave carried start hb hr
    -- the last machine has its root alone and nothing left to do, or its next instruction stops
    obtain ⟨top, below, hf⟩ : ∃ top below, m₁.frames.toList = top :: below := by
      have hheight := (inStep_of_reaches hb hr).height_pos
      rw [← Stack.length_toList] at hheight
      exact List.exists_cons_of_length_pos hheight
    cases hp : top.pending with
    | nil =>
      cases below with
      | nil =>
        rw [expand_of_done hb hr (advance_of_root s hf hp)]
        exact hw
      | cons parent lower => exact absurd (advance_of_idle s hf hp) (hend _)
    | cons i rest =>
      have hadvance := advance_of_pending (s := s) hf hp
      have hin : (step s i (m₁.taken rest)).In (worldAfter s m₁.level top.result top.arguments
          i m₁.world) :=
        in_step_of_pending hf
      cases hs : step s i (m₁.taken rest) with
      | go m₂ =>
        rw [hs] at hadvance
        exact absurd hadvance (hend m₂)
      | stop e m₂ =>
        rw [hs] at hadvance hin
        rw [expand_of_failed hb hr hadvance]
        exact hstopped hin (carried m₀ m₁ top below i rest hb hr hf hp hw)

end Keeps

end Machine

end TemplateGrammar
