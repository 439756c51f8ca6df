import TemplateGrammar.Proofs.Expansion.Carrying
import TemplateGrammar.Proofs.Expansion.Outcome

/-!
# The arguments of an instruction

Arguments are collected on a frame by the frames that are put on top of it and taken off again, and
between two instructions of a frame whole expansions may run.  Still an instruction finds the
arguments that were collected for it and no others (`arguments_of_reaches`): a branch finds the
operands of its condition, a tag its values, and a method the parameters of its modifier, each
expanded once and in order.

`Arises` follows an expansion frame by frame: from a machine that a frame stands on top of, either
an instruction of the frame has been carried out, with everything that ran above it, or it has
called a task.  Every machine on the way arises so (`arises_of_reaches`), and what a frame holds is
what carrying out the part of its work that is done has made of nothing (`Arises.entered`).
-/

namespace TemplateGrammar

/-- **A block with a condition,** and the two blocks it goes on with. -/
inductive Node.Branches {σ : Type} : Node σ → Condition σ → List (Node σ) →
    Option (List (Node σ)) → Prop
  | ifBlock (c : Condition σ) (yes : List (Node σ)) (no : Option (List (Node σ))) :
      Branches (.ifBlock c yes no) c yes no
  | whileBlock (c : Condition σ) (body : List (Node σ)) :
      Branches (.whileBlock c body) c (body ++ [.whileBlock c body]) none

namespace Machine

variable {H : Type} {s : Setting H}

theorem Stands.unique {m : Machine H} {w w' : World H} {level level' : Nat}
    {frames frames' : List (Frame H)} (h : m.Stands w level frames)
    (h' : m.Stands w' level' frames') :
    w = w' ∧ level = level' ∧ frames = frames' :=
  ⟨h.world.symm.trans h'.world, h.level.symm.trans h'.level, h.frames.symm.trans h'.frames⟩

theorem frame_inj {held held' : Held} {rest rest' : List (Instr H)} {handover handover' : Handover}
    {deepens deepens' : Bool}
    (h : held.frame rest handover deepens = held'.frame rest' handover' deepens') :
    held = held' ∧ rest = rest' ∧ handover = handover' ∧ deepens = deepens' := by
  obtain ⟨text, args⟩ := held
  obtain ⟨text', args'⟩ := held'
  obtain ⟨rfl, rfl, rfl, rfl, rfl⟩ := Frame.mk.inj h
  exact ⟨rfl, rfl, rfl, rfl⟩

/-- What stays free for the frames above one that stands on so many. -/
def free (s : Setting H) (below : List (Frame H)) : Nat :=
  s.maxFrames - (below.length + 1)

/-- **How a machine arises** from the start of an expansion, frame by frame. -/
inductive Arises (s : Setting H) (m₀ : Machine H) : Machine H → Prop
  | start : Arises s m₀ m₀
  | carried {m m' : Machine H} {w w' : World H} {level : Nat} {held held' : Held} {i : Instr H}
      {rest : List (Instr H)} {handover : Handover} {deepens : Bool} {below : List (Frame H)}
      (before : Arises s m₀ m)
      (stood : m.Stands w level (held.frame (i :: rest) handover deepens :: below))
      (since : Reaches s m m')
      (carried : Direct.carryOut s (Direct.enter s (free s below)) level i held w = (.ok held', w'))
      (stands : m'.Stands w' level (held'.frame rest handover deepens :: below)) : Arises s m₀ m'
  | called {m m' : Machine H} {w w' : World H} {level : Nat} {held : Held} {i : Instr H} {t : Task}
      {rest : List (Instr H)} {handover handover' : Handover} {deepens deepens' : Bool}
      {below : List (Frame H)}
      (before : Arises s m₀ m)
      (stood : m.Stands w level (held.frame (i :: rest) handover deepens :: below))
      (since : Reaches s m m') (calls : Calls s level i held.arguments w t handover' deepens' w')
      (room : below.length + 1 < s.maxFrames) (shallow : deepens' = true → level < s.maxLevel)
      (stands : m'.Stands w' (if deepens' then level + 1 else level)
        (Held.nothing.frame (t.work s) handover' deepens' ::
          held.frame rest handover deepens :: below)) :
      Arises s m₀ m'

theorem Arises.reaches {m₀ m : Machine H} (h : Arises s m₀ m) : Reaches s m₀ m := by
  induction h with
  | start => exact .refl
  | carried _ _ since _ _ ih => exact ih.trans since
  | called _ _ since _ _ _ _ ih => exact ih.trans since

/-- **Where a frame comes from:** an instruction of the frame below it called its task. -/
structure CalledFrom (s : Setting H) (m₀ m : Machine H) (t : Task) (w₀ : World H) (level : Nat)
    (handover : Handover) (deepens : Bool) (parent : Frame H) (lower : List (Frame H))
    (caller : Machine H) (i : Instr H) : Prop where
  arises : Arises s m₀ caller
  since : Reaches s caller m
  frames : caller.frames.toList = { parent with pending := i :: parent.pending } :: lower
  calls : Calls s caller.level i parent.arguments caller.world t handover deepens w₀
  level : level = if deepens then caller.level + 1 else caller.level
  room : lower.length + 1 < s.maxFrames
  shallow : deepens = true → caller.level < s.maxLevel

/-- **What a frame is in the middle of:** a task, called in some world, some of whose work is
done. -/
structure Entered (s : Setting H) (nodes : List (Node BagId)) (m₀ m : Machine H) (level : Nat)
    (top : Frame H) (below : List (Frame H)) (t : Task) (w₀ : World H)
    (done : List (Instr H)) : Prop where
  work : done ++ top.pending = t.work s
  made : Direct.carryOutAll s (Direct.enter s (free s below)) level done .nothing w₀ =
    (.ok ⟨top.result, top.arguments⟩, m.world)
  origin : (below = [] ∧ t = .nodes nodes []) ∨ ∃ parent lower caller i, below = parent :: lower ∧
    CalledFrom s m₀ m t w₀ level top.handover top.deepens parent lower caller i

section

variable {nodes : List (Node BagId)} {m₀ : Machine H} {w₀ : World H}
  (root : m₀.Stands w₀ 1 [Held.nothing.frame (work nodes) .append true])

include root

/-- **What a frame holds** is what the part of its work that is done has made of nothing. -/
theorem Arises.entered {m : Machine H} (h : Arises s m₀ m) {w : World H} {level : Nat} {held : Held}
    {rest : List (Instr H)} {handover : Handover} {deepens : Bool} {below : List (Frame H)}
    (hs : m.Stands w level (held.frame rest handover deepens :: below)) :
    ∃ t w₁ done, Entered s nodes m₀ m level (held.frame rest handover deepens) below t w₁ done := by
  induction h generalizing w level held rest handover deepens below with
  | start =>
    obtain ⟨-, rfl, hf⟩ := hs.unique root
    obtain ⟨hframe, rfl⟩ := List.cons.inj hf
    obtain ⟨rfl, rfl, rfl, rfl⟩ := frame_inj hframe
    exact ⟨.nodes nodes [], m₀.world, [], work_eq_task nodes, rfl, .inl ⟨rfl, rfl⟩⟩
  | @carried _ _ _ _ _ _ _ i _ _ _ _ before stood since carried stands ih =>
    obtain ⟨rfl, rfl, hf⟩ := stands.unique hs
    obtain ⟨hframe, rfl⟩ := List.cons.inj hf
    obtain ⟨rfl, rfl, rfl, rfl⟩ := frame_inj hframe
    obtain ⟨t, w₁, done, he⟩ := ih stood
    refine ⟨t, w₁, done ++ [i], ?_, ?_, ?_⟩
    · rw [List.append_assoc]
      exact he.work
    · rw [Direct.carryOutAll_append, he.made, stood.world, hs.world]
      exact (Direct.carryOutAll_singleton _ _ _).trans carried
    · refine he.origin.imp id ?_
      rintro ⟨parent, lower, caller, j, rfl, hc⟩
      exact ⟨parent, lower, caller, j, rfl, hc.arises, hc.since.trans since, hc.frames, hc.calls,
        hc.level, hc.room, hc.shallow⟩
  | called before stood since calls room shallow stands ih =>
    obtain ⟨rfl, rfl, hf⟩ := stands.unique hs
    obtain ⟨hframe, rfl⟩ := List.cons.inj hf
    obtain ⟨rfl, rfl, rfl, rfl⟩ := frame_inj hframe
    refine ⟨_, _, [], rfl, by rw [hs.world]; rfl,
      .inr ⟨_, _, _, _, rfl, before, since, stood.frames, ?_, ?_, room, ?_⟩⟩
    · rw [stood.level, stood.world]
      exact calls
    · rw [stood.level]
      rfl
    · rw [stood.level]
      exact shallow

theorem Arises.popped {m m' : Machine H} (h : Arises s m₀ m) (hn : Next s m m')
    {top parent : Frame H} {lower : List (Frame H)} (hf : m.frames.toList = top :: parent :: lower)
    (hp : top.pending = []) (hm : Popped m m' top parent lower) : Arises s m₀ m' := by
  obtain ⟨pending, text, args, handover, deepens⟩ := top
  obtain rfl : pending = [] := hp
  have hs : m.Stands m.world m.level ((Held.mk text args).frame [] handover deepens ::
      parent :: lower) :=
    ⟨rfl, rfl, hf⟩
  obtain ⟨t, w₁, done, hwork, hmade, horigin⟩ := h.entered root hs
  rcases horigin with ⟨hnil, -⟩ | ⟨parent', lower', caller, i, hbelow, hc⟩
  · exact absurd hnil (List.cons_ne_nil _ _)
  obtain ⟨rfl, rfl⟩ := List.cons.inj hbelow
  replace hwork : done = t.work s := (List.append_nil done).symm.trans hwork
  -- the task has been performed, the frame answers, and the caller goes on
  have hroom : free s lower = free s (parent :: lower) + 1 := by
    have := hc.room
    unfold free
    rw [List.length_cons]
    omega
  have hlevel : m.level = if deepens then caller.level + 1 else caller.level := hc.level
  have hperform : Direct.perform s (Direct.enter s (free s (parent :: lower)))
      (if deepens then caller.level + 1 else caller.level) t w₁ = (.ok text, m.world) := by
    rw [Direct.perform_eq_carryOutAll, ← hwork, ← hlevel, hmade]
    rfl
  have henter := Direct.enter_of_perform hc.shallow hperform
  rw [← hroom] at henter
  have hcarry : Direct.carryOut s (Direct.enter s (free s lower)) caller.level i
      (Held.mk parent.result parent.arguments) caller.world = _ := hc.calls.carryOut henter
  have stood : caller.Stands caller.world caller.level
      ((Held.mk parent.result parent.arguments).frame
      (i :: parent.pending) parent.handover parent.deepens :: lower) := ⟨rfl, rfl, hc.frames⟩
  refine hc.arises.carried stood (hc.since.tail hn) hcarry ⟨?_, ?_, ?_⟩
  · rw [hm.world, hlevel]
    rfl
  · rw [hm.level, hlevel]
    cases deepens <;> rfl
  · rw [hm.frames]
    cases handover <;> rfl

/-- **Every machine on the way of an expansion arises** frame by frame. -/
theorem arises_of_reaches {m : Machine H} (hr : Reaches s m₀ m) : Arises s m₀ m := by
  induction hr with
  | refl => exact .start
  | @tail m m' _ hn ih =>
    rcases advance_eq_running hn with ⟨top, below, i, rest, hf, hp, _⟩
      | ⟨top, parent, lower, hf, hp, hm⟩
    · obtain ⟨pending, text, args, handover, deepens⟩ := top
      obtain rfl : pending = i :: rest := hp
      have hs : m.Stands m.world m.level ((Held.mk text args).frame (i :: rest) handover
          deepens :: below) :=
        ⟨rfl, rfl, hf⟩
      rcases carried_or_called hs hn with ⟨held', w', hs', hc⟩
        | ⟨t, handover', deepens', w', hc, hroom, hlevel, hs'⟩
      · exact .carried ih hs (.single hn) (hc _) hs'
      · exact .called ih hs (.single hn) hc hroom hlevel hs'
    · exact ih.popped root hn hf hp hm

end

/-! ### What of a task is done before an instruction -/

theorem append_of_not_mem {α : Type} {done rest first second : List α} {a : α} (ha : a ∉ first)
    (h : done ++ a :: rest = first ++ second) : ∃ more, done = first ++ more ∧
    more ++ a :: rest = second := by
  rcases List.append_eq_append_iff.1 h with ⟨more, rfl, hmore⟩ | ⟨more, rfl, hmore⟩
  · cases more with
    | nil => exact ⟨[], by rw [List.append_nil, List.append_nil], hmore⟩
    | cons b more =>
      obtain ⟨rfl, -⟩ := List.cons.inj hmore
      exact absurd (List.mem_append_right done List.mem_cons_self) ha
  · exact ⟨more, rfl, hmore.symm⟩

theorem append_of_last {α : Type} {done rest first : List α} {a b : α} (ha : a ∉ first)
    (h : done ++ a :: rest = first ++ [b]) : done = first ∧ a = b := by
  obtain ⟨more, rfl, hmore⟩ := append_of_not_mem ha h
  cases more with
  | nil => exact ⟨List.append_nil _, (List.cons.inj hmore).1⟩
  | cons c more => exact absurd (congrArg List.length hmore) (by simp)

theorem not_mem_evaluate {i : Instr H} (hi : ∀ nodes, i ≠ .evaluate nodes)
    (values : List (List (Node BagId))) :
    i ∉ values.map Instr.evaluate := by
  intro h
  obtain ⟨v, -, rfl⟩ := List.mem_map.1 h
  exact hi v rfl

theorem not_mem_work {i : Instr H} (hi : ∀ n, i ≠ .node n) (nodes : List (Node BagId)) :
    i ∉ work nodes := by
  intro h
  obtain ⟨n, -, rfl⟩ := List.mem_map.1 h
  exact hi n rfl

theorem of_mem_chainWork {i : Instr H} {mods : List (Modifier BagId)} (h : i ∈ chainWork s mods) :
    (∃ nodes, i = .evaluate nodes) ∨ (∃ name, i = .modify name) ∨ i = .clearArguments := by
  obtain ⟨mod, -, hi⟩ := List.mem_flatMap.1 h
  rcases List.mem_append.1 hi with hi | hi
  · obtain ⟨v, -, rfl⟩ := List.mem_map.1 hi
    exact .inl ⟨v, rfl⟩
  · simp only [List.mem_cons, List.not_mem_nil, or_false] at hi
    rcases hi with rfl | rfl
    · exact .inr (.inl ⟨_, rfl⟩)
    · exact .inr (.inr rfl)

/-- **Before a branch** the operands of a condition are evaluated. -/
theorem done_before_branch {t : Task} {done rest : List (Instr H)} {op : Comparison}
    {yes : List (Node BagId)} {no : Option (List (Node BagId))}
    (h : done ++ .branch op yes no :: rest = t.work s) :
    ∃ operands, t = .condition operands op yes no ∧ done = operands.map .evaluate := by
  cases t with
  | nodes nodes mods =>
    obtain ⟨more, -, hmore⟩ := append_of_not_mem (not_mem_work (by simp) nodes) h
    rcases of_mem_chainWork (s := s) (hmore ▸ List.mem_append_right more List.mem_cons_self) with
      ⟨_, hi⟩ | ⟨_, hi⟩ | hi <;> simp at hi
  | tag name values site =>
    obtain ⟨-, hi⟩ := append_of_last (not_mem_evaluate (by simp) values) h
    simp at hi
  | condition operands op' yes' no' =>
    obtain ⟨hdone, hi⟩ := append_of_last (not_mem_evaluate (by simp) operands) h
    obtain ⟨rfl, rfl, rfl⟩ := Instr.branch.inj hi
    exact ⟨operands, rfl, hdone⟩

/-- **Before a tag is set** its values are evaluated. -/
theorem done_before_setTag {t : Task} {done rest : List (Instr H)} {name : String}
    {selector : Selector H} (h : done ++ .setTag name selector :: rest = t.work s) :
    ∃ values site, t = .tag name values site ∧ selector = .default values site ∧
    done = values.map .evaluate := by
  cases t with
  | nodes nodes mods =>
    obtain ⟨more, -, hmore⟩ := append_of_not_mem (not_mem_work (by simp) nodes) h
    rcases of_mem_chainWork (s := s) (hmore ▸ List.mem_append_right more List.mem_cons_self) with
      ⟨_, hi⟩ | ⟨_, hi⟩ | hi <;> simp at hi
  | tag name' values site =>
    obtain ⟨hdone, hi⟩ := append_of_last (not_mem_evaluate (by simp) values) h
    obtain ⟨rfl, rfl⟩ := Instr.setTag.inj hi
    exact ⟨values, site, rfl, rfl, hdone⟩
  | condition operands op yes no =>
    obtain ⟨-, hi⟩ := append_of_last (not_mem_evaluate (by simp) operands) h
    simp at hi

/-- Before a method of a chain, the modifiers in front of its own are done, and its parameters are
evaluated. -/
theorem done_in_chain {mods : List (Modifier BagId)} {done rest : List (Instr H)} {name : String}
    (h : done ++ .modify name :: rest = chainWork s mods) :
    ∃ before mod after, mods = before ++ mod :: after ∧ mod.name = name ∧
      done = chainWork s before ++ mod.parameters.map .evaluate := by
  induction mods generalizing done with
  | nil => exact absurd h (by simp [chainWork])
  | cons mod mods ih =>
    have hcons : ∀ before, chainWork s (mod :: before) =
        if (s.methods[mod.name]?).isSome then modifierWork mod ++ chainWork s before
          else chainWork s before :=
      chainWork_cons s mod
    rw [hcons] at h
    split at h
    · rename_i hknown
      rw [modifierWork, List.append_assoc] at h
      obtain ⟨more, rfl, hmore⟩ := append_of_not_mem (not_mem_evaluate (by simp) mod.parameters) h
      -- the method is this modifier's own, or it comes after this modifier's last instruction
      rcases more with _ | ⟨first, _ | ⟨second, more⟩⟩
      · obtain ⟨hname, -⟩ := List.cons.inj hmore
        exact ⟨[], mod, mods, rfl, (Instr.modify.inj hname).symm, List.append_nil _⟩
      · simp at hmore
      · simp only [List.cons_append, List.nil_append, List.cons.injEq] at hmore
        obtain ⟨rfl, rfl, hmore⟩ := hmore
        obtain ⟨before, mod', after, rfl, hname, rfl⟩ := ih hmore
        refine ⟨mod :: before, mod', after, rfl, hname, ?_⟩
        rw [hcons, if_pos hknown, modifierWork, List.append_assoc, List.append_assoc]
        rfl
    · rename_i hknown
      obtain ⟨before, mod', after, rfl, hname, rfl⟩ := ih h
      exact ⟨mod :: before, mod', after, rfl, hname, by rw [hcons, if_neg hknown]⟩

/-- **Before a method** the nodes are expanded, the modifiers in front of its own are done, and its
parameters are evaluated. -/
theorem done_before_modify {t : Task} {done rest : List (Instr H)} {name : String}
    (h : done ++ .modify name :: rest = t.work s) :
    ∃ nodes before mod after, t = .nodes nodes (before ++ mod :: after) ∧ mod.name = name ∧
      done = (Task.nodes nodes before).work s ++ mod.parameters.map .evaluate := by
  cases t with
  | nodes nodes mods =>
    obtain ⟨more, rfl, hmore⟩ := append_of_not_mem (not_mem_work (by simp) nodes) h
    obtain ⟨before, mod, after, rfl, hname, rfl⟩ := done_in_chain hmore
    exact ⟨nodes, before, mod, after, rfl, hname, (List.append_assoc _ _ _).symm⟩
  | tag name' values site =>
    obtain ⟨-, hi⟩ := append_of_last (not_mem_evaluate (by simp) values) h
    simp at hi
  | condition operands op yes no =>
    obtain ⟨-, hi⟩ := append_of_last (not_mem_evaluate (by simp) operands) h
    simp at hi

/-! ### What an instruction finds -/

/-- **A frame was put on the stack for a node:** there was a machine about to expand it in the frame
below. -/
structure Expanding (s : Setting H) (m₀ m : Machine H) (below : List (Frame H)) (n : Node BagId)
    (caller : Machine H) : Prop where
  reached : Reaches s m₀ caller
  since : Reaches s caller m
  next : ∃ parent lower, below = parent :: lower ∧
    caller.frames.toList = { parent with pending := .node n :: parent.pending } :: lower

/-- **The arguments an instruction finds** on a frame, where the machine is about to carry it out.
A branch finds the operands of the condition for whose block the frame was put there, as many as its
comparison takes; a tag finds its values; a method finds the parameters of its own modifier, and the
text that the nodes and the modifiers in front of it have made.  Each was expanded since, one after
the other and in no other way. -/
def FindsArguments (s : Setting H) (m₀ m : Machine H) (top : Frame H) (below : List (Frame H)) :
    Instr H → Prop
  | .branch op yes no => ∃ n c caller, Expanding s m₀ m below n caller ∧
    n.Branches c yes no ∧ op = c.op ∧
      Direct.arguments (Direct.enter s (free s below)) m.level
        (c.operands s caller.level caller.world)
        caller.world = (.ok top.arguments, m.world) ∧ op.Accepts top.arguments.length
  | .setTag name selector => ∃ values caller, Expanding s m₀ m below (.tag name values) caller ∧
      selector = .default values caller.world.freshBag.1 ∧
      Direct.arguments (Direct.enter s (free s below)) m.level values caller.world.freshBag.2 =
        (.ok top.arguments, m.world)
  | .modify name => ∃ n nodes before mod after caller w₀ w₁, Expanding s m₀ m below n caller ∧
      Calls s caller.level (.node n) caller.arguments caller.world
        (.nodes nodes (before ++ mod :: after)) .append
        top.deepens w₀ ∧
      mod.name = name ∧
      Direct.perform s (Direct.enter s (free s below)) m.level (.nodes nodes before) w₀ =
        (.ok top.result, w₁) ∧
      Direct.arguments (Direct.enter s (free s below)) m.level mod.parameters w₁ =
        (.ok top.arguments, m.world)
  | _ => True

theorem Calls.of_modifiers {level : Nat} {i : Instr H} {args : List String} {w w₀ : World H}
    {nodes : List (Node BagId)} {mods : List (Modifier BagId)} {handover : Handover}
    {deepens : Bool} (h : Calls s level i args w (.nodes nodes mods) handover deepens w₀)
    (hm : mods ≠ []) :
    ∃ n, i = .node n ∧ handover = .append := by
  cases h with
  | reference => exact ⟨_, rfl, rfl⟩
  | choice => exact ⟨_, rfl, rfl⟩
  | evaluate => exact absurd rfl hm
  | yes => exact absurd rfl hm
  | no => exact absurd rfl hm

theorem CalledFrom.expanding {m₀ m caller : Machine H} {t : Task} {w₀ : World H} {level : Nat}
    {handover : Handover} {deepens : Bool} {parent : Frame H} {lower : List (Frame H)}
    {n : Node BagId} (h : CalledFrom s m₀ m t w₀ level handover deepens parent lower
      caller (.node n)) :
    Expanding s m₀ m (parent :: lower) n caller :=
  ⟨h.arises.reaches, h.since, parent, lower, rfl, h.frames⟩

theorem arguments_of_carryOutAll {enter : Entrance H} {level : Nat}
    {values : List (List (Node BagId))} {text text' : String} {args : List String} {w w' : World H}
    (h : Direct.carryOutAll s enter level (values.map .evaluate) ⟨text, []⟩ w =
      (.ok ⟨text', args⟩, w')) :
    text' = text ∧ Direct.arguments enter level values w = (.ok args, w') := by
  rw [Direct.carryOutAll_evaluate] at h
  rcases hx : Direct.arguments enter level values w with ⟨result, w₁⟩
  rw [hx] at h
  cases result with
  | error e => exact absurd (Prod.mk.inj h).1 (by simp)
  | ok texts =>
    obtain ⟨hheld, rfl⟩ := Prod.mk.inj h
    obtain ⟨rfl, rfl⟩ := Held.mk.inj (Except.ok.inj hheld)
    exact ⟨rfl, rfl⟩

theorem perform_of_carryOutAll {enter : Entrance H} {level : Nat} {nodes : List (Node BagId)}
    {mods : List (Modifier BagId)} {held : Held} {w w' : World H}
    (h : Direct.carryOutAll s enter level ((Task.nodes nodes mods).work s) .nothing w =
      (.ok held, w')) :
    held.arguments = [] ∧ Direct.perform s enter level (.nodes nodes mods) w =
      (.ok held.text, w') := by
  refine ⟨?_, by rw [Direct.perform_eq_carryOutAll, h]; rfl⟩
  rw [Task.work, Direct.carryOutAll_append, Direct.carryOutAll_work] at h
  rcases hx : Direct.nodeList s enter level nodes w with ⟨result, w₁⟩
  rw [hx] at h
  cases result with
  | error e => exact absurd (Prod.mk.inj h).1 (by simp)
  | ok text =>
    replace h : Direct.carryOutAll s enter level (chainWork s mods) ⟨"" ++ text, []⟩ w₁ =
      (.ok held, w') := h
    rw [Direct.carryOutAll_chainWork] at h
    rcases hy : Direct.modify s enter level mods ("" ++ text) w₁ with ⟨result, w₂⟩
    rw [hy] at h
    cases result with
    | error e => exact absurd (Prod.mk.inj h).1 (by simp)
    | ok out =>
      rw [← Except.ok.inj (Prod.mk.inj h).1]

section

variable {nodes : List (Node BagId)} {m₀ m : Machine H} {top : Frame H} {below : List (Frame H)}
  {t : Task} {w₀ : World H} {done rest : List (Instr H)}

theorem Entered.findsArguments_branch {op : Comparison} {yes : List (Node BagId)}
    {no : Option (List (Node BagId))} (h : Entered s nodes m₀ m m.level top below t w₀ done)
    (hp : top.pending = .branch op yes no :: rest) :
    FindsArguments s m₀ m top below (.branch op yes no) := by
  have hwork := h.work
  rw [hp] at hwork
  obtain ⟨operands, rfl, rfl⟩ := done_before_branch hwork
  obtain ⟨-, hargs⟩ := arguments_of_carryOutAll h.made
  rcases h.origin with ⟨-, ht⟩ | ⟨parent, lower, caller, i, rfl, hc⟩
  · exact absurd ht (by simp)
  have hcalls := hc.calls
  have hlevel := hc.level
  have hlength := Direct.length_of_arguments hargs
  generalize hd : top.deepens = deepens at hcalls hlevel
  generalize ho : top.handover = handover at hcalls
  generalize hi : i = instr at hcalls
  cases hcalls with
  | ifBlock =>
    subst hi
    exact ⟨_, _, caller, hc.expanding, .ifBlock _ _ _, rfl, hargs,
      hlength ▸ Condition.accepts_operands s _ _ _⟩
  | whileBlock =>
    subst hi
    exact ⟨_, _, caller, hc.expanding, .whileBlock _ _, rfl, hargs,
      hlength ▸ Condition.accepts_operands s _ _ _⟩

theorem Entered.findsArguments_setTag {name : String} {selector : Selector H}
    (h : Entered s nodes m₀ m m.level top below t w₀ done)
    (hp : top.pending = .setTag name selector :: rest) :
    FindsArguments s m₀ m top below (.setTag name selector) := by
  have hwork := h.work
  rw [hp] at hwork
  obtain ⟨values, site, rfl, rfl, rfl⟩ := done_before_setTag hwork
  obtain ⟨-, hargs⟩ := arguments_of_carryOutAll h.made
  rcases h.origin with ⟨-, ht⟩ | ⟨parent, lower, caller, i, rfl, hc⟩
  · exact absurd ht (by simp)
  have hcalls := hc.calls
  generalize hd : top.deepens = deepens at hcalls
  generalize ho : top.handover = handover at hcalls
  generalize hi : i = instr at hcalls
  cases hcalls with
  | tag =>
    subst hi
    exact ⟨values, caller, hc.expanding, rfl, hargs⟩

theorem Entered.findsArguments_modify {name : String}
    (h : Entered s nodes m₀ m m.level top below t w₀ done)
    (hp : top.pending = .modify name :: rest) :
    FindsArguments s m₀ m top below (.modify name) := by
  have hwork := h.work
  rw [hp] at hwork
  obtain ⟨ns, before, mod, after, rfl, hname, rfl⟩ := done_before_modify hwork
  have hmade := h.made
  rw [Direct.carryOutAll_append] at hmade
  rcases hx : Direct.carryOutAll s (Direct.enter s (free s below)) m.level
    ((Task.nodes ns before).work s) .nothing w₀
    with ⟨result, w₁⟩
  rw [hx] at hmade
  cases result with
  | error e => exact absurd (Prod.mk.inj hmade).1 (by simp)
  | ok held =>
    obtain ⟨hnone, hperform⟩ := perform_of_carryOutAll hx
    obtain ⟨text, args⟩ := held
    obtain rfl : args = [] := hnone
    obtain ⟨htext, hargs⟩ := arguments_of_carryOutAll hmade
    rw [← htext] at hperform
    rcases h.origin with ⟨-, ht⟩ | ⟨parent, lower, caller, i, rfl, hc⟩
    · exact absurd (Task.nodes.inj ht).2 (by simp)
    obtain ⟨n, rfl, ho⟩ := hc.calls.of_modifiers (by simp)
    have hcaller : caller.arguments = parent.arguments := by
      rw [Machine.arguments, top?_of_toList hc.frames]
    have hcalls := hc.calls
    rw [← hcaller, ho] at hcalls
    exact ⟨n, ns, before, mod, after, caller, w₀, w₁, hc.expanding, hcalls, hname, hperform, hargs⟩

end

/-- **Every instruction finds the arguments that were collected for it,** in every expansion, from
whatever machine it is begun; and no expansion ends because a condition has operands it cannot
compare. -/
theorem arguments_of_reaches (s : Setting H) (nodes : List (Node BagId)) (m : Machine H) :
    (∀ m₀ m₁ top below i rest, m.begin s nodes = .go m₀ → Reaches s m₀ m₁ →
      m₁.frames.toList = top :: below →
      top.pending = i :: rest → FindsArguments s m₀ m₁ top below i) ∧
    ∀ operands, (m.expand s nodes).1 ≠ .error (.malformedCondition operands) := by
  refine ⟨?_, fun operands he => ?_⟩
  · intro m₀ m₁ top below i rest h hr hf hp
    have root : m₀.Stands (m.world.leave 1) 1 [Held.nothing.frame (work nodes) .append true] :=
      (begin_eq_go h).2.2
    have hs : m₁.Stands m₁.world m₁.level ((Held.mk top.result top.arguments).frame
        top.pending top.handover top.deepens :: below) := ⟨rfl, rfl, hf⟩
    obtain ⟨t, w₀, done, hentered⟩ := (arises_of_reaches root hr).entered root hs
    cases i with
    | branch op yes no => exact hentered.findsArguments_branch hp
    | setTag name selector => exact hentered.findsArguments_setTag hp
    | modify name => exact hentered.findsArguments_modify hp
    | node n => trivial
    | evaluate nodes => trivial
    | clearArguments => trivial
  · have houtcome := outcome_expand s nodes m
    rw [he] at houtcome
    rcases Direct.onlyLimits_expand s nodes m.world _ (congrArg Prod.fst houtcome.symm)
      with hlimit | hlimit <;> simp at hlimit

/-! ### A membership test -/

/-- The rule `d` is nought or one. -/
def digits : Setting Unit where
  rules := (∅ : Dict (Rule Unit)).insert "d" ⟨[⟨"0", [.text "0"]⟩, ⟨"1", [.text "1"]⟩], .first⟩
  objects := ∅
  methods := ∅
  maxLevel := 1
  maxFrames := 3

/-- A machine on which nothing was done. -/
def idle : Machine Unit :=
  ⟨⟨.layered .empty, ∅, ⟨.empty, .ofSeed 0, ()⟩, []⟩, .empty, 0⟩

/-- Is one a digit? -/
def oneInDigits : Node BagId :=
  .ifBlock ⟨[.text "1"], .among, [.rule "d" []]⟩ [.text "y"] none

/-- The branch finds the left side, and each candidate of the rule in order. -/
theorem arguments_of_membership : ∃ m₀ m₁ top below rest, idle.begin digits [oneInDigits] = .go m₀ ∧
    Reaches digits m₀ m₁ ∧ m₁.frames.toList = top :: below ∧
    top.pending = .branch .among [.text "y"] none :: rest ∧ top.arguments = ["1", "0", "1"] ∧
    FindsArguments digits m₀ m₁ top below (.branch .among [.text "y"] none) := by
  obtain ⟨m₀, m₁, top, below, rest, hb, hs, hf, hp, ha⟩ : ∃ m₀ m₁ top below rest,
      idle.begin digits [oneInDigits] = .go m₀ ∧ after digits 10 m₀ = some m₁ ∧
      m₁.frames.toList = top :: below ∧
      top.pending = .branch .among [.text "y"] none :: rest ∧ top.arguments = ["1", "0", "1"] :=
    ⟨_, _, _, _, _, rfl, rfl, rfl, rfl, rfl⟩
  have hr := reaches_of_after hs
  exact ⟨m₀, m₁, top, below, rest, hb, hr, hf, hp, ha,
    (arguments_of_reaches digits [oneInDigits] idle).1 m₀ m₁ top below _ rest hb hr hf hp⟩

end Machine

end TemplateGrammar
