import TemplateGrammar.Proofs.Engine.CleanSlate

/-!
# What is new in the journal

What a host does with an engine adds to the journal, and what it adds is the news of it
(`Engine.news`).  A call adds what the expansion notes (`journal_call`); everything else touches no
more of the world than the journal, to which it adds notices, unless it takes it (`world_act`).

A history begins with an engine newly made (`Engine.Made`), which has a world in which nothing has
happened but that notices were given (`Made.world`).
-/

namespace TemplateGrammar

variable {H : Type}

/-! ### The journal grows -/

/-- A journal that something was added to. -/
def Journal.Extends (j : Journal) (w : World H) : Prop :=
  j <:+ w.journal

theorem Journal.Extends.setTag {j : Journal} {w : World H} (h : j.Extends w) (level : Nat)
    (name : String) (values : List String) (selector : Selector H) :
    j.Extends (w.setTag level name values selector) := by
  unfold World.setTag
  split
  · exact ((h.trans (List.suffix_cons _ _)).trans (List.suffix_cons _ _)).trans
      (List.suffix_cons _ _)
  · exact (h.trans (List.suffix_cons _ _)).trans (List.suffix_cons _ _)

/-- **Every operation adds to the journal.** -/
theorem World.respected_extends (j : Journal) : World.Respected fun w v : World H => w = v ∧
    j.Extends w where
  tags h := congrArg World.tags h.1
  runtime h := congrArg World.runtime h.1
  say h n := ⟨congrArg (World.say · n) h.1, h.2.trans (List.suffix_cons _ _)⟩
  freshBag h := by
    obtain ⟨rfl, hj⟩ := h
    exact ⟨rfl, rfl, hj⟩
  pick h chooser selector count := by
    obtain ⟨rfl, hj⟩ := h
    exact ⟨rfl, rfl, hj.trans (List.suffix_cons _ _)⟩
  call h method name text arguments := by
    obtain ⟨rfl, hj⟩ := h
    exact ⟨rfl, rfl, (hj.trans (List.suffix_cons _ _)).trans (List.suffix_cons _ _)⟩
  define h name values := by
    obtain ⟨rfl, hj⟩ := h
    exact ⟨rfl, (hj.trans (List.suffix_cons _ _)).trans (List.suffix_cons _ _)⟩
  setTag h level name values selector := by
    obtain ⟨rfl, hj⟩ := h
    exact ⟨rfl, hj.setTag level name values selector⟩
  leave h level := ⟨congrArg (World.leave · level) h.1, h.2⟩

theorem Journal.picksOf_append (new j : Journal) (chooser : Chooser) :
    Journal.picksOf (new ++ j) chooser = j.picksOf chooser ++ new.picksOf chooser := by
  rw [picksOf, List.reverse_append, List.filterMap_append]
  rfl

theorem World.sayAll_eq (w : World H) (ns : List Notice) :
    w.sayAll ns = { w with journal := (ns.map Entry.notice).reverse ++ w.journal } := by
  induction ns generalizing w with
  | nil => rfl
  | cons n ns ih =>
    show (w.say n).sayAll ns = _
    rw [ih, List.map_cons, List.reverse_cons, List.append_assoc]
    rfl

namespace Engine

/-! ### News -/

/-- **What something that is done adds to the journal,** the latest first. -/
def news (e : Engine H) (a : Act H) : Journal :=
  (e.act a).journal.take ((e.act a).journal.length - e.journal.length)

/-- The engine after one thing after another was done with it. -/
def after (e : Engine H) (acts : List (Act H)) : Engine H :=
  acts.foldl act e

/-- The engine after one call after another, each with a text, and keeping what earlier ones left or
not. -/
def afterCalls (e : Engine H) (calls : List (String × Bool)) : Engine H :=
  calls.foldl (fun e call => (e.tryExpand call.1 call.2).2) e

theorem news_of_append {e : Engine H} {a : Act H} {new : Journal}
    (h : (e.act a).journal = new ++ e.journal) :
    e.news a = new := by
  have hlength : (new ++ e.journal).length - e.journal.length = new.length := by
    rw [List.length_append]
    omega
  rw [news, h, hlength]
  exact List.take_left

theorem world_call (e : Engine H) (text : String) (keep : Bool) :
    (e.act (.expand text keep)).machine.world = (evaluated e.setting text (e.beginning keep)).2 :=
  congrArg Prod.snd (outcome_call e text keep)

/-- **A call adds its news to the journal.** -/
theorem journal_call (e : Engine H) (text : String) (keep : Bool) :
    (e.act (.expand text keep)).journal = e.news (.expand text keep) ++ e.journal := by
  have hj : e.journal.Extends (e.beginning keep) := by
    cases keep <;> exact List.suffix_rfl
  have takeUp : ∀ {w v : World H}, (w = v ∧ e.journal.Extends w) → ∀ nodes,
      (w.takeUp nodes).1 = (v.takeUp nodes).1 ∧
        (w.takeUp nodes).2 = (v.takeUp nodes).2 ∧ e.journal.Extends (w.takeUp nodes).2 := by
    rintro w _ ⟨rfl, hj⟩ nodes
    exact ⟨rfl, rfl, hj⟩
  obtain ⟨-, -, new, hnew⟩ :=
    alike_evaluated (World.respected_extends e.journal) takeUp e.setting text ⟨rfl, hj⟩
  have happend : (e.act (.expand text keep)).journal = new ++ e.journal := by
    rw [journal, world_call, hnew]
  rw [news_of_append happend, happend]

/-- The news of a call are what the evaluator notes. -/
theorem news_call (e : Engine H) (text : String) (keep : Bool) :
    let noted := (evaluated e.setting text (e.beginning keep)).2.journal
    e.news (.expand text keep) = noted.take (noted.length - e.journal.length) := by
  dsimp only
  rw [← world_call]
  rfl

/-- What an engine is given, its rules, objects and methods among it, stays through a call. -/
theorem given_call (e : Engine H) (text : String) (keep : Bool) :
    ∃ m, e.act (.expand text keep) = { e with machine := m } :=
  given_tryExpand e text keep

theorem given_afterCalls (e : Engine H) (calls : List (String × Bool)) :
    ∃ m, e.afterCalls calls = { e with machine := m } := by
  induction calls generalizing e with
  | nil => exact ⟨e.machine, rfl⟩
  | cons call calls ih =>
    obtain ⟨m, hm⟩ := e.given_tryExpand call.1 call.2
    obtain ⟨m', hm'⟩ := ih (e.tryExpand call.1 call.2).2
    refine ⟨m', hm'.trans ?_⟩
    rw [hm]

/-! ### What is done beside calls -/

theorem Act.call_or (a : Act H) : (∃ text keep, a = .expand text keep) ∨ ∀ text keep,
    a ≠ .expand text keep := by
  cases a with
  | expand text keep => exact .inl ⟨text, keep, rfl⟩
  | _ => exact .inr fun _ _ he => by cases he

/-- **Nothing but a call touches more of the world than the journal,** to which notices are added,
or which is taken. -/
theorem world_act (e : Engine H) {a : Act H} (ha : ∀ text keep, a ≠ .expand text keep) :
    (∃ ns, (e.act a).machine.world = e.machine.world.sayAll ns) ∨
      (e.act a).machine.world = { e.machine.world with journal := [] } := by
  cases a with
  | expand text keep => exact absurd rfl (ha text keep)
  | addRule name d => exact .inl ⟨_, rfl⟩
  | removeRule name => exact .inl ⟨[], rfl⟩
  | setSelector name s =>
    left
    show ∃ ns, (e.setSelector name s).2.machine.world = _
    unfold Engine.setSelector
    split
    · exact ⟨[], rfl⟩
    · exact ⟨_, rfl⟩
  | addMethod kind name m => exact .inl ⟨_, rfl⟩
  | addObject name value => exact .inl ⟨[], rfl⟩
  | removeObject name => exact .inl ⟨[], rfl⟩
  | takeNotices => exact .inr rfl

theorem news_act (e : Engine H) {a : Act H} (ha : ∀ text keep, a ≠ .expand text keep) :
    ∃ ns : List Notice, e.news a = (ns.map Entry.notice).reverse := by
  rcases e.world_act ha with ⟨ns, hw⟩ | hw
  · refine ⟨ns, news_of_append ?_⟩
    rw [journal, hw, World.sayAll_eq]
    rfl
  · refine ⟨[], ?_⟩
    rw [news, journal, hw]
    exact List.take_nil

theorem bags_act (e : Engine H) {a : Act H} (ha : ∀ text keep, a ≠ .expand text keep) :
    (e.act a).machine.world.chance.bags = e.machine.world.chance.bags := by
  rcases e.world_act ha with ⟨ns, hw⟩ | hw
  · rw [hw, World.sayAll_eq]
  · rw [hw]

theorem options_act (e : Engine H) (a : Act H) : (e.act a).options = e.options := by
  cases a with
  | expand text keep =>
    obtain ⟨m, hm⟩ := e.given_call text keep
    rw [hm]
  | setSelector name s =>
    show (e.setSelector name s).2.options = _
    unfold Engine.setSelector
    split <;> rfl
  | _ => rfl

/-! ### Engines newly made -/

/-- **An engine newly made,** without rules or from a plan. -/
inductive Made : Engine H → Prop
  | start (options : Options) (random : Random) (host : H) : Made (.start options random host)
  | built {p : Plan H} {files : FileTree} {entropy : UInt64} {host : H} {e : Engine H}
      (h : p.build files entropy host = (.ok (), e)) : Made e

/-- Nothing has happened to the engine but that notices were given. -/
def Untouched (options : Options) (random : Random) (host : H) (e : Engine H) : Prop :=
  e.options = options ∧ ∃ ns, e.machine.world =
    (World.start options.tagScoping random host).sayAll ns

theorem Untouched.sayAll {options : Options} {random : Random} {host : H} {e : Engine H}
    (h : e.Untouched options random host) (more : List Notice) :
    (e.sayAll more).Untouched options random host := by
  obtain ⟨ho, ns, hw⟩ := h
  refine ⟨ho, ns ++ more, ?_⟩
  show e.machine.world.sayAll more = _
  rw [hw]
  exact (List.foldl_append ..).symm

/-- **In an engine newly made** nothing has happened but that notices were given. -/
theorem Made.world {e : Engine H} (h : Made e) : ∃ random host ns,
    e.machine.world = (World.start e.options.tagScoping random host).sayAll ns := by
  induction h with
  | start options random host => exact ⟨random, host, [], rfl⟩
  | @built p files entropy host e h =>
    have hmade : e.Untouched p.options (.ofSeed (p.options.seed.getD entropy)) host :=
      -- rules and methods are added with notices, and the world stays as it is beside them
      Plan.build_keeps (fun e ns he => he.sayAll ns) (fun e name texts he => Untouched.sayAll he _)
        (fun e r _ he => Untouched.sayAll he _) (fun e kind name m he => Untouched.sayAll he _)
          ⟨rfl, [], rfl⟩ h
    obtain ⟨ho, ns, hw⟩ := hmade
    rw [ho]
    exact ⟨_, _, ns, hw⟩

end Engine

end TemplateGrammar
