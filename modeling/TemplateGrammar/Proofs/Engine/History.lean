import TemplateGrammar.Engine.Plan
import TemplateGrammar.Proofs.Engine.Calls
import TemplateGrammar.Proofs.Tags.Layers

/-!
# Histories of an engine

An engine that a host holds was started or made from a plan, and then one thing after another was
done with it (`Engine.Used`): templates were expanded, with or without keeping what earlier calls
left, successfully or not, and rules, objects and methods came and went.  What making an engine
keeps is found out by looking at its steps (`Plan.build_keeps`).  Through all of it the tags stay
scoped as the options say (`scoping_of_used`).
-/

namespace TemplateGrammar

variable {H : Type}

namespace Engine

/-- **What a host may do** with an engine. -/
inductive Act (H : Type) where
  | expand (text : String) (keep : Bool)
  | addRule (name : String) (d : Definition H)
  | removeRule (name : String)
  | setSelector (name : String) (s : Selector H)
  | addMethod (kind : MethodKind) (name : String) (m : Method H)
  | addObject (name value : String)
  | removeObject (name : String)
  | takeNotices

/-- What an engine answers. -/
inductive Response where
  | expansion (result : Except EngineError String)
  | text (out : String)
  | change (result : Except TableError Unit)
  | removal (found : Bool)
  | findings (fs : List Finding)
  | done

/-- What is answered when something is done with an engine, and the engine after it. -/
def answer (e : Engine H) : Act H → Response × Engine H
  | .expand text keep => (e.tryExpand text keep).map .expansion id
  | .addRule name d => (e.addRule name d).map .change id
  | .removeRule name => (e.removeRule name).map .removal id
  | .setSelector name s => (e.setSelector name s).map .change id
  | .addMethod kind name m => (.done, e.addMethod kind name m)
  | .addObject name value => (.done, e.addObject name value)
  | .removeObject name => (e.removeObject name).map .removal id
  | .takeNotices => (.done, e.takeNotices.2)

/-- The engine after something was done with it. -/
def act (e : Engine H) (a : Act H) : Engine H :=
  (e.answer a).2

/-- **An engine with a history.** -/
inductive Used : Engine H → Prop
  | start (options : Options) (random : Random) (host : H) : Used (.start options random host)
  | built {p : Plan H} {files : FileTree} {entropy : UInt64} {host : H} {e : Engine H}
      (h : p.build files entropy host = (.ok (), e)) : Used e
  | act {e : Engine H} (h : Used e) (a : Act H) : Used (e.act a)

end Engine

/-! ### Making an engine -/

namespace Plan

variable {P : Engine H → Prop} {e : Engine H}

theorem foldl_keeps {α : Type} {f : Engine H → α → Engine H} {as : List α}
    (hf : ∀ e, ∀ a ∈ as, P e → P (f e a)) (h : P e) : P (as.foldl f e) := by
  induction as generalizing e with
  | nil => exact h
  | cons a as ih =>
    refine ih (fun e b hb => hf e b (List.mem_cons_of_mem a hb)) ?_
    exact hf e a List.mem_cons_self h

variable (sayAll : ∀ e ns, P e → P (e.sayAll ns))
include sayAll

theorem loadFiles_keeps (addList : ∀ e name texts, P e → P (e.addRule name (.list texts)).2)
    (files : FileTree) (paths : List String) (h : P e) : P (Engine.loadFiles files paths e).2 := by
  induction paths generalizing e with
  | nil => exact h
  | cons path paths ih =>
    unfold Engine.loadFiles
    split
    · exact sayAll e _ h
    · apply ih
      exact foldl_keeps (fun e entry _ he => addList e _ _ he) (sayAll e _ h)

/-- **What the steps of the making keep, making an engine keeps.**  The rules that are added are
those of the plan, and those of rule files, which are lists of texts. -/
theorem build_keeps {p : Plan H} (addList : ∀ e name texts, P e →
    P (e.addRule name (.list texts)).2)
    (addRule : ∀ e, ∀ r ∈ p.rules, P e → P (e.addRule r.1 r.2).2)
    (addMethod : ∀ e kind name m, P e → P (e.addMethod kind name m)) {files : FileTree}
    {entropy : UInt64} {host : H}
    (hstart : P (.start p.options (.ofSeed (p.options.seed.getD entropy)) host))
    (h : p.build files entropy host = (.ok (), e)) : P e := by
  have hloaded := loadFiles_keeps sayAll addList files p.files hstart
  unfold build at h
  split at h
  · cases (Prod.mk.inj h).1
  · rename_i e₁ hl
    rw [hl] at hloaded
    have hrules : P (p.rules.foldl Engine.offerRule e₁) := foldl_keeps addRule hloaded
    have hmodifiers : P (if p.standardModifiers
        then (p.rules.foldl Engine.offerRule e₁).addStandardModifiers
        else p.rules.foldl Engine.offerRule e₁) := by
      split
      · exact foldl_keeps (fun e m _ he => addMethod e _ _ _ he) hrules
      · exact hrules
    obtain rfl := (Prod.mk.inj h).2
    split
    · exact sayAll _ _ hmodifiers
    · exact hmodifiers

end Plan

namespace Engine

/-! ### The scoping of the tags -/

/-- The tags are scoped as the options say. -/
def Scoped (e : Engine H) : Prop :=
  e.machine.world.tags.scoping = e.options.tagScoping

theorem scoped_start (options : Options) (random : Random) (host : H) :
    (start options random host).Scoped := by
  show (TagStore.empty options.tagScoping).scoping = options.tagScoping
  cases options.tagScoping <;> rfl

theorem Scoped.sayAll {e : Engine H} (h : e.Scoped) (ns : List Notice) : (e.sayAll ns).Scoped := by
  show (e.machine.world.sayAll ns).tags.scoping = e.options.tagScoping
  rw [World.tags_sayAll]
  exact h

/-- **A call keeps the scoping,** whatever it does to the tags. -/
theorem scoping_evaluated (s : Setting H) (text : String) (w : World H) :
    (evaluated s text w).2.tags.scoping = w.tags.scoping := by
  have hR := World.respected_of_tags (P := fun ts : TagStore H => ts.scoping = w.tags.scoping)
    (fun ts level name tag h => (TagStore.scoping_store ts level name tag).trans h)
    (fun ts level h => (TagStore.scoping_leave ts level).trans h)
  refine (alike_evaluated hR ?_ s text ⟨rfl, rfl⟩).2.2
  rintro v _ ⟨rfl, hv⟩ nodes
  exact ⟨rfl, rfl, hv⟩

theorem Scoped.tryExpand {e : Engine H} (h : e.Scoped) (text : String) (keep : Bool) :
    (e.tryExpand text keep).2.Scoped := by
  have kept : ∀ e : Engine H, e.Scoped → (e.tryExpand text true).2.Scoped := by
    intro e h
    obtain ⟨m, hm⟩ := given_tryExpand e text true
    have hworld : (e.tryExpand text true).2.machine.world =
        (evaluated e.setting text e.machine.world).2 :=
      congrArg Prod.snd (outcome_tryExpand e text)
    show _ = (e.tryExpand text true).2.options.tagScoping
    rw [hworld, scoping_evaluated, hm]
    exact h
  -- a call that keeps nothing is one that does, after a clearing that keeps the scoping
  cases keep with
  | true => exact kept e h
  | false => exact kept (e.onWorld World.forget) ((TagStore.scoping_clear _).trans h)

theorem Scoped.addRule {e : Engine H} (h : e.Scoped) (name : String) (d : Definition H) :
    (e.addRule name d).2.Scoped :=
  Scoped.sayAll (e := { e with rules := (e.rules.add name d).table }) h _

theorem Scoped.addMethod {e : Engine H} (h : e.Scoped) (kind : MethodKind) (name : String)
    (m : Method H) : (e.addMethod kind name m).Scoped :=
  Scoped.sayAll (e := { e with methods := e.methods.insert name m }) h _

theorem Scoped.act {e : Engine H} (h : e.Scoped) (a : Act H) : (e.act a).Scoped := by
  cases a with
  | expand text keep => exact h.tryExpand text keep
  | addRule name d => exact h.addRule name d
  | removeRule name => exact h
  | setSelector name s =>
    show (e.setSelector name s).2.Scoped
    unfold Engine.setSelector
    split
    · exact h
    · exact h.sayAll _
  | addMethod kind name m => exact h.addMethod kind name m
  | addObject name value => exact h
  | removeObject name => exact h
  | takeNotices => exact h

theorem scoped_build {p : Plan H} {files : FileTree} {entropy : UInt64} {host : H} {e : Engine H}
    (h : p.build files entropy host = (.ok (), e)) : e.Scoped :=
  Plan.build_keeps (fun _ ns he => he.sayAll ns) (fun _ name _ he => he.addRule name _)
    (fun _ r _ he => he.addRule r.1 r.2) (fun _ kind name m he => he.addMethod kind name m)
      (scoped_start _ _ _) h

/-- **Whatever was done with an engine,** its tags are scoped as its options say. -/
theorem scoping_of_used {e : Engine H} (h : Used e) : e.Scoped := by
  induction h with
  | start options random host => exact scoped_start options random host
  | built h => exact scoped_build h
  | act _ a ih => exact ih.act a

end Engine

end TemplateGrammar
