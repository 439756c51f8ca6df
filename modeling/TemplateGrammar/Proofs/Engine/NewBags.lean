import TemplateGrammar.Proofs.Engine.Rounds
import TemplateGrammar.Proofs.Expansion.NewBags

/-!
# New bags, over a whole history

A host brings selectors along, but none that picks from a bag of a run, for it has no hold of these
(`Hosted`).  So the rules of an engine last beyond its runs, and whatever was done with the engine,
its world is supplied with bags that no one has picked from (`supplied_of_hosted`).
-/

namespace TemplateGrammar

variable {H : Type}

theorem RuleTable.lasting_defined (t : RuleTable H) (name : String) {d : Definition H}
    (hd : ∀ s, d.selector? = some s → s.Issued 0) : (t.defined name d).Lasting where
  selector := by
    rcases t.bag?_defined name d with hs | hs
    · exact hd _ hs
    · intro n hn
      cases hs _ hn
  candidates c hc := by
    obtain ⟨v, -, j, hj, -⟩ := Node.mem_placeValues (mem_of_mem_zipWith hc)
    rw [hj]
    exact Node.issued_placeList_of_ne (fun _ _ h => by cases h) j v

namespace Engine

/-- What a host does without a selector that picks from a bag of a run. -/
def Act.Lasting (a : Act H) : Prop :=
  ∀ s, a.brought? = some s → s.Issued 0

/-- **An engine that a host holds,** with all that was done with it.  The bags of runs are nothing
that a host can have, so it brings no selector that picks from one. -/
inductive Hosted : Engine H → Prop
  | start (options : Options) (random : Random) (host : H) : Hosted (.start options random host)
  | built {p : Plan H} {files : FileTree} {entropy : UInt64} {host : H} {e : Engine H}
      (h : p.build files entropy host = (.ok (), e))
      (brought : ∀ r ∈ p.rules, ∀ s, r.2.selector? = some s → s.Issued 0) : Hosted e
  | act {e : Engine H} (h : Hosted e) (a : Act H) (ha : a.Lasting) : Hosted (e.act a)

/-- **Supplied:** rules last, and the world has bags for runs that no one has picked from. -/
structure Supplied (e : Engine H) : Prop where
  rules : ∀ name rule, e.rules.get? name = some rule → rule.Lasting
  world : e.machine.world.Supplied e.machine.world.issued

variable {e : Engine H}

theorem supplied_forget (w : World H) : w.forget.Supplied w.forget.issued := by
  have hnone : ∀ name, w.forget.runtime[name]? = none := fun name => Std.ExtTreeMap.getElem?_empty
  refine ⟨Nat.le_refl _, TagStore.all_clear _ w.tags, ?_, ?_, ?_⟩
  · intro name rule hget
    rw [hnone] at hget
    cases hget
  · intro name rule hget
    rw [hnone] at hget
    cases hget
  · intro n _
    show w.chance.bags.settle.get (.fresh n) = Bag.empty
    rw [Bags.get_settle]
    rfl

/-- **A call begins in a world that is supplied,** in any case if it keeps nothing. -/
theorem supplied_beginning {keep : Bool} (h : keep = true → e.Supplied) :
    (e.beginning keep).Supplied (e.beginning keep).issued := by
  cases keep with
  | true => exact (h rfl).world
  | false => exact supplied_forget e.machine.world

theorem Supplied.sayAll (h : e.Supplied) (ns : List Notice) : (e.sayAll ns).Supplied := by
  have hworld : (e.sayAll ns).machine.world = e.machine.world.sayAll ns := rfl
  refine ⟨h.rules, ?_⟩
  rw [hworld, World.sayAll_eq]
  exact h.world.of_eq rfl rfl rfl fun _ _ => rfl

/-- **What a host does leaves an engine supplied.** -/
theorem Supplied.act (h : e.Supplied) {a : Act H} (ha : a.Lasting) : (e.act a).Supplied := by
  refine ⟨fun name rule hrule => ?_, ?_⟩
  · rcases get?_act_cases hrule with hold | ⟨d, rfl, -, rfl⟩ | ⟨s, old, rfl, hold, rfl⟩
    · exact h.rules name rule hold
    · exact e.rules.lasting_defined name ha
    · exact ⟨ha s rfl, (h.rules name old hold).candidates⟩
  · rcases a.call_or with ⟨text, keep, rfl⟩ | hne
    · rw [world_call]
      exact (supplied_beginning fun _ => h).evaluated h.rules text
    · rcases e.world_act hne with ⟨ns, hw⟩ | hw
      · rw [hw, World.sayAll_eq]
        exact h.world.of_eq rfl rfl rfl fun _ _ => rfl
      · rw [hw]
        exact h.world.of_eq rfl rfl rfl fun _ _ => rfl

theorem supplied_start (options : Options) (random : Random) (host : H) :
    (Engine.start options random host).Supplied := by
  have hrules : ∀ name, (Engine.start options random host).rules.get? name = none :=
    fun name => Std.ExtTreeMap.getElem?_empty
  have hruntime : ∀ name, (Engine.start options random host).machine.world.runtime[name]? = none :=
    fun name => Std.ExtTreeMap.getElem?_empty
  refine ⟨fun name rule hget => ?_, Nat.le_refl _, TagStore.all_empty _ _, fun name rule hget => ?_,
    fun name rule hget => ?_, fun n _ => ?_⟩
  · rw [hrules] at hget
    cases hget
  · rw [hruntime] at hget
    cases hget
  · rw [hruntime] at hget
    cases hget
  · simp [Engine.start, World.start, Bags.empty, Bags.get]

/-- **Whatever was done with an engine,** it is supplied. -/
theorem supplied_of_hosted (h : Hosted e) : e.Supplied := by
  induction h with
  | start options random host => exact supplied_start options random host
  | built h brought =>
    refine Plan.build_keeps (fun e ns he => he.sayAll ns) ?_ ?_ ?_ (supplied_start _ _ _) h
    · intro e name texts he
      exact Supplied.act he (a := .addRule name (.list texts)) fun s hs => by cases hs
    · intro e r hr he
      exact Supplied.act he (a := .addRule r.1 r.2) (brought r hr)
    · intro e kind name m he
      exact Supplied.act he (a := .addMethod kind name m) fun s hs => by cases hs
  | act _ a ha ih => exact ih.act ha

end Engine

end TemplateGrammar
