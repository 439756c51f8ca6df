import TemplateGrammar.Proofs.Choice.Rounds
import TemplateGrammar.Proofs.Expansion.Kept

/-!
# New bags are new

The bags that are made in a run have numbers that go up.  A tag and a rule of the run pick from the
bag that was made for them, and the inline choices of a template from those that it was given when
it was taken up; the rules of a table have bags of other kinds.  So nothing in a world picks from a
bag of a run that has not been given out yet, and no one has picked from it (`World.Supplied`).
This is kept by every operation (`World.kept_supplied`), and by calls (`Supplied.evaluated`).
-/

namespace TemplateGrammar

variable {H σ : Type}

/-- If it picks from a bag of a run, then from one of the first `k`. -/
def Selector.Issued (k : Nat) (s : Selector H) : Prop :=
  ∀ n, s.bag? = some (.fresh n) → n < k

/-- If it is a choice, it picks from no bag of a run, or from one of the first `k`. -/
def Node.Issued (k : Nat) : Node BagId → Prop
  | .choice site _ _ => ∀ n, site = .fresh n → n < k
  | _ => True

namespace Selector

variable {s : Selector H} {k l : Nat}

theorem Issued.mono (h : s.Issued k) (hk : k ≤ l) : s.Issued l :=
  fun n hn => Nat.lt_of_lt_of_le (h n hn) hk

theorem issued_default (values : List (Value σ)) {site : BagId} (h : ∀ n, site = .fresh n → n < k) :
    (default values site : Selector H).Issued k :=
  fun n hn => h n (bag?_default hn)

theorem Issued.get_bags_pick (h : s.Issued k) {n : Nat} (hn : k ≤ n) (count : Nat) (c : Chance H) :
    (s.pick count c).2.bags.get (.fresh n) = c.bags.get (.fresh n) :=
  Selector.get_bags_pick (fun hs => Nat.not_lt_of_le hn (h n hs)) count c

end Selector

theorem Node.Issued.mono {n : Node BagId} {k l : Nat} (h : n.Issued k) (hk : k ≤ l) :
    n.Issued l := by
  cases n with
  | choice site values mods => exact fun n hn => Nat.lt_of_lt_of_le (h n hn) hk
  | _ => trivial

/-- **A template that is taken up** gets bags whose numbers have been used when this is done. -/
theorem Node.issued_placeList (k : Nat) (nodes : List (Node Unit)) :
    Node.Every (Node.Issued (Node.placeList BagId.fresh k nodes).2)
      (Node.placeList BagId.fresh k nodes).1 := by
  have hall : Node.Every (fun _ => True) nodes := Node.every_of_forall (fun _ => trivial) nodes
  refine Node.Throughout.placeBelow (p := fun _ => True) (fun n j _ hle => ?_) hall (Nat.le_refl _)
  cases n with
  | choice site values mods =>
    intro n hn
    obtain rfl := BagId.fresh.inj hn
    exact Nat.lt_of_lt_of_le (Node.lt_place_choice BagId.fresh j site values mods) hle
  | _ => trivial

theorem Node.issued_placeList_of_ne {f : Nat → BagId} (hf : ∀ k n, f k ≠ .fresh n) (k : Nat)
    (nodes : List (Node Unit)) : Node.Every (Node.Issued 0) (Node.placeList f k nodes).1 := by
  have hall : Node.Every (fun _ => True) nodes := Node.every_of_forall (fun _ => trivial) nodes
  refine Node.Throughout.place (p := fun _ => True) (fun n j _ => ?_) hall k
  cases n with
  | choice site values mods => exact fun n hn => absurd hn (hf j n)
  | _ => trivial

/-- A rule that picks from no bag of a run, and has no choice that does. -/
structure Rule.Lasting (rule : Rule H) : Prop where
  selector : rule.selector.Issued 0
  candidates : rule.Every (Node.Issued 0)

/-- **Supplied:** what picks from a bag of a run does from one that has been given out, a choice
from one of the first `k`, and the others have not been picked from. -/
structure World.Supplied (k : Nat) (w : World H) : Prop where
  le : k ≤ w.issued
  tags : w.tags.All fun tag => tag.selector.Issued w.issued
  selectors : ∀ (name : String) (rule : Rule H), w.runtime[name]? = some rule →
    rule.selector.Issued w.issued
  candidates : ∀ (name : String) (rule : Rule H), w.runtime[name]? = some rule →
    rule.Every (Node.Issued k)
  unpicked : ∀ n, w.issued ≤ n → w.chance.bags.get (.fresh n) = Bag.empty

namespace World.Supplied

variable {k l : Nat} {w w' : World H}

theorem of_eq (h : w.Supplied k) (htags : w'.tags = w.tags) (hruntime : w'.runtime = w.runtime)
    (hissued : w'.issued = w.issued)
    (hbags : ∀ n, w.issued ≤ n → w'.chance.bags.get (.fresh n) = w.chance.bags.get (.fresh n)) :
    w'.Supplied k where
  le := hissued ▸ h.le
  tags := by
    rw [htags, hissued]
    exact h.tags
  selectors := by
    rw [hruntime, hissued]
    exact h.selectors
  candidates := hruntime ▸ h.candidates
  unpicked n hn := by
    rw [hissued] at hn
    rw [hbags n hn, h.unpicked n hn]

theorem supply (h : w.Supplied k) (htags : w'.tags = w.tags) (hruntime : w'.runtime = w.runtime)
    (hissued : w.issued ≤ w'.issued) (hbags : w'.chance.bags.store = w.chance.bags.store)
    (hk : k ≤ l) (hl : l ≤ w'.issued) : w'.Supplied l where
  le := hl
  tags level name tag hget := (h.tags level name tag (htags ▸ hget)).mono hissued
  selectors name rule hget := (h.selectors name rule (hruntime ▸ hget)).mono hissued
  candidates name rule hget c hc := (h.candidates name rule (hruntime ▸ hget) c hc).imp
    fun _ hn => hn.mono hk
  unpicked n hn := by
    have hget : w'.chance.bags.get (.fresh n) = w.chance.bags.get (.fresh n) := by
      unfold Bags.get
      rw [hbags]
    rw [hget, h.unpicked n (Nat.le_trans hissued hn)]

theorem pick (h : w.Supplied k) (chooser : Chooser) {selector : Selector H}
    (hs : selector.Issued w.issued) (count : Nat) : (w.pick chooser selector count).2.Supplied k :=
  h.of_eq rfl rfl (w.issued_pick chooser selector count) fun _ hn =>
    hs.get_bags_pick hn count w.chance

theorem setTag (h : w.Supplied k) (level : Nat) (name : String) (texts : List String)
    {selector : Selector H} (hs : selector.Issued w.issued) :
    (w.setTag level name texts selector).Supplied k := by
  have hissued := w.issued_setTag level name texts selector
  refine ⟨hissued ▸ h.le, ?_, ?_, ?_, ?_⟩
  · rw [World.tags_setTag, hissued]
    exact h.tags.store level name hs
  · rw [World.runtime_setTag, hissued]
    exact h.selectors
  · rw [World.runtime_setTag]
    exact h.candidates
  · rw [hissued, World.chance_setTag]
    exact h.unpicked

theorem define (h : w.Supplied k) (name : String) {values : List (List (Node BagId))}
    (hv : ∀ v ∈ values, Node.Every (Node.Issued k) v) : (w.define name values).Supplied k := by
  have hgrown : (w.define name values).issued = w.issued + 1 := rfl
  have hnew : (Selector.default values (.fresh w.issued) : Selector H).Issued (w.issued + 1) := by
    refine Selector.issued_default values fun n hn => ?_
    obtain rfl := BagId.fresh.inj hn
    exact Nat.lt_succ_self _
  refine ⟨Nat.le_succ_of_le h.le, ?_, ?_, ?_, fun n hn => h.unpicked n (Nat.le_of_succ_le hn)⟩
  · intro level other tag hget
    exact (h.tags level other tag hget).mono (Nat.le_succ _)
  · rw [hgrown]
    refine World.define_keeps hnew fun other rule hget => ?_
    exact (h.selectors other rule hget).mono (Nat.le_succ _)
  · exact World.define_keeps (Rule.every_of_values hv _) h.candidates

end World.Supplied

variable {s : Setting H}

/-- **Every operation keeps a world supplied,** where choices pick from the bags that the template
was given. -/
theorem World.kept_supplied (hrules : ∀ (name : String) (rule : Rule H),
    s.rules[name]? = some rule → rule.Lasting)
    (k : Nat) : World.Kept s (Node.Issued k) (World.Supplied k) where
  text _ := trivial
  say _ h := h.of_eq rfl rfl rfl fun _ _ => rfl
  freshBag h := h.supply rfl rfl (Nat.le_succ _) rfl (Nat.le_refl k) (Nat.le_succ_of_le h.le)
  call _ _ _ _ h := h.of_eq rfl rfl rfl fun _ _ => rfl
  leave _ h := ⟨h.le, h.tags.leave _, h.selectors, h.candidates, h.unpicked⟩
  readTag h hget := h.pick _ (h.tags _ _ _ hget) _
  runtimeRule h hget := ⟨h.pick _ (h.selectors _ _ hget) _, h.candidates _ _ hget⟩
  tableRule h hget := by
    obtain ⟨hselector, hcandidates⟩ := hrules _ _ hget
    refine ⟨h.pick _ (hselector.mono (Nat.zero_le _)) _, fun c hc => ?_⟩
    exact (hcandidates c hc).imp fun _ hn => hn.mono (Nat.zero_le _)
  choice h hgood := h.pick _ ((Selector.issued_default _ hgood).mono h.le) _
  setTag texts h _ _ hn := by
    refine h.setTag _ _ texts (Selector.issued_default _ fun m hm => ?_)
    obtain rfl := BagId.fresh.inj hm
    exact hn
  define h _ hv := h.define _ hv

/-- **After a call** a world is supplied as it was before. -/
theorem World.Supplied.evaluated (hrules : ∀ (name : String) (rule : Rule H),
    s.rules[name]? = some rule → rule.Lasting)
    {w : World H} (h : w.Supplied w.issued) (text : String) :
    (Engine.evaluated s text w).2.Supplied (Engine.evaluated s text w).2.issued := by
  have rest : ∀ {k : Nat} {w : World H}, w.Supplied k → w.Supplied w.issued := fun h =>
    h.supply rfl rfl (Nat.le_refl _) rfl h.le (Nat.le_refl _)
  have hsaid : (w.say (.input text)).Supplied w.issued := h.of_eq rfl rfl rfl fun _ _ => rfl
  unfold Engine.evaluated
  cases parseText text with
  | error failure => exact hsaid
  | ok nodes =>
    -- what the template is given out, none of the rules of the run has, and the other way round
    have hup : w.issued ≤ (Node.placeList BagId.fresh w.issued nodes).2 :=
      Node.le_placeList _ _ nodes
    have htaken : ((w.say (.input text)).takeUp nodes).2.Supplied
        (Node.placeList BagId.fresh w.issued nodes).2 :=
      hsaid.supply rfl rfl hup rfl hup (Nat.le_refl _)
    have hkept := World.kept_supplied hrules (Node.placeList BagId.fresh w.issued nodes).2
    exact rest (hkept.settled (hkept.expand (Node.issued_placeList w.issued nodes) htaken))

end TemplateGrammar
