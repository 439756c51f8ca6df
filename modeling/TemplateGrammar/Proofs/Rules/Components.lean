import Mathlib.Data.List.Sort
import Mathlib.Logic.Relation
import Mathlib.Tactic.Tauto
import TemplateGrammar.Rules.Graph

/-!
# The components of a graph

`Graph.components` lists the strongly connected components: each of them once, and before every
other that leads to it (`mem_components_iff`, `nodup_components`, `components_pairwise`).

While a search is under way its stack lies in layers, one for each name it is at (`Layered`): the
name, and above it those that it came to from there, has left, and could not complete.  The names of
a layer reach one another, each name the search is at reaches the next, and what leads out of a
layer to one below is accounted for by the low number of the layer's name (`Layer`).  So where the
low number is the name's own, nothing leads down, and the layer is a component; otherwise the layer
joins the one below.  A step looks at one edge out of the topmost layer, puts a layer on top, joins
the two topmost layers, or takes the topmost one away (`Sound.step`).

The components that are complete so far are closed: what one of them leads to lies in it or in an
earlier one (`Listed`).
-/

namespace TemplateGrammar.Graph

/-- A name leads to the other. -/
def Edge (g : Graph) (u v : String) : Prop :=
  v ∈ g.successors u

/-- What a name leads to is in the graph. -/
def Closed (g : Graph) : Prop :=
  ∀ u v, g.Edge u v → v ∈ g.names

/-- A way leads from the one name to the other. -/
def Reaches (g : Graph) : String → String → Prop :=
  Relation.ReflTransGen g.Edge

/-- **A strongly connected component:** the names that some name reaches and that reach it, in
order. -/
structure IsComponent (g : Graph) (c : List String) : Prop where
  ordered : c.Pairwise (· < ·)
  connected : ∃ v ∈ g.names, ∀ u, u ∈ c ↔ g.Reaches v u ∧ g.Reaches u v

variable {g : Graph}

/-! ### Lists of components -/

/-- **Components, the latest first:** each is connected and in order, has a name that no earlier one
has, and leads to itself and to earlier ones only. -/
inductive Listed (g : Graph) : List (List String) → Prop
  | nil : Listed g []
  | cons {c : List String} {found : List (List String)} (ordered : c.Pairwise (· < ·))
    (inhabited : c ≠ []) (connected : ∀ u ∈ c, ∀ v ∈ c, g.Reaches u v)
      (closed : ∀ u ∈ c, ∀ w, g.Edge u w → w ∈ c ∨ w ∈ found.flatten)
      (apart : ∀ u ∈ c, u ∉ found.flatten)
      (rest : Listed g found) : Listed g (c :: found)

namespace Listed

variable {found : List (List String)}

theorem mem_of_edge (h : Listed g found) {u w : String} (hu : u ∈ found.flatten) (he : g.Edge u w) :
    w ∈ found.flatten := by
  induction h with
  | nil => cases hu
  | cons _ _ _ closed _ _ ih =>
    rw [List.flatten_cons, List.mem_append] at hu ⊢
    rcases hu with hu | hu
    · exact closed u hu w he
    · exact .inr (ih hu)

theorem mem_of_reaches (h : Listed g found) {u w : String} (hu : u ∈ found.flatten)
    (hr : g.Reaches u w) : w ∈ found.flatten := by
  induction hr with
  | refl => exact hu
  | tail _ he ih => exact h.mem_of_edge ih he

/-- A listed component has every name that its names reach and that reaches one of them. -/
theorem mem_of_connected (h : Listed g found) {c : List String} (hc : c ∈ found)
    {u w : String} (hu : u ∈ c) (huw : g.Reaches u w) (hwu : g.Reaches w u) : w ∈ c := by
  induction h with
  | nil => cases hc
  | @cons c' found _ _ _ closed apart rest ih =>
    rcases List.mem_cons.mp hc with rfl | hc
    · -- the way out of the component would lead to an earlier one, and that is not left again
      have hway : ∀ x, g.Reaches u x → x ∈ c ∨ x ∈ found.flatten := by
        intro x hux
        induction hux with
        | refl => exact .inl hu
        | tail _ he ihx =>
          rcases ihx with hv | hv
          · exact closed _ hv _ he
          · exact .inr (rest.mem_of_edge hv he)
      rcases hway w huw with hw | hw
      · exact hw
      · exact absurd (rest.mem_of_reaches hw hwu) (apart u hu)
    · exact ih hc

theorem connected (h : Listed g found) {c : List String} (hc : c ∈ found) {u v : String}
    (hu : u ∈ c) (hv : v ∈ c) : g.Reaches u v := by
  induction h with
  | nil => cases hc
  | cons _ _ connected _ _ _ ih =>
    rcases List.mem_cons.mp hc with rfl | hc
    · exact connected u hu v hv
    · exact ih hc

theorem ordered (h : Listed g found) {c : List String} (hc : c ∈ found) : c.Pairwise (· < ·) := by
  induction h with
  | nil => cases hc
  | cons ordered _ _ _ _ _ ih =>
    rcases List.mem_cons.mp hc with rfl | hc
    · exact ordered
    · exact ih hc

theorem inhabited (h : Listed g found) {c : List String} (hc : c ∈ found) : c ≠ [] := by
  induction h with
  | nil => cases hc
  | cons _ inhabited _ _ _ _ ih =>
    rcases List.mem_cons.mp hc with rfl | hc
    · exact inhabited
    · exact ih hc

/-- **What is listed later** is not reached from what is listed earlier. -/
theorem pairwise (h : Listed g found) : found.Pairwise fun c d => ∀ u ∈ d, ∀ v ∈ c,
    ¬g.Reaches u v := by
  induction h with
  | nil => exact .nil
  | @cons c found _ _ _ _ apart rest ih =>
    refine .cons (fun d hd u hu v hv hr => apart v hv ?_) ih
    exact rest.mem_of_reaches (List.mem_flatten.mpr ⟨d, hd, hu⟩) hr

end Listed

/-! ### Layers of the stack -/

/-- **A layer of the stack:** a name that the search is at, with those `ahead` that are to be looked
at from it, and the names `above` it.  Each edge out of the layer is still ahead, or leads to a name
that was come to; and if that lies `below` the layer, its number is at least the low number of the
layer's name. -/
structure Layer (g : Graph) (s : Notes) (v : String) (ahead above below : List String) : Prop where
  leads : ∀ w ∈ ahead, g.Edge v w
  together : ∀ u ∈ above, g.Reaches v u ∧ g.Reaches u v
  looked : ∀ u ∈ v :: above, ∀ w, g.Edge u w →
    (u = v ∧ w ∈ ahead) ∨ (w ∈ s.number ∧ (w ∈ below → s.lowOf v ≤ s.numberOf w))
  low_le : s.lowOf v ≤ s.numberOf v
  low_reached : ∃ x ∈ above ++ v :: below, s.numberOf x = s.lowOf v ∧ g.Reaches v x

/-- **The stack in layers,** one for each call; each name that the search is at is reached from the
one before. -/
inductive Layered (g : Graph) (s : Notes) : List (String × List String) → List String → Prop
  | nil : Layered g s [] []
  | cons {v : String} {ahead above : List String} {calls : List (String × List String)}
    {below : List String}
      (layer : Layer g s v ahead above below) (come : ∀ u ∈ calls.head?.map Prod.fst, g.Reaches u v)
      (rest : Layered g s calls below) : Layered g s ((v, ahead) :: calls) (above ++ v :: below)

variable {s s' : Notes} {v w : String} {ahead above below stack : List String}
    {calls : List (String × List String)}

theorem Layer.congr (h : Layer g s v ahead above below) (hnumber : ∀ w ∈ s.number, w ∈ s'.number)
    (hsame : ∀ x ∈ above ++ v :: below, s'.numberOf x = s.numberOf x ∧ s'.lowOf x = s.lowOf x) :
    Layer g s' v ahead above below := by
  have hv := hsame v (by simp)
  refine ⟨h.leads, h.together, fun u hu w he => ?_, ?_, ?_⟩
  · rcases h.looked u hu w he with hahead | ⟨hw, hlow⟩
    · exact .inl hahead
    · refine .inr ⟨hnumber w hw, fun hbelow => ?_⟩
      rw [hv.2, (hsame w (by simp [hbelow])).1]
      exact hlow hbelow
  · rw [hv.1, hv.2]
    exact h.low_le
  · obtain ⟨x, hx, hnum, hr⟩ := h.low_reached
    exact ⟨x, hx, by rw [(hsame x hx).1, hv.2, hnum], hr⟩

namespace Layered

/-- The topmost layer is that of the name that the search is at innermost. -/
theorem split (h : Layered g s ((v, ahead) :: calls) stack) :
    ∃ above below, stack = above ++ v :: below ∧ Layer g s v ahead above below ∧
      (∀ u ∈ calls.head?.map Prod.fst, g.Reaches u v) ∧ Layered g s calls below := by
  cases h with
  | cons layer come rest => exact ⟨_, _, rfl, layer, come, rest⟩

theorem eq_nil (h : Layered g s [] stack) : stack = [] := by
  cases h
  rfl

/-- Whatever waits reaches the innermost name that the search is at. -/
theorem reaches_innermost (h : Layered g s calls stack) {u : String}
    (hu : u ∈ calls.head?.map Prod.fst) {x : String} (hx : x ∈ stack) : g.Reaches x u := by
  induction h generalizing u with
  | nil => cases hx
  | @cons v ahead above calls below layer come rest ih =>
    obtain rfl : v = u := Option.some.inj hu
    rcases List.mem_append.mp hx with hx | hx
    · exact (layer.together x hx).2
    · rcases List.mem_cons.mp hx with rfl | hx
      · exact .refl
      · cases calls with
        | nil =>
          rw [rest.eq_nil] at hx
          cases hx
        | cons call calls => exact (ih rfl hx).trans (come call.1 rfl)

theorem congr (h : Layered g s calls stack) (hnumber : ∀ w ∈ s.number, w ∈ s'.number)
    (hsame : ∀ x ∈ stack, s'.numberOf x = s.numberOf x ∧ s'.lowOf x = s.lowOf x) :
    Layered g s' calls stack := by
  induction h with
  | nil => exact .nil
  | cons layer come rest ih =>
    exact .cons (layer.congr hnumber hsame) come (ih fun x hx => hsame x (by simp [hx]))

end Layered

/-! ### Notes in order -/

/-- **Notes are in order** if names wait in the order of their numbers, those that wait and those of
complete components were come to and no others were, and the complete components are listed. -/
structure Notes.Tidy (g : Graph) (s : Notes) : Prop where
  descending : s.stack.Pairwise fun u v => s.numberOf v < s.numberOf u
  number_lt : ∀ v ∈ s.stack, s.numberOf v < s.next
  waiting : ∀ v, v ∈ s.waiting ↔ v ∈ s.stack
  come : ∀ v, v ∈ s.number ↔ v ∈ s.stack ∨ v ∈ s.found.flatten
  named : ∀ v ∈ s.number, v ∈ g.names
  apart : ∀ v ∈ s.stack, v ∉ s.found.flatten
  listed : Listed g s.found

/-- A search is sound if its notes are in order and the stack lies in layers. -/
structure Search.Sound (g : Graph) (search : Search) : Prop where
  tidy : search.notes.Tidy g
  layered : Layered g search.notes search.calls search.notes.stack

namespace Notes

theorem tidy_empty : empty.Tidy g :=
  ⟨.nil, nofun, by simp [empty], by simp [empty], by simp [empty], nofun, .nil⟩

theorem lowOf_lower_self (s : Notes) (v : String) (n : Nat) :
    (s.lower v n).lowOf v = min (s.lowOf v) n := by
  simp [lower, lowOf]

theorem lowOf_lower_of_ne {x : String} (h : x ≠ v) (s : Notes) (n : Nat) :
    (s.lower v n).lowOf x = s.lowOf x := by
  simp [lower, lowOf, Std.ExtTreeMap.getElem?_insert, h.symm]

theorem Tidy.lower (h : s.Tidy g) (v : String) (n : Nat) : (s.lower v n).Tidy g :=
  ⟨h.descending, h.number_lt, h.waiting, h.come, h.named, h.apart, h.listed⟩

/-- Around a name wait those with smaller numbers below and those with larger ones above. -/
theorem Tidy.around (h : s.Tidy g) (hstack : s.stack = above ++ v :: below) :
    (∀ x ∈ below, s.numberOf x < s.numberOf v) ∧ ∀ x ∈ above, s.numberOf v < s.numberOf x := by
  have hdescending := h.descending
  rw [hstack, List.pairwise_append, List.pairwise_cons] at hdescending
  exact ⟨hdescending.2.1.1, fun x hx => hdescending.2.2 x hx v List.mem_cons_self⟩

theorem Tidy.ne_of_below (h : s.Tidy g) (hstack : s.stack = above ++ v :: below) {x : String}
    (hx : x ∈ below) : x ≠ v := by
  rintro rfl
  exact absurd ((h.around hstack).1 x hx) (Nat.lt_irrefl _)

theorem Tidy.layered_lower (h : s.Tidy g) (hstack : s.stack = above ++ v :: below) (n : Nat)
    (hrest : Layered g s calls below) : Layered g (s.lower v n) calls below :=
  hrest.congr (fun _ hw => hw) fun _ hx => ⟨rfl, lowOf_lower_of_ne (h.ne_of_below hstack hx) s n⟩

/-! ### Looking back -/

/-- **An edge to a name that was come to before** has been looked at. -/
theorem Tidy.layer_lookBack (h : s.Tidy g) (hstack : s.stack = above ++ v :: below)
    (hw : w ∈ s.number) (layer : Layer g s v (w :: ahead) above below) :
    Layer g (s.lookBack v w) v ahead above below := by
  have hleads : ∀ x ∈ ahead, g.Edge v x := fun x hx => layer.leads x (List.mem_cons_of_mem w hx)
  unfold lookBack
  split
  · rename_i hwaiting
    have hwaits : w ∈ above ++ v :: below := by
      rw [← hstack, ← h.waiting]
      exact hwaiting
    have hlow := lowOf_lower_self s v (s.numberOf w)
    refine ⟨hleads, layer.together, fun u hu x he => ?_, ?_, ?_⟩
    · rw [hlow]
      rcases layer.looked u hu x he with ⟨rfl, hx⟩ | ⟨hx, hle⟩
      · rcases List.mem_cons.mp hx with rfl | hx
        · exact .inr ⟨hw, fun _ => Nat.min_le_right _ _⟩
        · exact .inl ⟨rfl, hx⟩
      · exact .inr ⟨hx, fun hbelow => Nat.le_trans (Nat.min_le_left _ _) (hle hbelow)⟩
    · rw [hlow]
      exact Nat.le_trans (Nat.min_le_left _ _) layer.low_le
    · rw [hlow]
      rcases Nat.le_total (s.lowOf v) (s.numberOf w) with hle | hle
      · rw [Nat.min_eq_left hle]
        exact layer.low_reached
      · rw [Nat.min_eq_right hle]
        exact ⟨w, hwaits, rfl, .single (layer.leads w List.mem_cons_self)⟩
  · -- a name of a complete component does not lie below
    rename_i hwaiting
    refine ⟨hleads, layer.together, fun u hu x he => ?_, layer.low_le, layer.low_reached⟩
    rcases layer.looked u hu x he with ⟨rfl, hx⟩ | hx
    · rcases List.mem_cons.mp hx with rfl | hx
      · refine .inr ⟨hw, fun hbelow => absurd ?_ hwaiting⟩
        rw [Std.ExtTreeSet.contains_iff_mem, h.waiting, hstack]
        exact List.mem_append_right _ (List.mem_cons_of_mem _ hbelow)
      · exact .inl ⟨rfl, hx⟩
    · exact .inr hx

theorem lookBack_cases (s : Notes) (v w : String) : s.lookBack v w = s ∨ ∃ n,
    s.lookBack v w = s.lower v n := by
  unfold lookBack
  split
  · exact .inr ⟨_, rfl⟩
  · exact .inl rfl

theorem Tidy.sound_lookBack (h : s.Tidy g) (hw : w ∈ s.number)
    (hlayered : Layered g s ((v, w :: ahead) :: calls) s.stack) :
    Search.Sound g ⟨(v, ahead) :: calls, s.lookBack v w⟩ := by
  obtain ⟨above, below, hstack, layer, come, rest⟩ := hlayered.split
  have hlayer := h.layer_lookBack hstack hw layer
  rcases s.lookBack_cases v w with heq | ⟨n, heq⟩
  · rw [heq] at hlayer ⊢
    refine ⟨h, ?_⟩
    rw [hstack]
    exact .cons hlayer come rest
  · rw [heq] at hlayer ⊢
    refine ⟨h.lower v n, ?_⟩
    show Layered g (s.lower v n) _ s.stack
    rw [hstack]
    exact .cons hlayer come (h.layered_lower hstack n rest)

/-! ### Coming to a new name -/

theorem numberOf_enter_self (s : Notes) (w : String) : (s.enter w).numberOf w = s.next := by
  simp [enter, numberOf]

theorem numberOf_enter_of_ne {x : String} (h : x ≠ w) (s : Notes) :
    (s.enter w).numberOf x = s.numberOf x := by
  simp [enter, numberOf, Std.ExtTreeMap.getElem?_insert, h.symm]

theorem lowOf_enter_self (s : Notes) (w : String) : (s.enter w).lowOf w = s.next := by
  simp [enter, lowOf]

theorem lowOf_enter_of_ne {x : String} (h : x ≠ w) (s : Notes) :
    (s.enter w).lowOf x = s.lowOf x := by
  simp [enter, lowOf, Std.ExtTreeMap.getElem?_insert, h.symm]

theorem mem_number_enter {x : String} : x ∈ (s.enter w).number ↔ x = w ∨ x ∈ s.number := by
  rw [enter, Std.ExtTreeMap.mem_insert, Std.LawfulEqCmp.compare_eq_iff_eq, eq_comm]

theorem Tidy.ne_of_new (h : s.Tidy g) (hw : w ∉ s.number) {x : String}
    (hx : x ∈ s.stack) : x ≠ w := by
  rintro rfl
  exact hw ((h.come x).mpr (.inl hx))

theorem Tidy.enter (h : s.Tidy g) (hw : w ∉ s.number) (hname : w ∈ g.names) :
    (s.enter w).Tidy g := by
  have hold : ∀ x ∈ s.stack, (s.enter w).numberOf x = s.numberOf x := fun x hx =>
    numberOf_enter_of_ne (h.ne_of_new hw hx) s
  have hnext := numberOf_enter_self s w
  refine ⟨.cons ?_ ?_, ?_, ?_, ?_, ?_, ?_, h.listed⟩
  · intro x hx
    rw [hold x hx, hnext]
    exact h.number_lt x hx
  · exact h.descending.imp_of_mem fun hu hv hlt => by rwa [hold _ hu, hold _ hv]
  · intro x hx
    rcases List.mem_cons.mp hx with rfl | hx
    · rw [hnext]
      exact Nat.lt_succ_self _
    · rw [hold x hx]
      exact Nat.lt_succ_of_lt (h.number_lt x hx)
  · intro x
    rw [Notes.enter, Std.ExtTreeSet.mem_insert, Std.LawfulEqCmp.compare_eq_iff_eq, h.waiting,
      List.mem_cons, eq_comm]
  · intro x
    rw [mem_number_enter, h.come, ← or_assoc, Notes.enter, List.mem_cons]
  · intro x hx
    rcases mem_number_enter.mp hx with rfl | hx
    · exact hname
    · exact h.named x hx
  · intro x hx
    rcases List.mem_cons.mp hx with rfl | hx
    · exact fun hfound => hw ((h.come x).mpr (.inr hfound))
    · exact h.apart x hx

theorem Tidy.layered_enter (h : s.Tidy g) (hw : w ∉ s.number) (hstack : ∀ x ∈ stack, x ∈ s.stack)
    (hlayered : Layered g s calls stack) : Layered g (s.enter w) calls stack :=
  hlayered.congr (fun _ hx => mem_number_enter.mpr (.inr hx)) fun x hx =>
    have hne := h.ne_of_new hw (hstack x hx)
    ⟨numberOf_enter_of_ne hne s, lowOf_enter_of_ne hne s⟩

/-- **The layer of a new name** has all its edges ahead. -/
theorem layer_enter (s : Notes) (w : String) (below : List String) :
    Layer g (s.enter w) w (g.successors w) [] below := by
  have hlow : (s.enter w).lowOf w = (s.enter w).numberOf w := by
    rw [lowOf_enter_self, numberOf_enter_self]
  refine ⟨fun _ he => he, nofun, fun u hu x he => ?_, Nat.le_of_eq hlow, ?_⟩
  · obtain rfl := List.mem_singleton.mp hu
    exact .inl ⟨rfl, he⟩
  · exact ⟨w, List.mem_cons_self, hlow.symm, .refl⟩

/-- An edge to a new name has been looked at once that is come to. -/
theorem Tidy.layer_lookAhead (h : s.Tidy g) (hstack : s.stack = above ++ v :: below)
    (hw : w ∉ s.number) (layer : Layer g s v (w :: ahead) above below) :
    Layer g (s.enter w) v ahead above below := by
  have hin : ∀ x ∈ above ++ v :: below, x ≠ w := fun x hx => h.ne_of_new hw (hstack ▸ hx)
  have hv : v ≠ w := hin v (by simp)
  have hlow := lowOf_enter_of_ne hv s
  refine ⟨fun x hx => layer.leads x (List.mem_cons_of_mem w hx), layer.together,
    fun u hu x he => ?_, ?_, ?_⟩
  · rcases layer.looked u hu x he with ⟨rfl, hx⟩ | ⟨hx, hle⟩
    · rcases List.mem_cons.mp hx with rfl | hx
      · exact .inr ⟨mem_number_enter.mpr (.inl rfl), fun hbelow =>
          absurd rfl (hin x (by simp [hbelow]))⟩
      · exact .inl ⟨rfl, hx⟩
    · refine .inr ⟨mem_number_enter.mpr (.inr hx), fun hbelow => ?_⟩
      rw [hlow, numberOf_enter_of_ne (hin x (by simp [hbelow])) s]
      exact hle hbelow
  · rw [hlow, numberOf_enter_of_ne hv s]
    exact layer.low_le
  · obtain ⟨x, hx, hnumber, hr⟩ := layer.low_reached
    exact ⟨x, hx, by rw [hlow, numberOf_enter_of_ne (hin x hx) s, hnumber], hr⟩

theorem Tidy.sound_enter (h : s.Tidy g) (hg : g.Closed) (hw : w ∉ s.number)
    (hlayered : Layered g s ((v, w :: ahead) :: calls) s.stack) :
    Search.Sound g ⟨(w, g.successors w) :: (v, ahead) :: calls, s.enter w⟩ := by
  obtain ⟨above, below, hstack, layer, come, rest⟩ := hlayered.split
  have hedge := layer.leads w List.mem_cons_self
  have hrest := h.layered_enter hw (fun x hx => by rw [hstack]; simp [hx]) rest
  have hbelow : Layered g (s.enter w) ((v, ahead) :: calls) s.stack := by
    have hlayer := h.layer_lookAhead hstack hw layer
    rw [hstack]
    exact .cons hlayer come hrest
  refine ⟨h.enter hw (hg v w hedge), ?_⟩
  have hcome : ∀ u ∈ ((v, ahead) :: calls).head?.map Prod.fst, g.Reaches u w := by
    intro u hu
    obtain rfl : v = u := Option.some.inj hu
    exact .single hedge
  have htop := Layered.cons (layer_enter s w s.stack) hcome hbelow
  exact htop

/-! ### Completing a component -/

theorem cut_stack (hv : ∀ x ∈ above, x ≠ v) (below : List String) :
    (above ++ v :: below).takeWhile (· != v) = above ∧
    (above ++ v :: below).dropWhile (· != v) = v :: below := by
  induction above with
  | nil => simp
  | cons x above ih =>
    have hx : (x != v) = true := by simpa using hv x List.mem_cons_self
    have hmore := ih fun y hy => hv y (List.mem_cons_of_mem x hy)
    rw [List.cons_append, List.takeWhile_cons, List.dropWhile_cons, hx]
    exact ⟨congrArg (x :: ·) hmore.1, hmore.2⟩

theorem mem_foldl_erase {names : List String} {x : String} (waiting : Std.ExtTreeSet String) :
    x ∈ names.foldl (fun waiting u => waiting.erase u) waiting ↔ x ∈ waiting ∧ x ∉ names := by
  induction names generalizing waiting with
  | nil => simp
  | cons u rest ih =>
    rw [List.foldl_cons, ih, Std.ExtTreeSet.mem_erase, Ne, Std.LawfulEqCmp.compare_eq_iff_eq,
      List.mem_cons, not_or, eq_comm, and_assoc, and_left_comm]

/-- **What a complete component is made of.** -/
theorem Tidy.complete_eq (h : s.Tidy g) (hstack : s.stack = above ++ v :: below) :
    (s.complete v).stack = below ∧
    (∀ x, x ∈ (s.complete v).waiting ↔ x ∈ s.waiting ∧ x ∉ above ++ [v]) ∧
    (s.complete v).found = (Std.ExtTreeSet.ofList (above ++ [v])).toList :: s.found := by
  have hne : ∀ x ∈ above, x ≠ v := by
    rintro x hx rfl
    exact absurd ((h.around hstack).2 x hx) (Nat.lt_irrefl _)
  obtain ⟨htake, hdrop⟩ := cut_stack hne below
  unfold complete
  dsimp only
  rw [hstack, htake, hdrop]
  exact ⟨rfl, fun x => mem_foldl_erase _, rfl⟩

theorem mem_component {x : String} : x ∈ (Std.ExtTreeSet.ofList (above ++ [v])).toList ↔
    x ∈ v :: above := by
  rw [Std.ExtTreeSet.mem_toList, Std.ExtTreeSet.mem_ofList, List.contains_iff_mem, List.mem_append,
    List.mem_singleton, List.mem_cons, or_comm]

theorem Tidy.not_mem_of_below (h : s.Tidy g) (hstack : s.stack = above ++ v :: below) {x : String}
    (hx : x ∈ below) : x ∉ v :: above := by
  obtain ⟨hsmaller, hlarger⟩ := h.around hstack
  have hless := hsmaller x hx
  intro hmem
  rcases List.mem_cons.mp hmem with rfl | hmem
  · exact Nat.lt_irrefl _ hless
  · exact absurd (hlarger x hmem) (Nat.lt_asymm hless)

/-- **Nothing leads down** from a layer whose name has its own number for the low one. -/
theorem Tidy.closed_layer (h : s.Tidy g) (hstack : s.stack = above ++ v :: below)
    (layer : Layer g s v [] above below) (hfirst : s.lowOf v = s.numberOf v) {x w : String}
    (hx : x ∈ v :: above) (he : g.Edge x w) :
    w ∈ v :: above ∨ w ∈ s.found.flatten := by
  rcases layer.looked x hx w he with ⟨-, hw⟩ | ⟨hw, hlow⟩
  · cases hw
  · -- a name below would have a number smaller than the low one
    have hnot : w ∉ below := by
      intro hw
      have := (h.around hstack).1 w hw
      have := hlow hw
      omega
    rcases (h.come w).mp hw with hw | hw
    · rw [hstack, List.mem_append, List.mem_cons] at hw
      refine .inl (List.mem_cons.mpr ?_)
      rcases hw with hw | rfl | hw
      · exact .inr hw
      · exact .inl rfl
      · exact absurd hw hnot
    · exact .inr hw

/-- **A layer that nothing leads down from** is the next component. -/
theorem Tidy.listed_complete (h : s.Tidy g) (hstack : s.stack = above ++ v :: below)
    (layer : Layer g s v [] above below) (hfirst : s.lowOf v = s.numberOf v) :
    Listed g (s.complete v).found := by
  have htogether : ∀ x ∈ v :: above, g.Reaches v x ∧ g.Reaches x v :=
    List.forall_mem_cons.mpr ⟨⟨.refl, .refl⟩, layer.together⟩
  rw [(h.complete_eq hstack).2.2]
  refine .cons ?_ ?_ ?_ ?_ ?_ h.listed
  · have hordered := Std.ExtTreeSet.ordered_toList (t := Std.ExtTreeSet.ofList (above ++ [v]))
    exact hordered.imp fun hlt => compareOfLessAndEq_eq_lt.mp hlt
  · exact List.ne_nil_of_mem (mem_component.mpr List.mem_cons_self)
  · intro x hx y hy
    exact (htogether x (mem_component.mp hx)).2.trans (htogether y (mem_component.mp hy)).1
  · intro x hx w he
    rw [mem_component]
    exact h.closed_layer hstack layer hfirst (mem_component.mp hx) he
  · intro x hx
    refine h.apart x ?_
    rw [hstack, List.mem_append, List.mem_cons]
    rcases List.mem_cons.mp (mem_component.mp hx) with rfl | hx
    · exact .inr (.inl rfl)
    · exact .inl hx

theorem Tidy.complete (h : s.Tidy g) (hstack : s.stack = above ++ v :: below)
    (layer : Layer g s v [] above below) (hfirst : s.lowOf v = s.numberOf v) :
    (s.complete v).Tidy g := by
  obtain ⟨hbelow, hwaiting, hfound⟩ := h.complete_eq hstack
  have hsub : ∀ x ∈ below, x ∈ s.stack := fun x hx => by rw [hstack]; simp [hx]
  refine ⟨?_, ?_, ?_, ?_, h.named, ?_, h.listed_complete hstack layer hfirst⟩
  · rw [hbelow]
    have hdescending := h.descending
    rw [hstack] at hdescending
    exact (List.pairwise_cons.mp (List.pairwise_append.mp hdescending).2.1).2
  · rw [hbelow]
    exact fun x hx => h.number_lt x (hsub x hx)
  · intro x
    have hx : x ∈ below → x ∉ v :: above := h.not_mem_of_below hstack
    rw [hwaiting, h.waiting, hbelow, hstack]
    simp only [List.mem_append, List.mem_cons, List.not_mem_nil, or_false] at hx ⊢
    tauto
  · intro x
    show x ∈ s.number ↔ _
    rw [h.come, hbelow, hfound, hstack, List.flatten_cons, List.mem_append, List.mem_append,
      mem_component, List.mem_cons, List.mem_cons]
    tauto
  · intro x hx
    rw [hbelow] at hx
    rw [hfound, List.flatten_cons, List.mem_append, mem_component]
    rintro (hc | hc)
    · exact h.not_mem_of_below hstack hx hc
    · exact h.apart x (hsub x hx) hc

/-! ### Leaving a name -/

/-- The name that the search left is not the first of its component: it reaches one below. -/
theorem Tidy.reaches_below (h : s.Tidy g) (hstack : s.stack = above ++ v :: below)
    {ahead : List String} (layer : Layer g s v ahead above below)
    (hnot : s.lowOf v ≠ s.numberOf v) :
    ∃ x ∈ below, s.numberOf x = s.lowOf v ∧ g.Reaches v x := by
  obtain ⟨x, hx, hnumber, hr⟩ := layer.low_reached
  have hlow := layer.low_le
  rcases List.mem_append.mp hx with hx | hx
  · have := (h.around hstack).2 x hx
    omega
  · rcases List.mem_cons.mp hx with rfl | hx
    · exact absurd hnumber.symm hnot
    · exact ⟨x, hx, hnumber, hr⟩

/-- **A layer that leads down joins the one below it.** -/
theorem layer_join {u : String} {ahead' above' below' : List String}
    (layer : Layer g s v [] above (above' ++ u :: below'))
    (layer' : Layer g s u ahead' above' below') (come : g.Reaches u v) (hback : g.Reaches v u)
    (hdown : ∃ x ∈ above' ++ u :: below', s.numberOf x = s.lowOf v ∧ g.Reaches v x) :
    Layer g (s.lower u (s.lowOf v)) u ahead' (above ++ v :: above') below' := by
  have hlow := lowOf_lower_self s u (s.lowOf v)
  have hleft : min (s.lowOf u) (s.lowOf v) ≤ s.lowOf u := Nat.min_le_left _ _
  have hright : min (s.lowOf u) (s.lowOf v) ≤ s.lowOf v := Nat.min_le_right _ _
  refine ⟨layer'.leads, fun x hx => ?_, fun x hx w he => ?_, ?_, ?_⟩
  · rcases List.mem_append.mp hx with hx | hx
    · exact ⟨come.trans (layer.together x hx).1, (layer.together x hx).2.trans hback⟩
    · rcases List.mem_cons.mp hx with rfl | hx
      · exact ⟨come, hback⟩
      · exact layer'.together x hx
  · rw [hlow]
    have hcases : x ∈ u :: above' ∨ x ∈ v :: above := by
      simp only [List.mem_cons, List.mem_append] at hx ⊢
      tauto
    rcases hcases with hx | hx
    · rcases layer'.looked x hx w he with hahead | ⟨hw, hle⟩
      · exact .inl hahead
      · exact .inr ⟨hw, fun hbelow => Nat.le_trans hleft (hle hbelow)⟩
    · rcases layer.looked x hx w he with ⟨-, hw⟩ | ⟨hw, hle⟩
      · cases hw
      · refine .inr ⟨hw, fun hbelow => Nat.le_trans hright (hle ?_)⟩
        exact List.mem_append_right _ (List.mem_cons_of_mem u hbelow)
  · rw [hlow]
    exact Nat.le_trans hleft layer'.low_le
  · rw [hlow]
    rcases Nat.le_total (s.lowOf u) (s.lowOf v) with hle | hle
    · obtain ⟨x, hx, hnumber, hr⟩ := layer'.low_reached
      rw [Nat.min_eq_left hle]
      refine ⟨x, ?_, hnumber, hr⟩
      simp only [List.mem_append, List.mem_cons] at hx ⊢
      tauto
    · obtain ⟨x, hx, hnumber, hr⟩ := hdown
      rw [Nat.min_eq_right hle]
      refine ⟨x, ?_, hnumber, come.trans hr⟩
      simp only [List.mem_append, List.mem_cons] at hx ⊢
      tauto

section

variable {u : String} {above' below' ahead' : List String}

/-- The first name of a component passes on a number that makes no difference, for it is larger than
that of the name it was come to from. -/
theorem Tidy.lowOf_passOn (h : s.Tidy g) (hstack : s.stack = above ++ v :: (above' ++ u :: below'))
    (layer' : Layer g s u ahead' above' below') (hfirst : s.lowOf v = s.numberOf v) (x : String) :
    (s.lower u (s.lowOf v)).lowOf x = s.lowOf x := by
  by_cases hx : x = u
  · have hless := (h.around hstack).1 u (by simp)
    have hle := layer'.low_le
    rw [hx, lowOf_lower_self]
    omega
  · exact lowOf_lower_of_ne hx s _

/-- **The first name of a component is left:** the component is complete, and the layers below
stay. -/
theorem Tidy.sound_complete (h : s.Tidy g)
    (hstack : s.stack = above ++ v :: (above' ++ u :: below'))
    (layer : Layer g s v [] above (above' ++ u :: below'))
    (layer' : Layer g s u ahead' above' below')
    (rest : Layered g s ((u, ahead') :: calls) (above' ++ u :: below'))
    (hfirst : s.lowOf v = s.numberOf v) :
    Search.Sound g ⟨(u, ahead') :: calls, (s.lower u (s.lowOf v)).complete v⟩ := by
  have htidy := h.lower u (s.lowOf v)
  have hall : ∀ x, (s.lower u (s.lowOf v)).numberOf x = s.numberOf x ∧
      (s.lower u (s.lowOf v)).lowOf x = s.lowOf x :=
      fun x => ⟨rfl, h.lowOf_passOn hstack layer' hfirst x⟩
  have hlayer : Layer g (s.lower u (s.lowOf v)) v [] above (above' ++ u :: below') :=
    layer.congr (fun _ hw => hw) fun x _ => hall x
  refine ⟨htidy.complete hstack hlayer ((hall v).2.trans hfirst), ?_⟩
  rw [(htidy.complete_eq hstack).1]
  exact rest.congr (fun _ hw => hw) fun x _ => hall x

/-- **Another name is left:** its layer joins the one below. -/
theorem Tidy.sound_join (h : s.Tidy g) (hstack : s.stack = above ++ v :: (above' ++ u :: below'))
    (layer : Layer g s v [] above (above' ++ u :: below'))
    (layer' : Layer g s u ahead' above' below') (hedge : g.Reaches u v)
    (come' : ∀ x ∈ calls.head?.map Prod.fst, g.Reaches x u) (rest' : Layered g s calls below')
    (rest : Layered g s ((u, ahead') :: calls) (above' ++ u :: below'))
    (hnot : s.lowOf v ≠ s.numberOf v) :
    Search.Sound g ⟨(u, ahead') :: calls, s.lower u (s.lowOf v)⟩ := by
  have hdown := h.reaches_below hstack layer hnot
  have hback : g.Reaches v u := by
    obtain ⟨x, hx, -, hr⟩ := hdown
    exact hr.trans (rest.reaches_innermost rfl hx)
  refine ⟨h.lower u (s.lowOf v), ?_⟩
  show Layered g (s.lower u (s.lowOf v)) _ s.stack
  have hjoin := layer_join layer layer' hedge hback hdown
  have hstack' : s.stack = (above ++ v :: above') ++ u :: below' := by
    rw [hstack, List.append_assoc, List.cons_append]
  rw [hstack']
  exact .cons hjoin come' (h.layered_lower hstack' _ rest')

end

/-- **The low number of a name is passed on** where it was come to from, and makes no difference
there if it is the name's own. -/
theorem Tidy.sound_leave (h : s.Tidy g) (hlayered : Layered g s ((v, []) :: calls) s.stack) :
    Search.Sound g ⟨calls, (s.passOn v (calls.head?.map Prod.fst)).leave v⟩ := by
  obtain ⟨above, below, hstack, layer, come, rest⟩ := hlayered.split
  match calls, come, rest with
  | [], _, rest =>
    obtain rfl := rest.eq_nil
    have hfirst : s.lowOf v = s.numberOf v := by
      refine Decidable.byContradiction fun hnot => ?_
      obtain ⟨x, hx, -⟩ := h.reaches_below hstack layer hnot
      cases hx
    show Search.Sound g ⟨[], s.leave v⟩
    rw [leave, if_pos hfirst]
    refine ⟨h.complete hstack layer hfirst, ?_⟩
    rw [(h.complete_eq hstack).1]
    exact .nil
  | (u, ahead') :: calls, come, rest =>
    show Search.Sound g ⟨(u, ahead') :: calls, (s.lower u (s.lowOf v)).leave v⟩
    obtain ⟨above', below', rfl, layer', come', rest'⟩ := rest.split
    have huv : v ≠ u := (h.ne_of_below hstack (by simp)).symm
    have hlow : (s.lower u (s.lowOf v)).lowOf v = s.lowOf v := lowOf_lower_of_ne huv s _
    unfold leave
    rw [hlow]
    split
    · rename_i hfirst
      exact h.sound_complete hstack layer layer' rest hfirst
    · rename_i hnot
      exact h.sound_join hstack layer layer' (come u rfl) come' rest' rest hnot

end Notes

/-! ### A search goes on -/

namespace Search

variable {search : Search}

/-- **Every step keeps a search sound.** -/
theorem Sound.step (h : search.Sound g) (hg : g.Closed) : (search.step g).Sound g := by
  obtain ⟨calls, s⟩ := search
  match calls, h with
  | [], h => exact h
  | (v, w :: ahead) :: calls, h =>
    rw [Search.step]
    split
    · rename_i hw
      exact h.tidy.sound_lookBack (Std.ExtTreeMap.contains_iff_mem.mp hw) h.layered
    · rename_i hw
      exact h.tidy.sound_enter hg (by simpa using hw) h.layered
  | (v, []) :: calls, h => exact h.tidy.sound_leave h.layered

theorem mem_number_step {w : String} (hw : w ∈ search.notes.number) :
    w ∈ (search.step g).notes.number := by
  obtain ⟨calls, s⟩ := search
  match calls with
  | [] => exact hw
  | (v, u :: ahead) :: calls =>
    rw [step]
    split
    · show w ∈ (s.lookBack v u).number
      rwa [Notes.number_lookBack]
    · exact Notes.mem_number_enter.mpr (.inr hw)
  | (v, []) :: calls =>
    show w ∈ ((s.passOn v (calls.head?.map Prod.fst)).leave v).number
    rwa [Notes.number_leave, Notes.number_passOn]

/-- **A search that is sound ends** with nothing waiting, and forgets no name that was come to. -/
theorem Sound.run (h : search.Sound g) (hg : g.Closed) :
    (search.run g).Tidy g ∧ (search.run g).stack = [] ∧ ∀ w ∈ search.notes.number,
    w ∈ (search.run g).number := by
  fun_induction Search.run g search with
  | case1 search hdone =>
    have hlayered := h.layered
    rw [hdone] at hlayered
    exact ⟨h.tidy, hlayered.eq_nil, fun _ hw => hw⟩
  | case2 search _ ih =>
    obtain ⟨htidy, hstack, hnumber⟩ := ih (h.step hg)
    exact ⟨htidy, hstack, fun w hw => hnumber w (mem_number_step hw)⟩

end Search

namespace Notes

/-- Going on from a name leaves nothing waiting if nothing waited before. -/
theorem Tidy.goOn (h : s.Tidy g) (hg : g.Closed) (hstack : s.stack = []) (hv : v ∈ g.names) :
    (s.goOn g v).Tidy g ∧ (s.goOn g v).stack = [] ∧ v ∈ (s.goOn g v).number ∧
      ∀ w ∈ s.number, w ∈ (s.goOn g v).number := by
  unfold Notes.goOn
  split
  · rename_i hseen
    exact ⟨h, hstack, Std.ExtTreeMap.contains_iff_mem.mp hseen, fun _ hw => hw⟩
  · rename_i hnew
    have hnew : v ∉ s.number := by simpa using hnew
    have hsound : Search.Sound g ⟨[(v, g.successors v)], s.enter v⟩ := by
      refine ⟨h.enter hnew hv, ?_⟩
      have hcome : ∀ u ∈ ([] : List (String × List String)).head?.map Prod.fst,
          g.Reaches u v := by simp
      have htop := Layered.cons (layer_enter s v []) hcome .nil
      show Layered g (s.enter v) _ (v :: s.stack)
      rw [hstack]
      exact htop
    obtain ⟨htidy, hempty, hnumber⟩ := hsound.run hg
    exact ⟨htidy, hempty, hnumber v (mem_number_enter.mpr (.inl rfl)),
      fun w hw => hnumber w (mem_number_enter.mpr (.inr hw))⟩

theorem Tidy.foldl (h : s.Tidy g) (hg : g.Closed) (hstack : s.stack = []) {names : List String}
    (hnames : ∀ v ∈ names, v ∈ g.names) :
    (names.foldl (Notes.goOn g) s).Tidy g ∧ (names.foldl (Notes.goOn g) s).stack = [] ∧
      (∀ v ∈ names, v ∈ (names.foldl (Notes.goOn g) s).number) ∧
      ∀ w ∈ s.number, w ∈ (names.foldl (Notes.goOn g) s).number := by
  induction names generalizing s with
  | nil => exact ⟨h, hstack, nofun, fun _ hw => hw⟩
  | cons v rest ih =>
    obtain ⟨htidy, hempty, hv, hkept⟩ := h.goOn hg hstack (hnames v List.mem_cons_self)
    obtain ⟨htidy', hempty', hrest, hkept'⟩ := ih htidy hempty fun u hu =>
      hnames u (List.mem_cons_of_mem v hu)
    refine ⟨htidy', hempty', fun u hu => ?_, fun w hw => hkept' w (hkept w hw)⟩
    rcases List.mem_cons.mp hu with rfl | hu
    · exact hkept' u hv
    · exact hrest u hu

end Notes

/-! ### The components -/

/-- **What the search finds:** listed components, in which all names lie and nothing else does. -/
theorem exists_listed (hg : g.Closed) :
    ∃ found, g.components = found.reverse ∧ Listed g found ∧ ∀ v, v ∈ found.flatten ↔
    v ∈ g.names := by
  obtain ⟨htidy, hstack, hall, -⟩ := Notes.tidy_empty.foldl hg rfl (fun v (hv : v ∈ g.names) => hv)
  refine ⟨_, rfl, htidy.listed, fun v => ⟨fun hv => ?_, fun hv => ?_⟩⟩
  · exact htidy.named v ((htidy.come v).mpr (.inr hv))
  · have hcome := (htidy.come v).mp (hall v hv)
    rw [hstack] at hcome
    exact hcome.resolve_left (by simp)

/-- **The components are the strongly connected ones.** -/
theorem mem_components_iff (hg : g.Closed) {c : List String} : c ∈ g.components ↔
    g.IsComponent c := by
  obtain ⟨found, hfound, hlisted, hnames⟩ := exists_listed hg
  have hchar : ∀ d ∈ found, ∀ v ∈ d, ∀ u, u ∈ d ↔ g.Reaches v u ∧ g.Reaches u v := by
    intro d hd v hv u
    refine ⟨fun hu => ⟨hlisted.connected hd hv hu, hlisted.connected hd hu hv⟩, fun h => ?_⟩
    exact hlisted.mem_of_connected hd hv h.1 h.2
  rw [hfound, List.mem_reverse]
  constructor
  · intro hc
    obtain ⟨v, hv⟩ := List.exists_mem_of_ne_nil c (hlisted.inhabited hc)
    have hname : v ∈ g.names := (hnames v).mp (List.mem_flatten.mpr ⟨c, hc, hv⟩)
    exact ⟨hlisted.ordered hc, v, hname, hchar c hc v hv⟩
  · rintro ⟨hordered, v, hname, hmem⟩
    obtain ⟨d, hd, hv⟩ := List.mem_flatten.mp ((hnames v).mpr hname)
    have hsame : ∀ u, u ∈ c ↔ u ∈ d := fun u => (hmem u).trans (hchar d hd v hv u).symm
    rwa [hordered.eq_of_mem_iff (hlisted.ordered hd) hsame]

theorem nodup_components (hg : g.Closed) : g.components.Nodup := by
  obtain ⟨found, hfound, hlisted, -⟩ := exists_listed hg
  rw [hfound, List.nodup_reverse]
  refine hlisted.pairwise.imp_of_mem fun {c d} hc _ hno heq => ?_
  obtain ⟨v, hv⟩ := List.exists_mem_of_ne_nil c (hlisted.inhabited hc)
  exact hno v (heq ▸ hv) v hv .refl

/-- **A component comes before every other that leads to it.** -/
theorem components_pairwise (hg : g.Closed) : g.components.Pairwise fun c d => ∀ u ∈ c, ∀ v ∈ d,
    ¬g.Reaches u v := by
  obtain ⟨found, hfound, hlisted, -⟩ := exists_listed hg
  rw [hfound, List.pairwise_reverse]
  exact hlisted.pairwise

/-- **Two names that reach one another** lie in a component of more than one name. -/
theorem long_component (hg : g.Closed) {u v : String} (hu : u ∈ g.names) (hne : u ≠ v)
    (huv : g.Reaches u v) (hvu : g.Reaches v u) : ∃ c ∈ g.components, 1 < c.length := by
  obtain ⟨found, hfound, hlisted, hnames⟩ := exists_listed hg
  obtain ⟨c, hc, huc⟩ := List.mem_flatten.mp ((hnames u).mpr hu)
  have hvc : v ∈ c := hlisted.mem_of_connected hc huc huv hvu
  refine ⟨c, by rwa [hfound, List.mem_reverse], ?_⟩
  match c, huc, hvc with
  | [a], huc, hvc =>
    rw [List.mem_singleton] at huc hvc
    exact absurd (huc.trans hvc.symm) hne
  | a :: b :: rest, _, _ => simp

end TemplateGrammar.Graph
