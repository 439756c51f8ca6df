import TemplateGrammar.Tags.Store

/-!
# What a level sees of layered tags

A reading from a level sees only what lies at or below it.  So it does not see what is written above
(`get?_store_of_lt`), it sees what is written on its own level (`get?_store_self`), and it is not
changed when a level at or above it is left (`get?_leave_of_le`).  After a level has been left,
nothing lies above it (`within_leave`), and where nothing lies above a level, every higher one sees
what that level sees (`get?_of_within`).

What holds of all tags of a store, as any level sees them, is kept by writing tags of which it
holds, and by leaving levels (`All.store`, `All.leave`).
-/

namespace TemplateGrammar

namespace Layers

variable {α : Type}

/-- The layers at or below a level, from the highest level down. -/
def upTo (level : Nat) (layers : List (Nat × Dict α)) : List (Nat × Dict α) :=
  layers.dropWhile fun l => level < l.1

theorem get?_eq_findSome? (ls : Layers α) (level : Nat) (name : String) :
    ls.get? level name = (upTo level ls.toList).findSome? fun l => l.2[name]? := rfl

theorem upTo_cons_of_lt {level : Nat} {layer : Nat × Dict α} (rest : List (Nat × Dict α))
    (h : level < layer.1) : upTo level (layer :: rest) = upTo level rest := by
  rw [upTo, List.dropWhile_cons, if_pos (by simpa using h)]
  rfl

theorem upTo_cons_of_le {level : Nat} {layer : Nat × Dict α} (rest : List (Nat × Dict α))
    (h : layer.1 ≤ level) : upTo level (layer :: rest) = layer :: rest := by
  rw [upTo, List.dropWhile_cons, if_neg (by simpa using h)]

theorem upTo_upTo {low high : Nat} (h : low ≤ high) (layers : List (Nat × Dict α)) :
    upTo low (upTo high layers) = upTo low layers := by
  induction layers with
  | nil => rfl
  | cons layer rest ih =>
    by_cases hl : high < layer.1
    · rw [upTo_cons_of_lt rest hl, upTo_cons_of_lt rest (by omega), ih]
    · rw [upTo_cons_of_le rest (by omega)]

theorem upTo_write {low level : Nat} (h : low < level) (name : String) (a : α)
    (layers : List (Nat × Dict α)) : upTo low (write level name a layers) = upTo low layers := by
  induction layers with
  | nil =>
    rw [write, upTo_cons_of_lt [] h]
  | cons layer rest ih =>
    rw [write]
    split
    · rename_i hl
      rw [upTo_cons_of_lt _ (by omega), upTo_cons_of_lt rest (by omega), ih]
    · split
      · rename_i hl
        rw [upTo_cons_of_lt rest h, upTo_cons_of_lt rest (by omega)]
      · rw [upTo_cons_of_lt _ h]

theorem get?_insert_of_lt {ls : Layers α} {low level : Nat} (h : low < level)
    (name other : String) (a : α) :
    (ls.insert level name a).get? low other = ls.get? low other := by
  rw [get?_eq_findSome?, get?_eq_findSome?]
  exact congrArg _ (upTo_write h name a ls.toList)

/-- What is written on a level is seen from there, and nothing else changes. -/
theorem get?_insert_self (ls : Layers α) (level : Nat) (name other : String) (a : α) :
    (ls.insert level name a).get? level other = if name = other then some a
      else ls.get? level other := by
  have hone : ∀ (names : Dict α) (layers : List (Nat × Dict α)),
      ((level, names.insert name a) :: layers).findSome? (fun l => l.2[other]?) =
        if name = other then some a else ((level, names) :: layers).findSome? fun l =>
        l.2[other]? := by
    intro names layers
    rw [List.findSome?_cons, List.findSome?_cons]
    dsimp only
    rw [Std.ExtTreeMap.getElem?_insert]
    by_cases h : name = other
    · rw [if_pos h, if_pos (by simpa using h)]
    · rw [if_neg h, if_neg (by simpa using h)]
  have hnew : ∀ layers : List (Nat × Dict α),
      ((level, (∅ : Dict α)) :: layers).findSome? (fun l => l.2[other]?) = layers.findSome? fun l =>
      l.2[other]? := by
    intro layers
    rw [List.findSome?_cons]
    simp
  rw [get?_eq_findSome?, get?_eq_findSome?]
  show (upTo level (write level name a ls.toList)).findSome? _ = _
  induction ls.toList with
  | nil => rw [write, upTo_cons_of_le [] (Nat.le_refl level), hone, hnew]; rfl
  | cons layer rest ih =>
    rw [write]
    split
    · rename_i hl
      rw [upTo_cons_of_lt _ hl, upTo_cons_of_lt rest hl, ih]
    · split
      · rename_i hl
        rw [upTo_cons_of_le rest (Nat.le_refl level),
          upTo_cons_of_le rest (Nat.le_of_eq hl.symm), hone, hl]
      · rw [upTo_cons_of_le _ (Nat.le_refl level), upTo_cons_of_le rest (by omega), hone, hnew]

theorem get?_leave_of_le {ls : Layers α} {low level : Nat} (h : low ≤ level) (name : String) :
    (ls.leave level).get? low name = ls.get? low name := by
  rw [get?_eq_findSome?, get?_eq_findSome?]
  exact congrArg _ (upTo_upTo h ls.toList)

theorem upTo_write_of_le {low level : Nat} (h : level ≤ low) (name : String) (a : α)
    (layers : List (Nat × Dict α)) :
    upTo low (write level name a layers) = write level name a (upTo low layers) := by
  induction layers with
  | nil =>
    rw [write, upTo_cons_of_le [] h]
    rfl
  | cons layer rest ih =>
    by_cases hl : low < layer.1
    · have hwrite : write level name a (layer :: rest) = layer :: write level name a rest := by
        rw [write, if_pos (Nat.lt_of_le_of_lt h hl)]
      rw [hwrite, upTo_cons_of_lt _ hl, upTo_cons_of_lt rest hl, ih]
    · rw [upTo_cons_of_le rest (by omega), write]
      split
      · exact upTo_cons_of_le _ (by omega)
      · split
        · exact upTo_cons_of_le rest h
        · exact upTo_cons_of_le _ h

theorem findSome?_write {level : Nat} {name other : String} {a b : α} {layers : List (Nat × Dict α)}
    (h : (write level name a layers).findSome? (fun l => l.2[other]?) = some b) :
    b = a ∨ layers.findSome? (fun l => l.2[other]?) = some b := by
  have hone : ∀ (names : Dict α) (layers : List (Nat × Dict α)),
      ((level, names.insert name a) :: layers).findSome? (fun l => l.2[other]?) = some b →
        b = a ∨ ((level, names) :: layers).findSome? (fun l => l.2[other]?) = some b := by
    intro names layers h
    rw [List.findSome?_cons] at h ⊢
    dsimp only at h ⊢
    rw [Std.ExtTreeMap.getElem?_insert] at h
    by_cases hn : name = other
    · rw [if_pos (by simpa using hn)] at h
      exact .inl (Option.some.inj h).symm
    · rw [if_neg (by simpa using hn)] at h
      exact .inr h
  induction layers with
  | nil =>
    rcases hone ∅ [] h with h | h
    · exact .inl h
    · simp at h
  | cons layer rest ih =>
    rw [write] at h
    split at h
    · rw [List.findSome?_cons] at h ⊢
      split at h
      · exact .inr h
      · exact ih h
    · split at h
      · rename_i hl
        subst hl
        exact hone layer.2 rest h
      · rcases hone ∅ _ h with h | h
        · exact .inl h
        · rw [List.findSome?_cons] at h
          simp at h
          exact .inr h

theorem get?_insert_cases {ls : Layers α} {level low : Nat} {name other : String} {a b : α}
    (h : (ls.insert level name a).get? low other = some b) :
    b = a ∨ ls.get? low other = some b := by
  by_cases hl : low < level
  · rw [get?_insert_of_lt hl] at h
    exact .inr h
  · rw [get?_eq_findSome?] at h ⊢
    have hwrite : upTo low (ls.insert level name a).toList =
        write level name a (upTo low ls.toList) :=
      upTo_write_of_le (by omega) name a ls.toList
    rw [hwrite] at h
    exact findSome?_write h

theorem findSome?_write_of_ne {name other : String} (h : name ≠ other) (level : Nat) (a : α)
    (layers : List (Nat × Dict α)) :
    (write level name a layers).findSome? (fun l => l.2[other]?) = layers.findSome? fun l =>
    l.2[other]? := by
  have hone : ∀ names : Dict α, (names.insert name a)[other]? = names[other]? := by
    intro names
    rw [Std.ExtTreeMap.getElem?_insert, if_neg (by simpa using h)]
  induction layers with
  | nil =>
    rw [write, List.findSome?_cons, hone]
    simp
  | cons layer rest ih =>
    rw [write]
    split
    · rw [List.findSome?_cons, List.findSome?_cons, ih]
    · split
      · rw [List.findSome?_cons, List.findSome?_cons, hone]
      · rw [List.findSome?_cons, hone]
        simp

theorem get?_insert_of_ne {name other : String} (h : name ≠ other) (ls : Layers α)
    (level low : Nat) (a : α) : (ls.insert level name a).get? low other = ls.get? low other := by
  by_cases hl : low < level
  · exact get?_insert_of_lt hl name other a
  · rw [get?_eq_findSome?, get?_eq_findSome?]
    have hwrite : upTo low (ls.insert level name a).toList =
        write level name a (upTo low ls.toList) :=
      upTo_write_of_le (by omega) name a ls.toList
    rw [hwrite]
    exact findSome?_write_of_ne h level a _

theorem le_of_mem_leave {ls : Layers α} {level : Nat} {layer : Nat × Dict α}
    (h : layer ∈ (ls.leave level).toList) : layer.1 ≤ level := by
  obtain ⟨layers, descending⟩ := ls
  replace h : layer ∈ upTo level layers := h
  induction layers with
  | nil => exact absurd h List.not_mem_nil
  | cons first rest ih =>
    obtain ⟨hfirst, hrest⟩ := List.pairwise_cons.1 descending
    by_cases hl : level < first.1
    · rw [upTo_cons_of_lt rest hl] at h
      exact ih hrest h
    · rw [upTo_cons_of_le rest (by omega)] at h
      rcases List.mem_cons.1 h with rfl | h
      · omega
      · have := hfirst layer h
        omega

theorem upTo_of_forall_le {level : Nat} {layers : List (Nat × Dict α)}
    (h : ∀ layer ∈ layers, layer.1 ≤ level) :
    upTo level layers = layers := by
  cases layers with
  | nil => rfl
  | cons first rest => exact upTo_cons_of_le rest (h first List.mem_cons_self)

theorem get?_leave_of_ge {ls : Layers α} {level high : Nat} (h : level ≤ high) (name : String) :
    (ls.leave level).get? high name = ls.get? level name := by
  have hall : ∀ layer ∈ (ls.leave level).toList, layer.1 ≤ high := by
    intro layer hm
    exact Nat.le_trans (le_of_mem_leave hm) h
  rw [get?_eq_findSome?, get?_eq_findSome?, upTo_of_forall_le hall]
  rfl

end Layers

namespace TagStore

variable {H : Type}

/-- How the tags of a store are scoped. -/
def scoping : TagStore H → TagScoping
  | flat _ => .flat
  | layered _ => .layered

/-- No layer of a store is above a level. -/
def Within (level : Nat) : TagStore H → Prop
  | flat _ => True
  | layered tags => ∀ layer ∈ tags.toList, layer.1 ≤ level

@[simp] theorem scoping_store (ts : TagStore H) (level : Nat) (name : String) (tag : Tag H) :
    (ts.store level name tag).scoping = ts.scoping := by
  cases ts <;> rfl

@[simp] theorem scoping_leave (ts : TagStore H) (level : Nat) :
    (ts.leave level).scoping = ts.scoping := by
  cases ts <;> rfl

@[simp] theorem scoping_clear (ts : TagStore H) : ts.clear.scoping = ts.scoping := by
  cases ts <;> rfl

theorem get?_store_of_lt {ts : TagStore H} (hl : ts.scoping = .layered) {low level : Nat}
    (h : low < level) (name other : String) (tag : Tag H) :
    (ts.store level name tag).get? low other = ts.get? low other := by
  cases ts with
  | flat tags => simp [scoping] at hl
  | layered tags => exact Layers.get?_insert_of_lt h name other tag

/-- **A tag that is set** is seen from its level, and the others as they were. -/
theorem get?_store_self (ts : TagStore H) (level : Nat) (name other : String) (tag : Tag H) :
    (ts.store level name tag).get? level other = if name = other then some tag
      else ts.get? level other := by
  cases ts with
  | flat tags =>
    show (tags.insert name tag)[other]? = if name = other then some tag else tags[other]?
    rw [Std.ExtTreeMap.getElem?_insert]
    simp
  | layered tags => exact Layers.get?_insert_self tags level name other tag

theorem get?_leave_of_le (ts : TagStore H) {low level : Nat} (h : low ≤ level) (name : String) :
    (ts.leave level).get? low name = ts.get? low name := by
  cases ts with
  | flat tags => rfl
  | layered tags => exact Layers.get?_leave_of_le h name

/-- **A tag that is set** makes no difference to the others, from whatever level they are seen. -/
theorem get?_store_of_ne {name other : String} (h : name ≠ other) (ts : TagStore H)
    (level low : Nat) (tag : Tag H) :
    (ts.store level name tag).get? low other = ts.get? low other := by
  cases ts with
  | flat tags =>
    show (tags.insert name tag)[other]? = tags[other]?
    rw [Std.ExtTreeMap.getElem?_insert, if_neg (by simpa using h)]
  | layered tags => exact Layers.get?_insert_of_ne h tags level low tag

/-- What is seen after a level was left was seen before, from that level or from a lower one. -/
theorem exists_get?_leave (ts : TagStore H) (level low : Nat) (name : String) :
    ∃ high, (ts.leave level).get? low name = ts.get? high name := by
  by_cases hl : low ≤ level
  · exact ⟨low, get?_leave_of_le ts hl name⟩
  · cases ts with
    | flat tags => exact ⟨low, rfl⟩
    | layered tags => exact ⟨level, Layers.get?_leave_of_ge (by omega) name⟩

/-! ### What holds of all tags -/

/-- **It holds of every tag** that any level sees. -/
def All (p : Tag H → Prop) (ts : TagStore H) : Prop :=
  ∀ level name tag, ts.get? level name = some tag → p tag

theorem all_empty (p : Tag H → Prop) (scoping : TagScoping) :
    (empty scoping : TagStore H).All p := by
  intro level name tag h
  cases scoping with
  | flat => simp [empty, get?] at h
  | layered => simp [empty, get?, Layers.get?, Layers.leave, Layers.empty] at h

theorem all_clear (p : Tag H → Prop) (ts : TagStore H) : ts.clear.All p := by
  cases ts with
  | flat tags => exact all_empty p .flat
  | layered tags => exact all_empty p .layered

theorem All.store {p : Tag H → Prop} {ts : TagStore H} (h : ts.All p) (level : Nat)
    (name : String) {tag : Tag H} (hp : p tag) : (ts.store level name tag).All p := by
  intro low other seen hseen
  have hcases : seen = tag ∨ ts.get? low other = some seen := by
    cases ts with
    | flat tags =>
      replace hseen : (tags.insert name tag)[other]? = some seen := hseen
      rw [Std.ExtTreeMap.getElem?_insert] at hseen
      split at hseen
      · exact .inl (Option.some.inj hseen).symm
      · exact .inr hseen
    | layered tags => exact Layers.get?_insert_cases hseen
  rcases hcases with rfl | hbefore
  · exact hp
  · exact h low other seen hbefore

theorem All.leave {p : Tag H → Prop} {ts : TagStore H} (h : ts.All p) (level : Nat) :
    (ts.leave level).All p := by
  intro low name tag hget
  obtain ⟨high, hsame⟩ := ts.exists_get?_leave level low name
  exact h high name tag (hsame.symm.trans hget)

theorem within_leave (ts : TagStore H) (level : Nat) : (ts.leave level).Within level := by
  cases ts with
  | flat tags => trivial
  | layered tags => exact fun layer h => Layers.le_of_mem_leave h

theorem Within.mono {ts : TagStore H} {level high : Nat} (h : ts.Within level) (hl : level ≤ high) :
    ts.Within high := by
  cases ts with
  | flat tags => trivial
  | layered tags => exact fun layer hm => Nat.le_trans (h layer hm) hl

theorem Within.store {ts : TagStore H} {level : Nat} (h : ts.Within level) (name : String)
    (tag : Tag H) : (ts.store level name tag).Within level := by
  cases ts with
  | flat tags => trivial
  | layered tags =>
    intro layer hm
    rcases Layers.level_of_mem_write hm with hlevel | hm
    · exact Nat.le_of_eq hlevel
    · exact h layer hm

/-- **A level with nothing above it** sees what every higher level sees. -/
theorem get?_of_within {ts : TagStore H} {level high : Nat} (h : ts.Within level)
    (hl : level ≤ high) (name : String) : ts.get? high name = ts.get? level name := by
  cases ts with
  | flat tags => rfl
  | layered tags =>
    have hhigh : ∀ layer ∈ tags.toList, layer.1 ≤ high :=
      fun layer hm => Nat.le_trans (h layer hm) hl
    show tags.get? high name = tags.get? level name
    rw [Layers.get?_eq_findSome?, Layers.get?_eq_findSome?, Layers.upTo_of_forall_le hhigh,
      Layers.upTo_of_forall_le h]

end TagStore

end TemplateGrammar
