import Std.Data.ExtTreeSet
import TemplateGrammar.Dict
import TemplateGrammar.Total

/-!
# Graphs of names

A graph has names, each with the names it leads to.  `Graph.components` finds the strongly connected
components, each in order of name.

A search numbers the names as it comes to them.  From a name it goes on to a new one before it is
done with the first, so it is at several names at once, which it keeps as calls, the innermost
first.  A name waits on a stack until its component is complete.  Its low number is the smallest
number of a waiting name that it was seen to reach; a name that the search leaves with its own
number as the low one is the first of its component, and those above it on the stack are the others.
-/

namespace TemplateGrammar

/-- Names, each with the names it leads to. -/
abbrev Graph := Dict (List String)

namespace Graph

/-- The names of a graph, in order. -/
def names (g : Graph) : List String :=
  g.keys

/-- The names a name leads to. -/
def successors (g : Graph) (v : String) : List String :=
  g[v]?.getD []

/-! ### What a search notes down -/

/-- The notes of a search for components. -/
structure Notes where
  /-- the numbers of the names that the search has come to -/
  number : Dict Nat
  /-- their low numbers -/
  low : Dict Nat
  /-- the number of the next new name -/
  next : Nat
  /-- the names whose component is not complete, the latest first -/
  stack : List String
  /-- the names on the stack -/
  waiting : Std.ExtTreeSet String
  /-- the components that are complete, the latest first -/
  found : List (List String)

namespace Notes

/-- The notes of a search that has not begun. -/
def empty : Notes := ⟨∅, ∅, 0, [], ∅, []⟩

/-- The number of a name. -/
def numberOf (s : Notes) (v : String) : Nat :=
  s.number[v]?.getD 0

/-- The low number of a name. -/
def lowOf (s : Notes) (v : String) : Nat :=
  s.low[v]?.getD 0

/-- A new name is come to. -/
def enter (s : Notes) (v : String) : Notes :=
  { s with
    number := s.number.insert v s.next
    low := s.low.insert v s.next
    next := s.next + 1
    stack := v :: s.stack
    waiting := s.waiting.insert v }

/-- A name reaches one that waits and has this number. -/
def lower (s : Notes) (v : String) (n : Nat) : Notes :=
  { s with low := s.low.insert v (min (s.lowOf v) n) }

/-- A name leads to one that was come to before.  That counts only if it waits. -/
def lookBack (s : Notes) (v w : String) : Notes :=
  if s.waiting.contains w then s.lower v (s.numberOf w) else s

/-- What a name reaches can be reached from where it was come to from, too. -/
def passOn (s : Notes) (v : String) : Option String → Notes
  | some u => s.lower u (s.lowOf v)
  | none => s

/-- A component is complete: the names on the stack down to this one. -/
def complete (s : Notes) (v : String) : Notes :=
  let members := s.stack.takeWhile (· != v) ++ (s.stack.dropWhile (· != v)).take 1
  { s with
    stack := (s.stack.dropWhile (· != v)).drop 1
    waiting := members.foldl (fun waiting u => waiting.erase u) s.waiting
    found := (Std.ExtTreeSet.ofList members).toList :: s.found }

/-- A name is left; it may be the first of its component. -/
def leave (s : Notes) (v : String) : Notes :=
  if s.lowOf v = s.numberOf v then s.complete v else s

theorem number_lookBack (s : Notes) (v w : String) : (s.lookBack v w).number = s.number := by
  unfold lookBack
  split <;> rfl

theorem number_passOn (s : Notes) (v : String) (u : Option String) :
    (s.passOn v u).number = s.number := by
  cases u <;> rfl

theorem number_leave (s : Notes) (v : String) : (s.leave v).number = s.number := by
  unfold leave
  split <;> rfl

end Notes

/-! ### Searching -/

/-- A search that is under way: the names it is at, the innermost first, each with those that are
still to be looked at from it, and its notes. -/
structure Search where
  calls : List (String × List String)
  notes : Notes

namespace Search

/-- **One step:** look at the next name from the innermost one, or leave that. -/
def step (g : Graph) : Search → Search
  | ⟨[], s⟩ => ⟨[], s⟩
  | ⟨(v, w :: ahead) :: calls, s⟩ =>
    if s.number.contains w then ⟨(v, ahead) :: calls, s.lookBack v w⟩
    else ⟨(w, g.successors w) :: (v, ahead) :: calls, s.enter w⟩
  | ⟨(v, []) :: calls, s⟩ => ⟨calls, (s.passOn v (calls.head?.map Prod.fst)).leave v⟩

/-! ### A search ends -/

/-- What there is to do at the names that the search is at: look at what is ahead, and leave. -/
def callsLeft (calls : List (String × List String)) : Nat :=
  total (calls.map fun call => 2 * call.2.length + 1)

/-- What there will be to do at the names that it has not come to. -/
def namesLeft (g : Graph) (number : Dict Nat) : Nat :=
  total (g.names.map fun v => if number.contains v then 0 else 2 * (g.successors v).length + 1)

/-- What a search has still to do. -/
def left (g : Graph) (search : Search) : Nat :=
  callsLeft search.calls + namesLeft g search.notes.number

theorem total_map_le {names : List String} {f f' : String → Nat} (h : ∀ v ∈ names, f' v ≤ f v) :
    total (names.map f') ≤ total (names.map f) := by
  induction names with
  | nil => exact Nat.le_refl _
  | cons v rest ih =>
    have hfirst := h v List.mem_cons_self
    have hrest := ih fun u hu => h u (List.mem_cons_of_mem v hu)
    simp only [List.map_cons, total_cons]
    omega

/-- A name that is come to has been counted, unless it leads nowhere. -/
theorem namesLeft_insert (g : Graph) {number : Dict Nat} {v : String} (hv : v ∉ number) (n : Nat) :
    namesLeft g (number.insert v n) + 2 * (g.successors v).length ≤ namesLeft g number := by
  let before := fun u => if number.contains u then 0 else 2 * (g.successors u).length + 1
  let after := fun u => if (number.insert v n).contains u then 0
    else 2 * (g.successors u).length + 1
  have hle : ∀ u, after u ≤ before u := by
    intro u
    by_cases hu : u ∈ number
    · simp [before, after, hu]
    · by_cases hvu : v = u
      · simp [before, after, hvu]
      · simp [before, after, hu, hvu]
  show total (g.names.map after) + _ ≤ total (g.names.map before)
  by_cases hname : v ∈ g.names
  · obtain ⟨front, back, hsplit⟩ := List.append_of_mem hname
    have hfront : total (front.map after) ≤ total (front.map before) :=
      total_map_le fun u _ => hle u
    have hback : total (back.map after) ≤ total (back.map before) := total_map_le fun u _ => hle u
    have hafter : after v = 0 := by simp [after]
    have hbefore : before v = 2 * (g.successors v).length + 1 := by simp [before, hv]
    rw [hsplit]
    simp only [List.map_append, List.map_cons, total_append, total_cons]
    omega
  · have hnone : g.successors v = [] := by
      unfold successors
      rw [Std.ExtTreeMap.getElem?_eq_none]
      · rfl
      · rwa [names, Std.ExtTreeMap.mem_keys] at hname
    rw [hnone]
    exact total_map_le fun u _ => hle u

/-- **Every step leaves less to do.** -/
theorem left_step_lt (g : Graph) {search : Search} (h : search.calls ≠ []) :
    left g (search.step g) < left g search := by
  obtain ⟨calls, s⟩ := search
  match calls, h with
  | (v, w :: ahead) :: calls, _ =>
    rw [step]
    split
    · simp only [left, Notes.number_lookBack, callsLeft, List.map_cons, total_cons,
        List.length_cons]
      omega
    · rename_i hw
      have hw : w ∉ s.number := by simpa using hw
      have hless := namesLeft_insert g hw s.next
      have hnumber : (s.enter w).number = s.number.insert w s.next := rfl
      simp only [left, hnumber, callsLeft, List.map_cons, total_cons, List.length_cons]
      omega
  | (v, []) :: calls, _ =>
    simp only [step, left, Notes.number_leave, Notes.number_passOn, callsLeft,
      List.map_cons, total_cons, List.length_nil]
    omega

/-- **Search to the end.** -/
def run (g : Graph) (search : Search) : Notes :=
  if search.calls = [] then search.notes else run g (search.step g)
termination_by left g search
decreasing_by exact left_step_lt g ‹_›

end Search

/-- Search from a name, unless it has been come to before. -/
def Notes.goOn (g : Graph) (s : Notes) (v : String) : Notes :=
  if s.number.contains v then s else Search.run g ⟨[(v, g.successors v)], s.enter v⟩

/-- **The strongly connected components,** in the order in which a search from each name completes
them. -/
def components (g : Graph) : List (List String) :=
  (g.names.foldl (Notes.goOn g) .empty).found.reverse

end Graph

end TemplateGrammar
