import TemplateGrammar.Proofs.Template.Parsed
import TemplateGrammar.Proofs.Template.Script

/-!
# The course of a parse

A script is carried out on the tokens with a cursor: a position, which goes up by one with every
token that is passed, and a counter, which goes up when a construct is opened, is tested before, and
goes down when the construct has been read, whatever came of it.  `Script.Runs` says how, and lists
the moments on the way.  Which constructs are open at a moment is not read off the counter; it is
where in the run the moment lies.

Nothing in `Runs` ends a loop or holds the position back.  That a template has a run at all
(`exists_runs`), and but one (`Runs.unique`), that on its way the position stays within the tokens
and the counter tells the truth (`Runs.forward`, `Runs.balanced`), and that it is refused for its
nesting just where the counter is full (`Runs.tooDeep_iff`), are theorems, and they are put together
in `parse_runs`.
-/

namespace TemplateGrammar

namespace Outcome

variable {α : Type}

/-- What an outcome comes to. -/
def result : Outcome α → Except Fault α
  | ok a _ => .ok a
  | fault r _ => .error r

/-- The tokens that an outcome leaves. -/
def rest : Outcome α → List Token
  | ok _ rest | fault _ rest => rest

end Outcome

/-- Where a parser stands: at a token, and with a count of the constructs it has opened. -/
structure Cursor where
  position : Nat
  depth : Nat

namespace Cursor

/-- Past the present token. -/
def next (c : Cursor) : Cursor :=
  { c with position := c.position + 1 }

/-- Into a construct. -/
def enter (c : Cursor) : Cursor :=
  { c with depth := c.depth + 1 }

/-- Out of a construct. -/
def leave (c : Cursor) : Cursor :=
  { c with depth := c.depth - 1 }

/-- Within the tokens, and in front of these. -/
def Before (tokens : List Token) (c : Cursor) (ts : List Token) : Prop :=
  c.position ≤ tokens.length ∧ tokens.drop c.position = ts

end Cursor

/-- A moment of a run: the constructs that are open, the last one first, where the parser stands,
and the construct that it is about to open, if it is. -/
structure Moment where
  opened : List Construct
  cursor : Cursor
  opens : Option Construct

/-- A construct is about to be opened where the counter is full. -/
def Moment.Full (m : Moment) : Prop :=
  m.opens.isSome = true ∧ maxNesting ≤ m.cursor.depth

namespace Script

/-- **How a script runs** on some tokens, inside the constructs that are open: from a cursor through
moments to a result and another cursor. -/
inductive Runs (tokens : List Token) :
    {α : Type} → List Construct → Script α → Cursor → List Moment → Except Fault α → Cursor → Prop
  | done {α : Type} {opened : List Construct} {c : Cursor} (a : α) :
    Runs tokens opened (done a) c [] (.ok a) c
  | refuse {α : Type} {opened : List Construct} {c : Cursor} {r : Fault}
    {own : r ≠ .nestingTooDeep} : Runs tokens opened (refuse (α := α) r own) c [] (.error r) c
  | look {opened : List Construct} {c : Cursor} :
      Runs tokens opened look c [] (.ok (tokens[c.position]?, tokens[c.position + 1]?)) c
  | advance {opened : List Construct} {c : Cursor} :
      Runs tokens opened advance c [⟨opened, c.next, none⟩] (.ok ()) c.next
  | full {opened : List Construct} {c : Cursor} {k : Construct} (h : maxNesting ≤ c.depth) :
      Runs tokens opened (nested k) c [⟨opened, c, some k⟩] (.error .nestingTooDeep) c
  | nested {opened : List Construct} {c d : Cursor} {k : Construct} {ms : List Moment}
      {x : Except Fault (List (Node Unit))} (h : c.depth < maxNesting)
      (inside : Runs tokens (k :: opened) (construct k) c.enter ms x d) :
      Runs tokens opened (nested k) c
        (⟨opened, c, some k⟩ :: ⟨k :: opened, c.enter, none⟩ :: ms ++
          [⟨opened, d.leave, none⟩]) x d.leave
  | andThen {α β : Type} {opened : List Construct} {c d e : Cursor} {p : Script α}
    {f : α → Script β}
      {ms ms' : List Moment} {a : α} {x : Except Fault β}
      (first : Runs tokens opened p c ms (.ok a) d)
      (second : Runs tokens opened (f a) d ms' x e) : Runs tokens opened (andThen p f) c
        (ms ++ ms') x e
  | broken {α β : Type} {opened : List Construct} {c d : Cursor} {p : Script α} {f : α → Script β}
      {ms : List Moment} {r : Fault} (first : Runs tokens opened p c ms (.error r) d) :
      Runs tokens opened (andThen p f) c ms (.error r) d
  | last {α : Type} {opened : List Construct} {c d : Cursor} {step : Script (Option α)}
    {ms : List Moment}
      (round : Runs tokens opened step c ms (.ok none) d) :
      Runs tokens opened (loop step) c ms (.ok []) d
  | again {α : Type} {opened : List Construct} {c d e : Cursor} {step : Script (Option α)}
    {ms ms' : List Moment}
      {a : α} {x : Except Fault (List α)} (round : Runs tokens opened step c ms (.ok (some a)) d)
      (more : Runs tokens opened (loop step) d ms' x e) :
      Runs tokens opened (loop step) c (ms ++ ms') (x.map (a :: ·)) e
  | cut {α : Type} {opened : List Construct} {c d : Cursor} {step : Script (Option α)}
    {ms : List Moment} {r : Fault}
      (round : Runs tokens opened step c ms (.error r) d) :
      Runs tokens opened (loop step) c ms (.error r) d

variable {α β : Type} {tokens : List Token} {opened : List Construct} {c d : Cursor}
    {ms : List Moment}

/-- **What a run of a script is made of,** form by form. -/
def Made (tokens : List Token) (opened : List Construct) :
    {α : Type} → Script α → Cursor → List Moment → Except Fault α → Cursor → Prop
  | _, .done a, c, ms, x, d => ms = [] ∧ x = .ok a ∧ d = c
  | _, .refuse r _, c, ms, x, d => ms = [] ∧ x = .error r ∧ d = c
  | _, .look, c, ms, x, d => ms = [] ∧ x = .ok (tokens[c.position]?, tokens[c.position + 1]?) ∧
    d = c
  | _, .advance, c, ms, x, d => ms = [⟨opened, c.next, none⟩] ∧ x = .ok () ∧ d = c.next
  | _, .nested k, c, ms, x, d =>
    (maxNesting ≤ c.depth ∧ ms = [⟨opened, c, some k⟩] ∧ x = .error .nestingTooDeep ∧ d = c) ∨
      (c.depth < maxNesting ∧ ∃ inside e,
        Runs tokens (k :: opened) (construct k) c.enter inside x e ∧
        ms = ⟨opened, c, some k⟩ :: ⟨k :: opened, c.enter, none⟩ :: inside ++
          [⟨opened, e.leave, none⟩] ∧ d = e.leave)
  | _, .andThen p f, c, ms, x, d =>
    (∃ first second a e, Runs tokens opened p c first (.ok a) e ∧
      Runs tokens opened (f a) e second x d ∧
      ms = first ++ second) ∨ ∃ r, Runs tokens opened p c ms (.error r) d ∧ x = .error r
  | _, .loop step, c, ms, x, d =>
    (Runs tokens opened step c ms (.ok none) d ∧ x = .ok []) ∨
      (∃ round more a e y, Runs tokens opened step c round (.ok (some a)) e ∧
        Runs tokens opened (loop step) e more y d ∧ ms = round ++ more ∧ x = y.map (a :: ·)) ∨
      ∃ r, Runs tokens opened step c ms (.error r) d ∧ x = .error r

theorem Runs.made {s : Script α} {x : Except Fault α} (h : Runs tokens opened s c ms x d) :
    Made tokens opened s c ms x d := by
  cases h with
  | done a => exact ⟨rfl, rfl, rfl⟩
  | refuse => exact ⟨rfl, rfl, rfl⟩
  | look => exact ⟨rfl, rfl, rfl⟩
  | advance => exact ⟨rfl, rfl, rfl⟩
  | full hfull => exact .inl ⟨hfull, rfl, rfl, rfl⟩
  | nested hroom inside => exact .inr ⟨hroom, _, _, inside, rfl, rfl⟩
  | andThen first second => exact .inl ⟨_, _, _, _, first, second, rfl⟩
  | broken first => exact .inr ⟨_, first, rfl⟩
  | last round => exact .inl ⟨round, rfl⟩
  | again round more => exact .inr (.inl ⟨_, _, _, _, _, round, more, rfl, rfl⟩)
  | cut round => exact .inr (.inr ⟨_, round, rfl⟩)

/-! ### What every run keeps -/

section

variable {s : Script α} {x : Except Fault α}

/-- **What is counted up is counted down again,** whether the script succeeds or fails. -/
theorem Runs.depth_eq (h : Runs tokens opened s c ms x d) : d.depth = c.depth := by
  induction h with
  | done | refuse | look | advance | full => rfl
  | nested _ _ ih => exact congrArg (· - 1) ih
  | andThen _ _ ihfirst ihsecond => exact ihsecond.trans ihfirst
  | broken _ ih => exact ih
  | last _ ih => exact ih
  | again _ _ ihround ihmore => exact ihmore.trans ihround
  | cut _ ih => exact ih

/-- **The counter counts the open constructs** at every moment, and never more than there may be. -/
theorem Runs.balanced (h : Runs tokens opened s c ms x d) (hc : c.depth = opened.length)
    (hle : c.depth ≤ maxNesting) :
    ∀ m ∈ ms, m.cursor.depth = m.opened.length ∧ m.cursor.depth ≤ maxNesting := by
  induction h with
  | done | refuse | look => nofun
  | advance =>
    intro m hm
    obtain rfl := List.mem_singleton.mp hm
    exact ⟨hc, hle⟩
  | full =>
    intro m hm
    obtain rfl := List.mem_singleton.mp hm
    exact ⟨hc, hle⟩
  | @nested opened c d k ms x hroom inside ih =>
    have henter : c.enter.depth = (k :: opened).length := congrArg (· + 1) hc
    have hleave : d.leave.depth = c.depth := congrArg (· - 1) inside.depth_eq
    intro m hm
    simp only [List.cons_append, List.mem_cons, List.mem_append, List.not_mem_nil, or_false] at hm
    obtain rfl | rfl | hm | rfl := hm
    · exact ⟨hc, hle⟩
    · exact ⟨henter, hroom⟩
    · exact ih henter hroom m hm
    · exact ⟨hleave.trans hc, Nat.le_trans (Nat.le_of_eq hleave) hle⟩
  | andThen first _ ihfirst ihsecond =>
    have hd := first.depth_eq
    intro m hm
    rcases List.mem_append.mp hm with hm | hm
    · exact ihfirst hc hle m hm
    · exact ihsecond (hd.trans hc) (Nat.le_trans (Nat.le_of_eq hd) hle) m hm
  | broken _ ih => exact ih hc hle
  | last _ ih => exact ih hc hle
  | again round _ ihround ihmore =>
    have hd := round.depth_eq
    intro m hm
    rcases List.mem_append.mp hm with hm | hm
    · exact ihround hc hle m hm
    · exact ihmore (hd.trans hc) (Nat.le_trans (Nat.le_of_eq hd) hle) m hm
  | cut _ ih => exact ih hc hle

end

/-- **Moments between two positions,** in the order of their positions. -/
structure Forward (low : Nat) (ms : List Moment) (high : Nat) : Prop where
  le : low ≤ high
  between : ∀ m ∈ ms, low ≤ m.cursor.position ∧ m.cursor.position ≤ high
  sorted : ms.Pairwise fun m m' => m.cursor.position ≤ m'.cursor.position

theorem forward_nil (n : Nat) : Forward n [] n :=
  ⟨Nat.le_refl n, nofun, .nil⟩

theorem Forward.append {low mid high : Nat} {ms ms' : List Moment} (h : Forward low ms mid)
    (h' : Forward mid ms' high) : Forward low (ms ++ ms') high where
  le := Nat.le_trans h.le h'.le
  between := by
    intro m hm
    rcases List.mem_append.mp hm with hm | hm
    · exact ⟨(h.between m hm).1, Nat.le_trans (h.between m hm).2 h'.le⟩
    · exact ⟨Nat.le_trans h.le (h'.between m hm).1, (h'.between m hm).2⟩
  sorted := by
    refine List.pairwise_append.mpr ⟨h.sorted, h'.sorted, fun m hm m' hm' => ?_⟩
    exact Nat.le_trans (h.between m hm).2 (h'.between m' hm').1

theorem forward_singleton {low : Nat} (m : Moment) (h : low ≤ m.cursor.position) :
    Forward low [m] m.cursor.position where
  le := h
  between := by
    intro m' hm
    obtain rfl := List.mem_singleton.mp hm
    exact ⟨h, Nat.le_refl _⟩
  sorted := List.pairwise_singleton _ _

/-- **The position goes forward,** from moment to moment. -/
theorem Runs.forward {s : Script α} {x : Except Fault α} (h : Runs tokens opened s c ms x d) :
    Forward c.position ms d.position := by
  induction h with
  | done | refuse | look => exact forward_nil _
  | advance => exact forward_singleton _ (Nat.le_succ _)
  | full => exact forward_singleton _ (Nat.le_refl _)
  | @nested opened c d k ms x _ _ ih =>
    have hopen := forward_singleton ⟨opened, c, some k⟩ (Nat.le_refl c.position)
    have hin := forward_singleton ⟨k :: opened, c.enter, none⟩ (Nat.le_refl c.position)
    have hout := forward_singleton ⟨opened, d.leave, none⟩ (Nat.le_refl d.position)
    exact hopen.append ((hin.append ih).append hout)
  | andThen _ _ ihfirst ihsecond => exact ihfirst.append ihsecond
  | broken _ ih => exact ih
  | last _ ih => exact ih
  | again _ _ ihround ihmore => exact ihround.append ihmore
  | cut _ ih => exact ih

/-- **A run is refused for its nesting** just if it is about to open a construct where the counter
is full. -/
theorem Runs.tooDeep_iff {s : Script α} {x : Except Fault α} (h : Runs tokens opened s c ms x d) :
    x = .error .nestingTooDeep ↔ ∃ m ∈ ms, m.Full := by
  induction h with
  | done | look => simp
  | advance => simp [Moment.Full]
  | @refuse _ _ _ _ own => simpa using own
  | full hfull => simp [Moment.Full, hfull]
  | @nested opened c d k ms x hroom _ ih =>
    rw [ih]
    have hnot : ¬ maxNesting ≤ c.depth := by omega
    simp [Moment.Full, hnot]
  | andThen _ _ ihfirst ihsecond =>
    have hnone := mt ihfirst.mpr nofun
    rw [ihsecond]
    simp only [List.mem_append, or_and_right, exists_or, hnone, false_or]
  | broken _ ih => rw [← ih]; simp
  | last _ ih => rw [← ih]; simp
  | @again α opened c d e step ms ms' a x _ _ ihround ihmore =>
    have hnone := mt ihround.mpr nofun
    have hmap : x.map (a :: ·) = .error .nestingTooDeep ↔ x = .error .nestingTooDeep := by
      cases x <;> simp [Except.map]
    rw [hmap, ihmore]
    simp only [List.mem_append, or_and_right, exists_or, hnone, false_or]
  | cut _ ih => rw [← ih]; simp

/-- **A script runs in one way.** -/
theorem Runs.unique {s : Script α} {x : Except Fault α} (h : Runs tokens opened s c ms x d)
    {ms' : List Moment} {x' : Except Fault α} {d' : Cursor}
    (h' : Runs tokens opened s c ms' x' d') : ms' = ms ∧ x' = x ∧ d' = d := by
  induction h generalizing ms' d' with
  | done | refuse | look | advance => exact h'.made
  | full hfull =>
    rcases h'.made with h' | ⟨hroom, -⟩
    · exact h'.2
    · omega
  | nested hroom _ ih =>
    rcases h'.made with ⟨hfull, -⟩ | ⟨-, inside, e, hinside, rfl, rfl⟩
    · omega
    · obtain ⟨rfl, rfl, rfl⟩ := ih hinside
      exact ⟨rfl, rfl, rfl⟩
  | andThen _ _ ihfirst ihsecond =>
    rcases h'.made with ⟨first, second, a, e, hfirst, hsecond, rfl⟩ | ⟨r, hfirst, rfl⟩
    · obtain ⟨rfl, ha, rfl⟩ := ihfirst hfirst
      obtain rfl := Except.ok.inj ha
      obtain ⟨rfl, rfl, rfl⟩ := ihsecond hsecond
      exact ⟨rfl, rfl, rfl⟩
    · cases (ihfirst hfirst).2.1
  | broken _ ih =>
    rcases h'.made with ⟨first, second, a, e, hfirst, hsecond, rfl⟩ | ⟨r, hfirst, rfl⟩
    · cases (ih hfirst).2.1
    · obtain ⟨rfl, hr, rfl⟩ := ih hfirst
      obtain rfl := Except.error.inj hr
      exact ⟨rfl, rfl, rfl⟩
  | last _ ih =>
    rcases h'.made with ⟨hround, rfl⟩ | ⟨round, more, a, e, y, hround, hmore, rfl, rfl⟩
      | ⟨r, hround, rfl⟩
    · obtain ⟨rfl, -, rfl⟩ := ih hround
      exact ⟨rfl, rfl, rfl⟩
    · cases (ih hround).2.1
    · cases (ih hround).2.1
  | again _ _ ihround ihmore =>
    rcases h'.made with ⟨hround, rfl⟩ | ⟨round, more, a, e, y, hround, hmore, rfl, rfl⟩
      | ⟨r, hround, rfl⟩
    · cases (ihround hround).2.1
    · obtain ⟨rfl, ha, rfl⟩ := ihround hround
      obtain rfl := Option.some.inj (Except.ok.inj ha)
      obtain ⟨rfl, rfl, rfl⟩ := ihmore hmore
      exact ⟨rfl, rfl, rfl⟩
    · cases (ihround hround).2.1
  | cut _ ih =>
    rcases h'.made with ⟨hround, rfl⟩ | ⟨round, more, a, e, y, hround, hmore, rfl, rfl⟩
      | ⟨r, hround, rfl⟩
    · cases (ih hround).2.1
    · cases (ih hround).2.1
    · obtain ⟨rfl, hr, rfl⟩ := ih hround
      obtain rfl := Except.error.inj hr
      exact ⟨rfl, rfl, rfl⟩

/-! ### A run for every reading -/

section

variable {inner : Nest} {depth : Nat}

/-- **Where the counter stands at a depth, what a script reads is what a run of it comes to,**
unless it is read past the end. -/
def Traced (tokens : List Token) (inner : Nest) (depth : Nat) (s : Script α) : Prop :=
  ∀ opened c ts, c.depth = depth → c.Before tokens ts →
    (s.read inner ts).Suits (fun _ _ => True) (· ≠ .endOfInput) →
    ∃ ms d, Runs tokens opened s c ms (s.read inner ts).result d ∧
    d.Before tokens (s.read inner ts).rest

theorem traced_look : Traced tokens inner depth look := by
  rintro opened c ts _ ⟨hle, rfl⟩ _
  refine ⟨[], c, ?_, hle, rfl⟩
  have hlook : (look.read inner (tokens.drop c.position)).result =
      .ok (tokens[c.position]?, tokens[c.position + 1]?) := by
    simp only [read, Outcome.result, List.head?_drop, List.tail_drop]
  rw [hlook]
  exact .look

theorem traced_advance : Traced tokens inner depth advance := by
  rintro opened c ts _ ⟨hle, rfl⟩ hsuits
  by_cases hlt : c.position < tokens.length
  · rw [List.drop_eq_getElem_cons hlt]
    exact ⟨_, c.next, .advance, hlt, rfl⟩
  · -- past the end the reading says so
    rw [List.drop_eq_nil_of_le (Nat.le_of_not_lt hlt)] at hsuits
    exact absurd rfl hsuits

theorem Traced.andThen {p : Script α} {f : α → Script β} (hp : Traced tokens inner depth p)
    (hf : ∀ a, Traced tokens inner depth (f a)) : Traced tokens inner depth (andThen p f) := by
  intro opened c ts hc hbefore hsuits
  have hread : (Script.andThen p f).read inner ts =
      match p.read inner ts with
      | .ok a rest => (f a).read inner rest
      | .fault r rest => .fault r rest := rfl
  have hfirst := hp opened c ts hc hbefore
  rw [hread] at hsuits ⊢
  cases hpt : p.read inner ts with
  | fault r rest =>
    rw [hpt] at hsuits hfirst
    obtain ⟨ms, d, hruns, hd⟩ := hfirst hsuits
    exact ⟨ms, d, .broken hruns, hd⟩
  | ok a rest =>
    rw [hpt] at hsuits hfirst
    obtain ⟨ms, d, hruns, hd⟩ := hfirst trivial
    obtain ⟨ms', e, hruns', he⟩ := hf a opened d rest (hruns.depth_eq.trans hc) hd hsuits
    exact ⟨ms ++ ms', e, .andThen hruns hruns', he⟩

/-- By the tokens that are left: a round that goes on has taken one, or the reading would be past
the end. -/
theorem Traced.loop {step : Script (Option α)} (h : Traced tokens inner depth step) :
    Traced tokens inner depth (loop step) := by
  intro opened c ts hc hbefore hsuits
  have hread : (Script.loop step).read inner = Parser.loop (step.read inner) := rfl
  rw [hread] at hsuits ⊢
  fun_induction Parser.loop (step.read inner) ts generalizing c with
  | case1 ts r rest hs =>
    have hround := h opened c ts hc hbefore
    rw [hs] at hround
    obtain ⟨ms, d, hruns, hd⟩ := hround hsuits
    exact ⟨ms, d, .cut hruns, hd⟩
  | case2 ts rest hs =>
    have hround := h opened c ts hc hbefore
    rw [hs] at hround
    obtain ⟨ms, d, hruns, hd⟩ := hround trivial
    exact ⟨ms, d, .last hruns, hd⟩
  | case3 ts a rest hs hlt more left hmore ih =>
    have hround := h opened c ts hc hbefore
    rw [hs] at hround
    obtain ⟨ms, d, hruns, hd⟩ := hround trivial
    rw [hmore] at ih
    obtain ⟨ms', e, hruns', he⟩ := ih d (hruns.depth_eq.trans hc) hd trivial
    exact ⟨ms ++ ms', e, .again hruns hruns', he⟩
  | case4 ts a rest hs hlt r left hmore ih =>
    have hround := h opened c ts hc hbefore
    rw [hs] at hround
    obtain ⟨ms, d, hruns, hd⟩ := hround trivial
    rw [hmore] at ih
    obtain ⟨ms', e, hruns', he⟩ := ih d (hruns.depth_eq.trans hc) hd hsuits
    exact ⟨ms ++ ms', e, .again hruns hruns', he⟩
  | case5 ts a rest hs hge => exact absurd rfl hsuits

/-- Inside a construct there is one level less to open, and the counter stands one higher. -/
theorem traced_nested {n : Nat} (hn : depth + (n + 1) = maxNesting)
    (h : ∀ k, Traced tokens (nest n) (depth + 1) (construct k)) (k : Construct) :
    Traced tokens (nest (n + 1)) depth (nested k) := by
  intro opened c ts hc hbefore hsuits
  have hread : (nested k).read (nest (n + 1)) = (construct k).read (nest n) := by
    rw [read_nested, read_construct]
    rfl
  rw [hread] at hsuits ⊢
  have hroom : c.depth < maxNesting := by omega
  obtain ⟨ms, d, hruns, hd⟩ := h k (k :: opened) c.enter ts (congrArg (· + 1) hc) hbefore hsuits
  exact ⟨_, d.leave, .nested hroom hruns, hd⟩

theorem traced_full (hd : maxNesting ≤ depth) (k : Construct) :
    Traced tokens (nest 0) depth (nested k) := by
  rintro opened c ts rfl hbefore -
  exact ⟨_, c, .full hd, hbefore⟩

/-- **Every script is traced** if its nested constructs are. -/
theorem traced_of_nested (h : ∀ k, Traced tokens inner depth (nested k)) (s : Script α) :
    Traced tokens inner depth s := by
  induction s with
  | done a => exact fun _ c _ _ hbefore _ => ⟨[], c, .done a, hbefore⟩
  | refuse r own => exact fun _ c _ _ hbefore _ => ⟨[], c, .refuse, hbefore⟩
  | look => exact traced_look
  | advance => exact traced_advance
  | nested k => exact h k
  | andThen p f ihp ihf => exact ihp.andThen ihf
  | loop step ih => exact ih.loop

end

/-- **What a script reads with so many levels to open, a run of it comes to** where the counter
leaves as many. -/
theorem exists_runs (tokens : List Token) (n depth : Nat) (h : depth + n = maxNesting)
    (s : Script α) : Traced tokens (nest n) depth s := by
  induction n generalizing α depth with
  | zero => exact traced_of_nested (traced_full (Nat.le_of_eq h.symm)) s
  | succ n ih =>
    have hinside : ∀ k, Traced tokens (nest n) (depth + 1) (construct k) :=
      fun k => ih (depth + 1) (by omega) (construct k)
    exact traced_of_nested (traced_nested h hinside) s

end Script

/-! ### The course of a parse -/

theorem parse_eq_mapError {tokens : List Token} {n : Nat} (hle : n ≤ tokens.length)
    (hrest : tokens.drop n = (Parser.block (nest maxNesting) (fun _ => false) tokens).rest) :
    parse tokens = (Parser.block (nest maxNesting) (fun _ => false) tokens).result.mapError
      fun r => ⟨r, tokens, n⟩ := by
  unfold parse
  cases hblock : Parser.block (nest maxNesting) (fun _ => false) tokens with
  | ok nodes rest => rfl
  | fault r rest =>
    rw [hblock] at hrest
    obtain rfl : tokens.drop n = rest := hrest
    have htaken : tokens.length - (tokens.drop n).length = n := by
      rw [List.length_drop]
      omega
    simp only [htaken]
    rfl

open Script in
/-- **Every list of tokens is parsed in one run,** and in no other.  On its way the position never
goes back and stays within the tokens, and the counter is the number of open constructs, which are
never more than there may be, and is back at nothing at the end, whatever came of it.  If the parse
succeeds, all tokens have been passed and the tree nests no deeper than a template may; and it fails
for its nesting just if a construct is to be opened while as many are open as may be. -/
theorem parse_runs (tokens : List Token) :
    ∃ ms x d,
      (∀ ms' x' d', Runs tokens [] template ⟨0, 0⟩ ms' x' d' ↔ ms' = ms ∧ x' = x ∧ d' = d) ∧
      parse tokens = x.mapError (fun r => ⟨r, tokens, d.position⟩) ∧
      (ms.Pairwise fun m m' => m.cursor.position ≤ m'.cursor.position) ∧
      (∀ m ∈ ms, m.cursor.position ≤ d.position) ∧ d.position ≤ tokens.length ∧
      (∀ m ∈ ms, m.cursor.depth = m.opened.length ∧ m.cursor.depth ≤ 128) ∧ d.depth = 0 ∧
      (∀ nodes, x = .ok nodes → d.position = tokens.length ∧ Node.NestsWithin 128 nodes) ∧
      (x = .error .nestingTooDeep ↔ ∃ m ∈ ms, m.opens.isSome = true ∧ m.opened.length = 128) := by
  have hsuits : ((Parser.block (nest maxNesting) fun _ => false) tokens).Suits (fun _ _ => True)
      (· ≠ .endOfInput) := by
    refine (Parser.grows_true.template tokens List.suffix_rfl).imp (fun _ _ _ => trivial) ?_
    rintro r hr rfl
    exact hr
  rw [← read_template] at hsuits
  obtain ⟨ms, d, hruns, hle, hrest⟩ :=
    exists_runs tokens maxNesting 0 (Nat.zero_add _) template [] ⟨0, 0⟩ tokens
      rfl ⟨Nat.zero_le _, rfl⟩ hsuits
  rw [read_template] at hruns hrest
  have hbalanced := hruns.balanced rfl (Nat.zero_le _)
  have hforward := hruns.forward
  refine ⟨ms, _, d, fun ms' x' d' => ⟨hruns.unique, ?_⟩, parse_eq_mapError hle hrest,
    hforward.sorted, fun m hm => (hforward.between m hm).2, hle, hbalanced, hruns.depth_eq, ?_, ?_⟩
  · rintro ⟨rfl, rfl, rfl⟩
    exact hruns
  · intro nodes hnodes
    cases hblock : Parser.block (nest maxNesting) (fun _ => false) tokens with
    | fault r rest =>
      rw [hblock] at hnodes
      cases hnodes
    | ok nodes' rest =>
      rw [hblock] at hnodes hrest
      obtain rfl := Except.ok.inj hnodes
      have hall : tokens.drop d.position = [] := hrest.trans (Parser.block_reads_all hblock)
      have hpast : tokens.length ≤ d.position := List.drop_eq_nil_iff.mp hall
      exact ⟨Nat.le_antisymm hle hpast, Parser.nestsWithin_of_block hblock⟩
  · rw [hruns.tooDeep_iff]
    refine exists_congr fun m => and_congr_right fun hm => and_congr_right fun _ => ?_
    obtain ⟨heq, hmax⟩ := hbalanced m hm
    rw [← heq]
    exact ⟨Nat.le_antisymm hmax, fun h => Nat.le_of_eq h.symm⟩

end TemplateGrammar
