import Mathlib.Data.List.Forall2
import TemplateGrammar.Template.Parser

/-!
# What a parser does with tokens of a kind

Given tokens of a kind, a parser answers with what has a property and leaves tokens of another
kind, or refuses for one of the reasons it may have (`Parser.Meets`).  There is one rule for each
way in which parsers are made of others, so what is said of the single tokens a parser takes is
carried to the whole of it.

The way back is by cases: what the whole has answered comes from answers of its steps, and what a
step has taken stands in front of what it leaves (`Parser.bind_eq_ok`,
`Parser.exists_taken_of_collect`).
-/

namespace TemplateGrammar

variable {α β : Type}

/-- The answer and the tokens left are as described, or the fault is one that may be. -/
def Outcome.Suits (after : α → List Token → Prop) (may : Fault → Prop) : Outcome α → Prop
  | .ok a rest => after a rest
  | .fault r _ => may r

theorem Outcome.Suits.imp {after after' : α → List Token → Prop} {may may' : Fault → Prop}
    {x : Outcome α} (h : x.Suits after may) (hafter : ∀ a rest, after a rest → after' a rest)
    (hmay : ∀ r, may r → may' r) : x.Suits after' may' := by
  cases x with
  | ok a rest => exact hafter a rest h
  | fault r rest => exact hmay r h

namespace Parser

variable {ts rest : List Token} {before between : List Token → Prop} {may : Fault → Prop}

/-! ### Before and after -/

/-- **From tokens as described** to an answer and tokens as described, or to a fault that may be. -/
def Meets (before : List Token → Prop) (p : Parser α) (after : α → List Token → Prop)
    (may : Fault → Prop) : Prop :=
  ∀ ts, before ts → (p ts).Suits after may

section

variable {after after' : α → List Token → Prop} {p : Parser α}

theorem Meets.of_ok (h : Meets before p after may) (hts : before ts) {a : α}
    (hok : p ts = .ok a rest) : after a rest := by
  have hp := h ts hts
  rwa [hok] at hp

theorem Meets.of_fault (h : Meets before p after may) (hts : before ts) {r : Fault}
    (hfault : p ts = .fault r rest) : may r := by
  have hp := h ts hts
  rwa [hfault] at hp

theorem Meets.imp {before' : List Token → Prop} {may' : Fault → Prop} (h : Meets before p after may)
    (hbefore : ∀ ts, before' ts → before ts) (hafter : ∀ a rest, after a rest → after' a rest)
    (hmay : ∀ r, may r → may' r) : Meets before' p after' may' :=
  fun ts hts => (h ts (hbefore ts hts)).imp hafter hmay

theorem Meets.of_imp {P : List Token → Prop} (h : Meets before p after may)
    (hP : ∀ ts, P ts → before ts) : Meets P p after may :=
  h.imp hP (fun _ _ h => h) fun _ h => h

theorem Meets.also {P : α → List Token → Prop} (h : Meets before p after may)
    (hP : ∀ ts a rest, before ts → p ts = .ok a rest → P a rest) :
    Meets before p (fun a rest => after a rest ∧ P a rest) may := by
  intro ts hts
  have hp := h ts hts
  cases hpt : p ts with
  | ok a rest =>
    rw [hpt] at hp
    exact ⟨hp, hP ts a rest hts hpt⟩
  | fault r rest =>
    rw [hpt] at hp
    exact hp

end

theorem meets_done {after : α → List Token → Prop} {a : α} (h : ∀ ts, before ts → after a ts) :
    Meets before (done a) after may :=
  h

theorem meets_refuse {after : α → List Token → Prop} {r : Fault} (h : may r) :
    Meets before (refuse r) after may :=
  fun _ _ => h

theorem Meets.bind {p : Parser α} {f : α → Parser β} {step : α → List Token → Prop}
    {after : β → List Token → Prop} (hp : Meets before p step may)
    (hf : ∀ a, Meets (step a) (f a) after may) : Meets before (p >>= f) after may := by
  intro ts hts
  have h := hp ts hts
  simp only [Bind.bind, andThen]
  cases hpt : p ts with
  | ok a rest =>
    rw [hpt] at h
    exact hf a rest h
  | fault r rest =>
    rw [hpt] at h
    exact h

/-- **A step and what comes of its answer,** where the tokens in between are of a kind. -/
theorem Meets.andThen {p : Parser α} {f : α → Parser β} {P : α → Prop}
    {after : β → List Token → Prop} (hp : Meets before p (fun a rest => P a ∧ between rest) may)
    (hf : ∀ a, P a → Meets between (f a) after may) : Meets before (p >>= f) after may :=
  hp.bind fun a ts h => hf a h.1 ts h.2

/-- What is read, as the answer of a step that goes on. -/
theorem Meets.answer {p : Parser α} {after : α → List Token → Prop} (h : Meets before p after may) :
    Meets before (some <$> p) (fun o rest => ∃ a, o = some a ∧ after a rest) may :=
  h.bind fun a _ hts => ⟨a, rfl, hts⟩

theorem meets_refuseIf (b : Bool) {r : Fault} (h : may r) :
    Meets before (refuseIf b r) (fun _ rest => b = false ∧ before rest) may := by
  cases b with
  | true => exact meets_refuse h
  | false => exact fun _ hts => ⟨rfl, hts⟩

theorem meets_peek : Meets before peek (fun next rest => next = rest.head? ∧ before rest) may :=
  fun _ hts => ⟨rfl, hts⟩

/-- **A loop,** by what its step leaves where it goes on and where it stops. -/
theorem meets_collect {step : Parser (Option α)} (on : Takes step goesOn) {P : α → Prop}
    {after : Option α → List Token → Prop} (h : Meets before step after may)
    (hmore : ∀ a rest, after (some a) rest → P a ∧ before rest) :
    Meets before (collect step on) (fun as rest => (∀ a ∈ as, P a) ∧ after none rest) may := by
  intro ts hts
  fun_induction collect step on ts with
  | case1 ts r rest hs => exact h.of_fault hts hs
  | case2 ts rest hs => exact ⟨fun _ ha => absurd ha List.not_mem_nil, h.of_ok hts hs⟩
  | case3 ts a rest hs _ more left hloop ih =>
    obtain ⟨ha, hrest⟩ := hmore a rest (h.of_ok hts hs)
    rw [hloop] at ih
    obtain ⟨hall, hleft⟩ := ih hrest
    exact ⟨List.forall_mem_cons.mpr ⟨ha, hall⟩, hleft⟩
  | case4 ts a rest hs _ r left hloop ih =>
    rw [hloop] at ih
    exact ih (hmore a rest (h.of_ok hts hs)).2

/-! ### Whatever the tokens are -/

/-- Whatever the parser answers with has the property. -/
def Yields (p : Parser α) (P : α → Prop) : Prop :=
  Meets (fun _ => True) p (fun a _ => P a) fun _ => True

theorem Yields.of_ok {p : Parser α} {P : α → Prop} (h : Yields p P) {a : α}
    (hok : p ts = .ok a rest) : P a :=
  Meets.of_ok h trivial hok

theorem yields_done {P : α → Prop} {a : α} (h : P a) : Yields (done a) P :=
  fun _ _ => h

theorem Yields.after {p : Parser α} {f : α → Parser β} {P : β → Prop}
    (hf : ∀ a, Yields (f a) P) : Yields (p >>= f) P := by
  have hp : Meets (fun _ => True) p (fun _ _ => True) fun _ => True := by
    intro ts _
    cases p ts with
    | ok a rest => trivial
    | fault r rest => trivial
  exact hp.bind hf

/-! ### What an answer tells of the steps -/

theorem bind_eq_ok {p : Parser α} {f : α → Parser β} {b : β} (h : (p >>= f) ts = .ok b rest) :
    ∃ a left, p ts = .ok a left ∧ f a left = .ok b rest := by
  simp only [Bind.bind, Parser.andThen] at h
  cases hp : p ts with
  | ok a left =>
    rw [hp] at h
    exact ⟨a, left, rfl, h⟩
  | fault r left =>
    rw [hp] at h
    cases h

theorem of_answer {p : Parser α} {found : Option α} (h : (some <$> p) ts = .ok found rest) :
    ∃ a, found = some a ∧ p ts = .ok a rest := by
  obtain ⟨a, left, hread, h⟩ := bind_eq_ok h
  obtain ⟨rfl, rfl⟩ := Outcome.ok.inj h
  exact ⟨a, rfl, hread⟩

theorem of_refuseIf {b : Bool} {r : Fault} {a : Unit} (h : refuseIf b r ts = .ok a rest) :
    b = false ∧ rest = ts := by
  cases b with
  | true => cases h
  | false => exact ⟨rfl, (Outcome.ok.inj h).2.symm⟩

theorem exists_of_take {a : Unit} (h : take ts = .ok a rest) : ∃ t, ts = t :: rest := by
  cases ts with
  | nil => cases h
  | cons t ts => exact ⟨t, by rw [(Outcome.ok.inj h).2]⟩

theorem exists_of_expect {these : Token → Bool} {r : Fault} {a : Unit}
    (h : expect these r ts = .ok a rest) : ∃ t, ts = t :: rest ∧ these t = true := by
  unfold expect at h
  split at h
  · cases h
  · split at h
    · rename_i t more ht
      obtain ⟨-, rfl⟩ := Outcome.ok.inj h
      exact ⟨t, rfl, ht⟩
    · cases h

theorem exists_of_accept_true {these : Token → Bool} (h : accept these ts = .ok true rest) :
    ∃ t, ts = t :: rest ∧ these t = true := by
  unfold accept at h
  split at h
  · cases h
  · split at h
    · rename_i t ts ht
      exact ⟨t, by rw [(Outcome.ok.inj h).2], ht⟩
    · cases h

theorem of_accept_false {these : Token → Bool} (h : accept these ts = .ok false rest) :
    rest = ts ∧ ∀ t ∈ ts.head?, these t = false := by
  unfold accept at h
  split at h
  · exact ⟨(Outcome.ok.inj h).2.symm, nofun⟩
  · split at h
    · cases h
    · rename_i t more ht
      exact ⟨(Outcome.ok.inj h).2.symm, fun u hu => Option.some.inj hu ▸ by simpa using ht⟩

theorem collect_stops {step : Parser (Option α)} (on : Takes step goesOn) {P : List Token → Prop}
    (h : ∀ ts rest, step ts = .ok none rest → P rest) {as : List α}
    (hok : collect step on ts = .ok as rest) : P rest := by
  fun_induction collect step on ts generalizing as rest with
  | case1 => cases hok
  | case2 ts left hs =>
    cases hok
    exact h ts left hs
  | case3 ts a left hs hlt more last hmore ih =>
    cases hok
    exact ih hmore
  | case4 => cases hok

theorem eq_of_collect_nil {step : Parser (Option α)} (on : Takes step goesOn)
    (hs : ∀ ts rest, step ts = .ok none rest → rest = ts) (h : collect step on ts = .ok [] rest) :
    rest = ts := by
  rw [collect] at h
  split at h
  · cases h
  · rename_i left hstep
    obtain ⟨-, rfl⟩ := Outcome.ok.inj h
    exact hs ts _ hstep
  · split at h
    · cases h
    · cases h

/-- **What a loop takes** is what its steps take, one after another. -/
theorem exists_taken_of_collect {step : Parser (Option α)} (on : Takes step goesOn)
    {R : List Token → α → Prop}
    (hs : ∀ ts a rest, step ts = .ok (some a) rest → ∃ taken, ts = taken ++ rest ∧ R taken a)
    (hstop : ∀ ts rest, step ts = .ok none rest → rest = ts) {as : List α}
    (h : collect step on ts = .ok as rest) :
    ∃ takens, ts = takens.flatten ++ rest ∧ List.Forall₂ R takens as := by
  fun_induction collect step on ts generalizing as rest with
  | case1 => cases h
  | case2 ts left hstep =>
    obtain ⟨rfl, rfl⟩ := Outcome.ok.inj h
    exact ⟨[], (hstop ts _ hstep).symm, .nil⟩
  | case3 ts a left hstep _ more last hmore ih =>
    obtain ⟨rfl, rfl⟩ := Outcome.ok.inj h
    obtain ⟨taken, rfl, hR⟩ := hs ts a left hstep
    obtain ⟨takens, rfl, hall⟩ := ih hmore
    exact ⟨taken :: takens, by simp, .cons hR hall⟩
  | case4 => cases h

/-! ### Where a step stops -/

section

variable {inner : Nest} {stops : Token → Bool}

/-- Where no construct is found, nothing has been taken. -/
theorem eq_of_fragment_none (h : fragment inner ts = .ok none rest) : rest = ts := by
  unfold fragment at h
  split at h
  all_goals first
    | exact (Outcome.ok.inj h).2.symm
    | cases h
    | (obtain ⟨_, hnone, -⟩ := of_answer h
       cases hnone)

theorem eq_of_leadingTag_none (h : leadingTag inner ts = .ok none rest) : rest = ts := by
  unfold leadingTag at h
  split at h
  · obtain ⟨_, hnone, -⟩ := of_answer h
    cases hnone
  · exact (Outcome.ok.inj h).2.symm

theorem of_tagPart_none (h : tagPart inner ts = .ok none rest) :
    rest = ts ∧ rest.head? = some (.op ']') := by
  unfold tagPart at h
  split at h
  · cases h
  · obtain ⟨-, rfl⟩ := Outcome.ok.inj h
    exact ⟨rfl, rfl⟩
  all_goals
    obtain ⟨_, hnone, -⟩ := of_answer h
    cases hnone

theorem of_piece_none (h : piece inner stops ts = .ok none rest) :
    rest = ts ∧ ∀ t ∈ rest.head?, stops t = true := by
  obtain ⟨found, left, hfound, hstray⟩ := bind_eq_ok h
  cases found with
  | some nodes => cases hstray
  | none =>
    rw [eq_of_fragment_none hfound] at hstray
    dsimp only [stray] at hstray
    split at hstray
    · obtain ⟨-, rfl⟩ := Outcome.ok.inj hstray
      exact ⟨rfl, nofun⟩
    · split at hstray
      · rename_i ht
        obtain ⟨-, rfl⟩ := Outcome.ok.inj hstray
        exact ⟨rfl, fun u hu => Option.some.inj hu ▸ ht⟩
      · cases hstray

/-- **A template is read to its end.** -/
theorem block_reads_all {nodes : List (Node Unit)}
    (h : block inner (fun _ => false) ts = .ok nodes rest) : rest = [] := by
  obtain ⟨parts, left, hparts, h⟩ := bind_eq_ok h
  obtain ⟨-, rfl⟩ := Outcome.ok.inj h
  have hstops : ∀ t ∈ left.head?, false = true :=
    collect_stops _ (P := fun rest => ∀ t ∈ rest.head?, false = true)
      (fun _ _ h => (of_piece_none h).2) hparts
  cases left with
  | nil => rfl
  | cons t more => cases hstops t rfl

theorem eq_of_modifiers_nil {rule : String} (h : modifiers inner rule ts = .ok [] rest) :
    rest = ts := by
  refine eq_of_collect_nil _ (fun ts rest h => ?_) h
  obtain ⟨dotted, left, hdot, h⟩ := bind_eq_ok h
  cases dotted with
  | false =>
    obtain ⟨-, rfl⟩ := Outcome.ok.inj h
    exact (of_accept_false hdot).1
  | true =>
    obtain ⟨_, _, -, h⟩ := bind_eq_ok h
    obtain ⟨_, _, -, h⟩ := bind_eq_ok h
    cases h

end

end Parser

end TemplateGrammar
