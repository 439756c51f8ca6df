import TemplateGrammar.Proofs.Template.Course

/-!
# How far a parser looks

A parser looks at the token that it stands before and at the one behind that, and no further.  So in
front of other tokens it answers the same and takes the same, if only they begin with the same two,
or end as soon (`Parser.Foresees`).  This is so of every script, because of the things that a script
does only `look` sees any tokens (`Script.foresees_read`).

What is wrong with a template is therefore decided by the tokens in front of the mark and the two
behind it (`parse_of_agree`).
-/

namespace TemplateGrammar

/-- The same outcome, with other tokens left. -/
def Outcome.leaving {α : Type} (rest : List Token) : Outcome α → Outcome α
  | ok a _ => .ok a rest
  | fault r _ => .fault r rest

namespace Parser

variable {α β : Type}

/-- **A parser looks at two tokens.**  It takes some tokens off the front; and wherever these stand
in front of tokens that begin like the ones that are left, it takes the same and answers the
same. -/
def Foresees (p : Parser α) : Prop :=
  ∀ ts, ∃ taken, ts = taken ++ (p ts).rest ∧
    ∀ rest, rest.take 2 = (p ts).rest.take 2 → p (taken ++ rest) = (p ts).leaving rest

/-- Where the end of some tokens is exchanged for one that begins alike, all of them begin as they
did. -/
theorem take_append_of_begins {left front last rest : List Token} (hleft : left = front ++ last)
    (hbegins : rest.take 2 = last.take 2) : (front ++ rest).take 2 = left.take 2 := by
  have hle : 2 - front.length ≤ 2 := Nat.sub_le _ _
  rw [hleft, List.take_append, List.take_append, ← Nat.min_eq_left hle, ← List.take_take, hbegins,
    List.take_take]

theorem foresees_of_stays {p : Parser α} (hstays : ∀ ts, (p ts).rest = ts)
    (hsame : ∀ ts us, us.take 2 = ts.take 2 → p us = (p ts).leaving us) : Foresees p := by
  intro ts
  refine ⟨[], (hstays ts).symm, fun rest hrest => ?_⟩
  rw [hstays] at hrest
  exact hsame ts rest hrest

theorem foresees_done (a : α) : Foresees (done a) :=
  foresees_of_stays (fun _ => rfl) fun _ _ _ => rfl

theorem foresees_refuse (r : Fault) : Foresees (refuse r : Parser α) :=
  foresees_of_stays (fun _ => rfl) fun _ _ _ => rfl

/-- At the end of the tokens there is nothing to take, and then nothing else can be left. -/
theorem foresees_take : Foresees take := by
  intro ts
  cases ts with
  | nil =>
    refine ⟨[], rfl, fun rest hrest => ?_⟩
    obtain rfl : rest = [] := by simpa [take, Outcome.rest] using hrest
    rfl
  | cons t more => exact ⟨[t], rfl, fun _ _ => rfl⟩

theorem Foresees.bind {p : Parser α} {f : α → Parser β} (hp : Foresees p)
    (hf : ∀ a, Foresees (f a)) : Foresees (p >>= f) := by
  have hbind : ∀ us, (p >>= f) us = match p us with
      | .ok a rest => f a rest
      | .fault r rest => .fault r rest := fun _ => rfl
  intro ts
  obtain ⟨taken, hts, hsame⟩ := hp ts
  rw [hbind]
  cases hpt : p ts with
  | fault r left =>
    rw [hpt] at hts hsame
    refine ⟨taken, hts, fun rest hrest => ?_⟩
    rw [hbind, hsame rest hrest]
    rfl
  | ok a left =>
    rw [hpt] at hts hsame
    obtain ⟨more, hleft, hsame'⟩ := hf a left
    refine ⟨taken ++ more, ?_, fun rest hrest => ?_⟩
    · rw [List.append_assoc, ← hleft]
      exact hts
    · -- what the first of the two leaves begins as it did
      rw [hbind, List.append_assoc, hsame _ (take_append_of_begins hleft hrest)]
      exact hsame' rest hrest

/-- The answer of a round in front of those of the later ones. -/
def inFront (a : α) : Outcome (List α) → Outcome (List α)
  | .ok more rest => .ok (a :: more) rest
  | .fault r rest => .fault r rest

theorem rest_inFront (a : α) (x : Outcome (List α)) : (inFront a x).rest = x.rest := by
  cases x <;> rfl

theorem leaving_inFront (a : α) (x : Outcome (List α)) (rest : List Token) :
    (inFront a x).leaving rest = inFront a (x.leaving rest) := by
  cases x <;> rfl

/-! ### Rounds of a loop -/

section

variable {step : Parser (Option α)} {ts rest : List Token}

theorem loop_eq_fault {r : Fault} (hs : step ts = .fault r rest) :
    Parser.loop step ts = .fault r rest := by
  rw [Parser.loop, hs]

theorem loop_eq_nil (hs : step ts = .ok none rest) : Parser.loop step ts = .ok [] rest := by
  rw [Parser.loop, hs]

theorem loop_eq_inFront {a : α} (hs : step ts = .ok (some a) rest) (hlt : rest.length < ts.length) :
    Parser.loop step ts = inFront a (Parser.loop step rest) := by
  rw [Parser.loop, hs]
  simp only [hlt, if_true]
  cases Parser.loop step rest <;> rfl

/-- A round that goes on where it was would do so forever. -/
theorem loop_eq_endOfInput {a : α} (hs : step ts = .ok (some a) ts) :
    Parser.loop step ts = .fault .endOfInput ts := by
  rw [Parser.loop, hs]
  simp only [Nat.lt_irrefl, if_false]

end

/-- By the tokens that are left: a round that goes on has taken one, or the loop ends where it
was. -/
theorem Foresees.loop {step : Parser (Option α)} (h : Foresees step) :
    Foresees (Parser.loop step) := by
  intro ts
  induction hsize : ts.length using Nat.strongRecOn generalizing ts with
  | ind size ih =>
    obtain ⟨taken, hts, hsame⟩ := h ts
    cases hs : step ts with
    | fault r left =>
      rw [hs] at hts hsame
      rw [loop_eq_fault hs]
      exact ⟨taken, hts, fun rest hrest => loop_eq_fault (hsame rest hrest)⟩
    | ok found left =>
      rw [hs] at hts hsame
      obtain rfl : ts = taken ++ left := hts
      cases found with
      | none =>
        rw [loop_eq_nil hs]
        exact ⟨taken, rfl, fun rest hrest => loop_eq_nil (hsame rest hrest)⟩
      | some a =>
        cases taken with
        | nil =>
          rw [List.nil_append] at hs ⊢
          rw [loop_eq_endOfInput hs]
          exact ⟨[], rfl, fun rest hrest => loop_eq_endOfInput (hsame rest hrest)⟩
        | cons t taken =>
          have hlt : ∀ rest : List Token, rest.length < (t :: taken ++ rest).length := by
            intro rest
            rw [List.length_append, List.length_cons]
            omega
          obtain ⟨more, hleft, hmore⟩ := ih left.length (hsize ▸ hlt left) left rfl
          rw [loop_eq_inFront hs (hlt left), rest_inFront]
          refine ⟨t :: taken ++ more, by rw [List.append_assoc, ← hleft], fun rest hrest => ?_⟩
          have hround := hsame _ (take_append_of_begins hleft hrest)
          rw [List.append_assoc, loop_eq_inFront hround (hlt _), hmore rest hrest, leaving_inFront]

end Parser

namespace Script

variable {α : Type}

/-- **A script looks at two tokens,** if what reads its nested constructs does. -/
theorem foresees_read {inner : Nest} (h : ∀ k, (inner.read k).Foresees) (s : Script α) :
    (s.read inner).Foresees := by
  induction s with
  | done a => exact Parser.foresees_done a
  | refuse r own => exact Parser.foresees_refuse r
  | look =>
    refine Parser.foresees_of_stays (fun _ => rfl) fun ts us hbegins => ?_
    have hplace : ∀ i < 2, us[i]? = ts[i]? := by
      intro i hi
      have hi' := congrArg (fun begin => begin[i]?) hbegins
      simpa only [List.getElem?_take, hi, if_true] using hi'
    have hlook : us.head? = ts.head? ∧ us.tail.head? = ts.tail.head? := by
      simp only [List.head?_eq_getElem?, List.getElem?_tail]
      exact ⟨hplace 0 (by decide), hplace 1 (by decide)⟩
    show Outcome.ok (us.head?, us.tail.head?) us = .ok (ts.head?, ts.tail.head?) us
    rw [hlook.1, hlook.2]
  | advance => exact Parser.foresees_take
  | nested k => exact h k
  | andThen p f ihp ihf => exact ihp.bind ihf
  | loop step ih => exact ih.loop

end Script

/-- **So does the reader of a level,** whatever the level. -/
theorem foresees_nest (n : Nat) (k : Construct) : ((nest n).read k).Foresees := by
  induction n generalizing k with
  | zero => exact Parser.foresees_refuse _
  | succ n ih =>
    have hread : (nest (n + 1)).read k = (Script.construct k).read (nest n) :=
      (Script.read_construct _ k).symm
    rw [hread]
    exact Script.foresees_read ih _

theorem foresees_template : (Parser.block (nest maxNesting) fun _ => false).Foresees := by
  rw [← Script.read_template]
  exact Script.foresees_read (foresees_nest maxNesting) _

/-! ### Faults -/

/-- The failure, if it is one. -/
def failure? : Except ParseFailure (List (Node Unit)) → Option ParseFailure
  | .error f => some f
  | .ok _ => none

theorem failure?_eq_some {x : Except ParseFailure (List (Node Unit))} {f : ParseFailure} :
    failure? x = some f ↔ x = .error f := by
  cases x <;> simp [failure?]

/-- A failure tells the tokens, and how many of them stand in front of the ones that reading
left. -/
theorem parse_eq_error {ts : List Token} {f : ParseFailure} (h : parse ts = .error f) :
    ∃ taken rest, ts = taken ++ rest ∧ f = ⟨f.fault, ts, taken.length⟩ ∧ ∀ rest',
    rest'.take 2 = rest.take 2 →
      parse (taken ++ rest') = .error ⟨f.fault, taken ++ rest', taken.length⟩ := by
  obtain ⟨taken, hts, hsame⟩ := foresees_template ts
  have hparse : ∀ us rest r, us = taken ++ rest →
      Parser.block (nest maxNesting) (fun _ => false) us = .fault r rest →
      parse us = .error ⟨r, us, taken.length⟩ := by
    intro us rest r hus hread
    have hlength : us.length - rest.length = taken.length := by
      rw [hus, List.length_append, Nat.add_sub_cancel]
    rw [parse, hread, ← hlength]
  cases hread : Parser.block (nest maxNesting) (fun _ => false) ts with
  | ok nodes rest =>
    rw [parse, hread] at h
    cases h
  | fault r rest =>
    rw [hread] at hts hsame
    obtain rfl := Except.error.inj ((hparse ts rest r hts hread).symm.trans h)
    exact ⟨taken, rest, hts, rfl, fun rest' hrest => hparse _ rest' r rfl (hsame rest' hrest)⟩

/-- **A fault is decided by what precedes the mark.**  Tokens that are the same as far as the one
behind the mark, or end where the others do, are no template either, for the same reason and with
the mark at the same place. -/
theorem parse_of_agree {ts us : List Token} {f : ParseFailure} (h : parse ts = .error f)
    (hagree : ∀ i ≤ f.taken + 1, us[i]? = ts[i]?) : parse us = .error ⟨f.fault, us, f.taken⟩ := by
  obtain ⟨taken, rest, rfl, hf, hsame⟩ := parse_eq_error h
  have hplace : f.taken = taken.length := congrArg ParseFailure.taken hf
  have hfront : us.take taken.length = taken := by
    apply List.ext_getElem?
    intro i
    rw [List.getElem?_take]
    split
    · rename_i hi
      rw [hagree i (by omega), List.getElem?_append_left hi]
    · rw [List.getElem?_eq_none (by omega)]
  have hbegins : (us.drop taken.length).take 2 = rest.take 2 := by
    apply List.ext_getElem?
    intro i
    rw [List.getElem?_take, List.getElem?_take, List.getElem?_drop]
    split
    · rw [hagree (taken.length + i) (by omega), List.getElem?_append_right (Nat.le_add_right _ _),
        Nat.add_sub_cancel_left]
    · rfl
  have hus := List.take_append_drop taken.length us
  rw [hfront] at hus
  rw [hplace, ← hus]
  exact hsame _ hbegins

/-- A tag whose name is followed by the wrong token. -/
def tagWithoutColon : List Token :=
  [.op '#', .op '[', .text "tag", .op ']', .op '#']

/-- Behind the mark and the token that follows it anything may stand. -/
theorem parse_tagWithoutColon :
    parse tagWithoutColon = .error ⟨.missingColon "tag", tagWithoutColon, 3⟩ ∧
      parse (tagWithoutColon ++ [.text "", .keyword .inWord, .op '[']) =
        .error ⟨.missingColon "tag", tagWithoutColon ++
          [.text "", .keyword .inWord, .op '['], 3⟩ := by
  have h : parse tagWithoutColon = .error ⟨.missingColon "tag", tagWithoutColon, 3⟩ :=
    failure?_eq_some.mp (by decide +kernel)
  exact ⟨h, parse_of_agree h (by decide)⟩

end TemplateGrammar
