import TemplateGrammar.Template.Basic
import TemplateGrammar.Template.Fault
import TemplateGrammar.Token.Lexer

/-!
# From tokens to trees

`parse` reads a token list as a template.  A token that cannot start a construct is taken as literal
text unless it separates or closes the list being read, so stray punctuation in prose needs no
escape.

A parser takes tokens off the front of its list and answers with what it read and with what is left;
a fault also leaves its list behind, and where that list starts is where the diagnostic puts its
mark.

Nothing here recurses into itself through the nesting of constructs.  `Nest` is the reader of the
constructs one level further in, and `nest n` is the reader that may open `n` levels: `nest 0`
refuses, and `nest (n + 1)` reads with `nest n` inside.  Along a list of tokens the only recursion
is `collect`, which ends because each round that goes on has taken a token; that a round does so is
`Takes`.
-/

namespace TemplateGrammar

/-- What a parser answers: a value and the tokens left, or a fault and the tokens it stands
before. -/
inductive Outcome (α : Type) where
  | ok (value : α) (rest : List Token)
  | fault (reason : Fault) (rest : List Token)

/-- A reader of the front of a token list. -/
def Parser (α : Type) := List Token → Outcome α

namespace Parser

variable {α β : Type}

/-- Read nothing. -/
def done (a : α) : Parser α :=
  fun ts => .ok a ts

/-- Read one thing, then what it calls for. -/
def andThen (p : Parser α) (f : α → Parser β) : Parser β :=
  fun ts =>
    match p ts with
    | .ok a rest => f a rest
    | .fault r rest => .fault r rest

instance : Monad Parser where
  pure := done
  bind := andThen

/-- Refuse. -/
def refuse (r : Fault) : Parser α :=
  fun ts => .fault r ts

/-- Refuse where the condition holds. -/
def refuseIf (b : Bool) (r : Fault) : Parser Unit :=
  if b then refuse r else done ()

/-- The next token, which stays. -/
def peek : Parser (Option Token) :=
  fun ts => .ok ts.head? ts

/-- Take the next token, whatever it is. -/
def take : Parser Unit :=
  fun ts =>
    match ts with
    | [] => .fault .endOfInput []
    | _ :: rest => .ok () rest

/-- Take the next token if it is one of these, and say whether it was. -/
def accept (these : Token → Bool) : Parser Bool :=
  fun ts =>
    match ts with
    | [] => .ok false []
    | t :: rest => if these t then .ok true rest else .ok false (t :: rest)

/-- Take the next token, which must be one of these. -/
def expect (these : Token → Bool) (r : Fault) : Parser Unit :=
  fun ts =>
    match ts with
    | [] => .fault r []
    | t :: rest => if these t then .ok () rest else .fault r (t :: rest)

/-- A name is a single text or number. -/
def name? : Parser (Option String) :=
  fun ts =>
    match ts with
    | .text s :: rest => .ok (some s) rest
    | .number n :: rest => .ok (some (toString n)) rest
    | ts => .ok none ts

/-- A name that must be there. -/
def name (r : Fault) : Parser String :=
  fun ts =>
    match ts with
    | .text s :: rest => .ok s rest
    | .number n :: rest => .ok (toString n) rest
    | ts => .fault r ts

/-! ### How much a parser takes -/

/-- **A parser takes at least as many tokens as its answer says.** -/
def Takes (p : Parser α) (n : α → Nat) : Prop :=
  ∀ ts a rest, p ts = .ok a rest → rest.length + n a ≤ ts.length

/-- A step that goes on has taken a token. -/
def goesOn : Option α → Nat
  | none => 0
  | some _ => 1

theorem takes_done (a : α) : Takes (done a) fun _ => 0 := by
  intro ts b rest h
  simp only [done, Outcome.ok.injEq] at h
  exact Nat.le_of_eq (by rw [h.2, Nat.add_zero])

theorem Takes.andThen {p : Parser α} {f : α → Parser β} {n : α → Nat}
    {k : α → β → Nat} {m : β → Nat} (hp : Takes p n) (hf : ∀ a, Takes (f a) (k a))
    (hm : ∀ a b, m b ≤ n a + k a b) :
    Takes (p >>= f) m := by
  intro ts b rest h
  simp only [bind, Parser.andThen] at h
  cases hpt : p ts with
  | fault r rest' => rw [hpt] at h; simp at h
  | ok a rest' =>
    rw [hpt] at h
    have h1 := hp ts a rest' hpt
    have h2 := hf a rest' b rest h
    have h3 := hm a b
    omega

/-- A parser that leaves no more than it was given. -/
def Keeps (p : Parser α) : Prop :=
  Takes p fun _ => 0

theorem Takes.mono {p : Parser α} {n m : α → Nat} (hp : Takes p n) (h : ∀ a, m a ≤ n a) :
    Takes p m := by
  intro ts a rest hpt
  have := hp ts a rest hpt
  have := h a
  omega

theorem Takes.keeps {p : Parser α} {n : α → Nat} (hp : Takes p n) : Keeps p :=
  hp.mono fun _ => Nat.zero_le _

theorem keeps_done (a : α) : Keeps (done a) :=
  takes_done a

theorem Keeps.bind {p : Parser α} {f : α → Parser β} (hp : Keeps p) (hf : ∀ a, Keeps (f a)) :
    Keeps (p >>= f) :=
  hp.andThen hf fun _ _ => Nat.le_refl _

theorem Takes.bind {p : Parser α} {f : α → Parser β} (hp : Takes p fun _ => 1)
    (hf : ∀ a, Keeps (f a)) : Takes (p >>= f) fun _ => 1 :=
  hp.andThen hf fun _ _ => Nat.le_refl _

theorem takes_none : Takes (done (none : Option α)) goesOn := by
  intro ts b rest h
  simp only [done, Outcome.ok.injEq] at h
  obtain ⟨rfl, rfl⟩ := h
  exact Nat.le_refl _

theorem takes_refuse (r : Fault) (n : α → Nat) : Takes (refuse r : Parser α) n := by
  intro ts a rest h
  simp [refuse] at h

theorem keeps_refuseIf (b : Bool) (r : Fault) : Keeps (refuseIf b r) := by
  unfold refuseIf
  split
  · exact takes_refuse r _
  · exact takes_done ()

theorem keeps_peek : Keeps peek := by
  intro ts a rest h
  simp only [peek, Outcome.ok.injEq] at h
  exact Nat.le_of_eq (by rw [h.2, Nat.add_zero])

theorem takes_take : Takes take fun _ => 1 := by
  intro ts a rest h
  unfold take at h
  split at h
  · simp at h
  · simp only [Outcome.ok.injEq] at h
    exact Nat.le_of_eq (by rw [← h.2, List.length_cons])

theorem takes_accept (these : Token → Bool) : Takes (accept these) fun b => if b then 1 else 0 := by
  intro ts a rest h
  unfold accept at h
  split at h
  · simp only [Outcome.ok.injEq] at h
    obtain ⟨rfl, rfl⟩ := h
    simp
  · split at h
    all_goals
      simp only [Outcome.ok.injEq] at h
      obtain ⟨rfl, rfl⟩ := h
      simp

/-- **A step behind a token that must be there first.** -/
theorem takes_guarded {these : Token → Bool} {p : Parser (Option α)} (hp : Keeps p) :
    Takes (accept these >>= fun b => if b then p else done none) goesOn := by
  refine (takes_accept these).andThen (k := fun b r => if b then 0 else goesOn r) ?_ ?_
  · intro b
    cases b
    · exact takes_none
    · exact hp
  · intro b r
    cases b <;> cases r <;> simp [goesOn]

theorem takes_expect (these : Token → Bool) (r : Fault) : Takes (expect these r) fun _ => 1 := by
  intro ts a rest h
  unfold expect at h
  split at h
  · simp at h
  · split at h
    · simp only [Outcome.ok.injEq] at h
      exact Nat.le_of_eq (by rw [← h.2, List.length_cons])
    · simp at h

theorem takes_name? : Takes name? goesOn := by
  intro ts a rest h
  unfold name? at h
  split at h
  all_goals
    simp only [Outcome.ok.injEq] at h
    obtain ⟨rfl, rfl⟩ := h
    simp [goesOn]

theorem takes_name (r : Fault) : Takes (name r) fun _ => 1 := by
  intro ts a rest h
  unfold name at h
  split at h
  · simp only [Outcome.ok.injEq] at h
    exact Nat.le_of_eq (by rw [← h.2, List.length_cons])
  · simp only [Outcome.ok.injEq] at h
    exact Nat.le_of_eq (by rw [← h.2, List.length_cons])
  · simp at h

/-! ### Reading on and on -/

/-- **The answers of a step, until it stops.**  A step that answers `none` is the last one. -/
def collect (step : Parser (Option α)) (on : Takes step goesOn) (ts : List Token) :
    Outcome (List α) :=
  match taken : step ts with
  | .fault r rest => .fault r rest
  | .ok none rest => .ok [] rest
  | .ok (some a) rest =>
    have : rest.length < ts.length := on ts (some a) rest taken
    match collect step on rest with
    | .ok more left => .ok (a :: more) left
    | .fault r left => .fault r left
termination_by ts.length

theorem keeps_collect (step : Parser (Option α)) (on : Takes step goesOn) :
    Keeps (collect step on) := by
  intro ts as rest h
  fun_induction collect step on ts generalizing as rest with
  | case1 => simp at h
  | case2 ts left hs =>
    simp only [Outcome.ok.injEq] at h
    obtain ⟨rfl, rfl⟩ := h
    exact on ts none left hs
  | case3 ts a left hs hlt more last hc ih =>
    simp only [Outcome.ok.injEq] at h
    obtain ⟨rfl, rfl⟩ := h
    have := ih more last hc
    show last.length ≤ ts.length
    simp only at this
    omega
  | case4 => simp at h

end Parser

/-! ### The constructs -/

/-- What a nested construct is. -/
inductive Construct where
  | rule
  | tag
  | ifBlock
  | whileBlock
  deriving DecidableEq, Repr

/-- A reader of nested constructs.  Each starts at the token that opens it and takes at least that
token. -/
structure Nest where
  read : Construct → Parser (List (Node Unit))
  takes : ∀ k, (read k).Takes fun _ => 1

namespace Parser

/-- Make one text of neighbouring texts. -/
def mergeTexts : List (Node Unit) → List (Node Unit)
  | [] => []
  | .text s :: rest =>
    match mergeTexts rest with
    | .text t :: more => .text (s ++ t) :: more
    | more => .text s :: more
  | n :: rest => n :: mergeTexts rest

/-- Drop a last node that is a single space, or the space at the end of a last text. -/
def stripTrailingSpace (nodes : List (Node Unit)) : List (Node Unit) :=
  match nodes.getLast? with
  | some (.text s) =>
    if s = " " then nodes.dropLast
    else if s.toList.getLast? = some ' ' then
      nodes.dropLast ++ [.text (String.ofList s.toList.dropLast)]
    else nodes
  | _ => nodes

/-- `#` and `}` both close a reference. -/
def closesRule (t : Token) : Bool :=
  t == .op '#' || t == .op '}'

/-- **One construct,** or `none` where the next token cannot start one. -/
def fragment (inner : Nest) : Parser (Option (List (Node Unit))) :=
  fun ts =>
    match ts with
    | .op '#' :: _ | .op '{' :: _ => (some <$> inner.read .rule) ts
    | [.op '['] => .ok none ts
    | .op '[' :: .keyword .ifWord :: _ => (some <$> inner.read .ifBlock) ts
    | .op '[' :: .keyword .whileWord :: _ => (some <$> inner.read .whileBlock) ts
    | .op '[' :: _ => (some <$> inner.read .tag) ts
    | .op ':' :: .number n :: rest => .ok (some [.weight n]) rest
    | .op ':' :: rest => .ok (some [.text ":"]) rest
    | .text s :: rest => .ok (some [.text s]) rest
    | .number n :: rest => .ok (some [.text (toString n)]) rest
    | ts => .ok none ts

theorem takes_some {α : Type} {p : Parser α} (hp : p.Takes fun _ => 1) :
    Takes (some <$> p) goesOn := by
  intro ts a rest h
  simp only [Functor.map, andThen, Function.comp, done] at h
  split at h
  · rename_i b left hb
    simp only [Outcome.ok.injEq] at h
    obtain ⟨rfl, rfl⟩ := h
    exact hp ts b left hb
  · simp at h

theorem takes_fragment (inner : Nest) : Takes (fragment inner) goesOn := by
  intro ts a rest h
  unfold fragment at h
  split at h
  all_goals first
    | exact takes_some (inner.takes _) _ _ _ h
    | (simp only [Outcome.ok.injEq] at h
       obtain ⟨rfl, rfl⟩ := h
       simp [goesOn])

/-- Constructs up to the first token that cannot start one. -/
def sequence (inner : Nest) : Parser (List (Node Unit)) := do
  let parts ← collect (fragment inner) (takes_fragment inner)
  return parts.flatten

/-- The next token as text, unless it is a stopper or missing. -/
def stray (stops : Token → Bool) : Parser (Option (List (Node Unit))) :=
  fun ts =>
    match ts with
    | [] => .ok none []
    | t :: rest => if stops t then .ok none (t :: rest) else .ok (some [.text t.raw]) rest

/-- One construct, or a stray token as text, or `none` before a stopper and at the end. -/
def piece (inner : Nest) (stops : Token → Bool) : Parser (Option (List (Node Unit))) := do
  match ← fragment inner with
  | some nodes => return some nodes
  | none => stray stops

theorem takes_stray (stops : Token → Bool) : Takes (stray stops) goesOn := by
  intro ts a rest h
  unfold stray at h
  split at h
  · simp only [Outcome.ok.injEq] at h
    obtain ⟨rfl, rfl⟩ := h
    simp [goesOn]
  · split at h
    all_goals
      simp only [Outcome.ok.injEq] at h
      obtain ⟨rfl, rfl⟩ := h
      simp [goesOn]

theorem takes_piece (inner : Nest) (stops : Token → Bool) : Takes (piece inner stops) goesOn := by
  refine (takes_fragment inner).andThen
    (k := fun a b => match a with | some _ => 0 | none => goesOn b) ?_ ?_
  · intro a
    cases a with
    | some nodes => exact takes_done _
    | none => exact takes_stray stops
  · intro a b
    cases a <;> cases b <;> simp [goesOn]

/-- **Constructs and stray tokens up to a stopper,** with neighbouring texts made one. -/
def block (inner : Nest) (stops : Token → Bool) : Parser (List (Node Unit)) := do
  let parts ← collect (piece inner stops) (takes_piece inner stops)
  return mergeTexts parts.flatten

theorem keeps_sequence (inner : Nest) : Keeps (sequence inner) :=
  (keeps_collect _ _).bind fun _ => keeps_done _

theorem keeps_block (inner : Nest) (stops : Token → Bool) : Keeps (block inner stops) :=
  (keeps_collect _ _).bind fun _ => keeps_done _

/-! ### Lists -/

/-- A comma and the member behind it. -/
def nextMember (inner : Nest) (listing : Listing) (stops : Token → Bool) :
    Parser (Option (List (Node Unit))) := do
  if ← accept (· == .op ',') then
    let more ← block inner stops
    refuseIf more.isEmpty (.missingMember listing)
    return some more
  else
    return none

theorem takes_nextMember (inner : Nest) (listing : Listing) (stops : Token → Bool) :
    Takes (nextMember inner listing stops) goesOn :=
  takes_guarded ((keeps_block _ _).bind fun _ => (keeps_refuseIf _ _).bind fun _ => keeps_done _)

/-- **Members between commas, up to the closer.**  The first may be empty, the others not. -/
def members (inner : Nest) (listing : Listing) (closer : Char) :
    Parser (List (List (Node Unit))) := do
  let stops := fun t => t == .op ',' || t == .op closer
  let first ← block inner stops
  let more ← collect (nextMember inner listing stops) (takes_nextMember inner listing stops)
  return first :: more

/-- `(a,b)` -/
def candidates (inner : Nest) (listing : Listing) : Parser (List (List (Node Unit))) := do
  take
  let values ← members inner listing ')'
  expect (· == .op ')') (.unclosedListing listing)
  return values

/-- The parameters behind a modifier's name: none without parentheses, and none in `()`. -/
def parameters (inner : Nest) : Parser (List (List (Node Unit))) := do
  if ← accept (· == .op '(') then
    let values ← members inner .parameters ')'
    expect (· == .op ')') .unclosedCall
    return if values.length == 1 && (values.headD []).isEmpty then [] else values
  else
    return []

/-- A dot and the call behind it. -/
def nextModifier (inner : Nest) (rule : String) : Parser (Option (Modifier Unit)) := do
  if ← accept (· == .op '.') then
    let n ← name (.missingModifierName rule)
    let values ← parameters inner
    return some ⟨n, values⟩
  else
    return none

theorem keeps_members (inner : Nest) (listing : Listing) (closer : Char) :
    Keeps (members inner listing closer) :=
  (keeps_block _ _).bind fun _ => (keeps_collect _ _).bind fun _ => keeps_done _

theorem keeps_candidates (inner : Nest) (listing : Listing) : Keeps (candidates inner listing) :=
  takes_take.keeps.bind fun _ => (keeps_members _ _ _).bind fun _ =>
    (takes_expect _ _).keeps.bind fun _ => keeps_done _

theorem keeps_parameters (inner : Nest) : Keeps (parameters inner) := by
  refine (takes_accept _).keeps.bind fun b => ?_
  cases b
  · exact keeps_done _
  · exact (keeps_members _ _ _).bind fun _ => (takes_expect _ _).keeps.bind fun _ => keeps_done _

theorem takes_nextModifier (inner : Nest) (rule : String) :
    Takes (nextModifier inner rule) goesOn :=
  takes_guarded ((takes_name _).keeps.bind fun _ => (keeps_parameters _).bind fun _ => keeps_done _)

/-- A chain of modifiers. -/
def modifiers (inner : Nest) (rule : String) : Parser (List (Modifier Unit)) :=
  collect (nextModifier inner rule) (takes_nextModifier inner rule)

theorem keeps_modifiers (inner : Nest) (rule : String) : Keeps (modifiers inner rule) :=
  keeps_collect _ _

/-! ### Rules and tags -/

/-- A tag in front of a reference. -/
def leadingTag (inner : Nest) : Parser (Option (List (Node Unit))) :=
  fun ts =>
    match ts with
    | .op '[' :: _ => (some <$> inner.read .tag) ts
    | ts => .ok none ts

theorem takes_leadingTag (inner : Nest) : Takes (leadingTag inner) goesOn := by
  intro ts a rest h
  unfold leadingTag at h
  split at h
  · exact takes_some (inner.takes _) _ _ _ h
  · simp only [Outcome.ok.injEq] at h
    obtain ⟨rfl, rfl⟩ := h
    simp [goesOn]

/-- What stands between the marks of a reference, tags apart, and the closing mark. -/
def referenceBody (inner : Nest) : Parser (Node Unit) := do
  let found ← name?
  let opens := (← peek) == some (.op '(')
  match found, opens with
  | none, true =>
    let values ← candidates inner .choices
    let chain ← modifiers inner "inline rule"
    expect closesRule .unclosedChoice
    return .choice () values chain
  | some n, true =>
    let values ← candidates inner .candidates
    expect closesRule .unclosedDefinition
    return .define n values
  | found, false =>
    let chain ← modifiers inner (found.getD "")
    expect closesRule (.unclosedRule (found.getD ""))
    return .rule (found.getD "") chain

/-- **`#..#` or `{..}`,** with tags in front of the reference.  With nothing left in it, it is an
empty text. -/
def reference (inner : Nest) : Parser (List (Node Unit)) := do
  take
  let tags ← collect (leadingTag inner) (takes_leadingTag inner)
  if ← accept closesRule then
    return tags.flatten ++ [.text ""]
  else
    let node ← referenceBody inner
    return tags.flatten ++ [node]

/-- `name:a,b` inside a tag. -/
def assignment (inner : Nest) : Parser (List (Node Unit)) := do
  let n ← name .missingTagName
  expect (· == .op ':') (.missingColon n)
  let values ← members inner .tagValues ']'
  refuseIf (values.headD []).isEmpty .missingTagValue
  return [.tag n values]

/-- One part of a tag, or `none` before the closer. -/
def tagPart (inner : Nest) : Parser (Option (List (Node Unit))) :=
  fun ts =>
    match ts with
    | [] => .fault .unclosedTag []
    | .op ']' :: _ => .ok none ts
    | .op '#' :: _ | .op '{' :: _ => (some <$> inner.read .rule) ts
    | .op '[' :: _ => (some <$> inner.read .tag) ts
    | ts => (some <$> assignment inner) ts

theorem takes_assignment (inner : Nest) : Takes (assignment inner) fun _ => 1 :=
  (takes_name _).bind fun _ => (takes_expect _ _).keeps.bind fun _ =>
    (keeps_members _ _ _).bind fun _ => (keeps_refuseIf _ _).bind fun _ => keeps_done _

theorem takes_tagPart (inner : Nest) : Takes (tagPart inner) goesOn := by
  intro ts a rest h
  unfold tagPart at h
  split at h
  · simp at h
  · simp only [Outcome.ok.injEq] at h
    obtain ⟨rfl, rfl⟩ := h
    simp [goesOn]
  · exact takes_some (inner.takes _) _ _ _ h
  · exact takes_some (inner.takes _) _ _ _ h
  · exact takes_some (inner.takes _) _ _ _ h
  · exact takes_some (takes_assignment inner) _ _ _ h

/-- **`[name:a,b]`,** with rules and tags in front of the name or instead of it. -/
def tag (inner : Nest) : Parser (List (Node Unit)) := do
  take
  let parts ← collect (tagPart inner) (takes_tagPart inner)
  refuseIf parts.isEmpty .emptyTag
  take
  return parts.flatten

/-! ### Blocks -/

/-- The blank a keyword must be followed by. -/
def space (word : Keyword) : Parser Unit :=
  expect Token.isSpace (.missingSpace word)

/-- The right side of a comparison. -/
def operand (inner : Nest) (symbol : Token) : Parser (List (Node Unit)) := do
  take
  let _ ← accept Token.isSpace
  let right ← sequence inner
  refuseIf right.isEmpty (.missingOperand symbol)
  return right

/-- The right side of a membership test. -/
def set (inner : Nest) : Parser (List (Node Unit)) := do
  take
  let _ ← accept Token.isSpace
  let right ← sequence inner
  refuseIf right.isEmpty .missingSet
  return right

/-- Membership makes sense for a reference only; against a text it is a comparison. -/
def membership (negated : Bool) (right : List (Node Unit)) : Comparison :=
  match right with
  | .text _ :: _ => if negated then .unequal else .equal
  | _ => if negated then .notAmong else .among

/-- What a condition compares its left side with, and how.  With no operator, it is compared with
nothing. -/
def comparand (inner : Nest) : Parser (Comparison × List (Node Unit)) := do
  match ← peek with
  | some .equal => return (.equal, ← operand inner .equal)
  | some .unequal => return (.unequal, ← operand inner .unequal)
  | some (.keyword .inWord) =>
    let right ← set inner
    return (membership false right, right)
  | some (.keyword .notInWord) =>
    let right ← set inner
    return (membership true right, right)
  | _ => return (.unequal, [.text ""])

/-- The condition of a block. -/
def condition (inner : Nest) : Parser (Condition Unit) := do
  let left ← sequence inner
  let (op, right) ← comparand inner
  return ⟨stripTrailingSpace left, op, stripTrailingSpace right⟩

/-- The block behind a keyword, which must not be empty as it is written. -/
def wordBlock (inner : Nest) (word : Keyword) (stops : Token → Bool) :
    Parser (List (Node Unit)) := do
  space word
  let nodes ← block inner stops
  refuseIf nodes.isEmpty (.emptyBlock word)
  return nodes

/-- **`[if c then a else b]`.**  Only in front of an `else` does the first block lose its last
space. -/
def ifBlock (inner : Nest) : Parser (List (Node Unit)) := do
  take
  take
  space .ifWord
  let c ← condition inner
  expect (· == .keyword .thenWord) .missingThen
  let yes ← wordBlock inner .thenWord fun t => t == .keyword .elseWord || t == .op ']'
  if ← accept (· == .keyword .elseWord) then
    let no ← wordBlock inner .elseWord (· == .op ']')
    expect (· == .op ']') (.unclosedBlock .ifWord)
    return [.ifBlock c (stripTrailingSpace yes) (some no)]
  else
    expect (· == .op ']') (.unclosedBlock .ifWord)
    return [.ifBlock c yes none]

/-- `[while c do a]` -/
def whileBlock (inner : Nest) : Parser (List (Node Unit)) := do
  take
  take
  space .whileWord
  let c ← condition inner
  expect (· == .keyword .doWord) .missingDo
  let body ← wordBlock inner .doWord (· == .op ']')
  expect (· == .op ']') (.unclosedBlock .whileWord)
  return [.whileBlock c body]

/-- A construct read with `inner` for what is nested in it. -/
def construct (inner : Nest) : Construct → Parser (List (Node Unit))
  | .rule => reference inner
  | .tag => tag inner
  | .ifBlock => ifBlock inner
  | .whileBlock => whileBlock inner

/-! ### Every construct takes the token that opens it -/

theorem keeps_referenceBody (inner : Nest) : Keeps (referenceBody inner) := by
  refine takes_name?.keeps.bind fun found => keeps_peek.bind fun next => ?_
  dsimp only
  split
  · exact (keeps_candidates _ _).bind fun _ => (keeps_modifiers _ _).bind fun _ =>
      (takes_expect _ _).keeps.bind fun _ => keeps_done _
  · exact (keeps_candidates _ _).bind fun _ => (takes_expect _ _).keeps.bind fun _ => keeps_done _
  · exact (keeps_modifiers _ _).bind fun _ => (takes_expect _ _).keeps.bind fun _ => keeps_done _

theorem takes_reference (inner : Nest) : Takes (reference inner) fun _ => 1 := by
  refine takes_take.bind fun _ => (keeps_collect _ _).bind fun _ =>
    (takes_accept _).keeps.bind fun b => ?_
  cases b
  · exact (keeps_referenceBody _).bind fun _ => keeps_done _
  · exact keeps_done _

theorem takes_tag (inner : Nest) : Takes (tag inner) fun _ => 1 :=
  takes_take.bind fun _ => (keeps_collect _ _).bind fun _ => (keeps_refuseIf _ _).bind fun _ =>
    takes_take.keeps.bind fun _ => keeps_done _

theorem keeps_operand (inner : Nest) (symbol : Token) : Keeps (operand inner symbol) :=
  takes_take.keeps.bind fun _ => (takes_accept _).keeps.bind fun _ =>
    (keeps_sequence _).bind fun _ => (keeps_refuseIf _ _).bind fun _ => keeps_done _

theorem keeps_set (inner : Nest) : Keeps (set inner) :=
  takes_take.keeps.bind fun _ => (takes_accept _).keeps.bind fun _ =>
    (keeps_sequence _).bind fun _ => (keeps_refuseIf _ _).bind fun _ => keeps_done _

theorem keeps_comparand (inner : Nest) : Keeps (comparand inner) := by
  refine keeps_peek.bind fun next => ?_
  split
  · exact (keeps_operand _ _).bind fun _ => keeps_done _
  · exact (keeps_operand _ _).bind fun _ => keeps_done _
  · exact (keeps_set _).bind fun _ => keeps_done _
  · exact (keeps_set _).bind fun _ => keeps_done _
  · exact keeps_done _

theorem keeps_condition (inner : Nest) : Keeps (condition inner) :=
  (keeps_sequence _).bind fun _ => (keeps_comparand _).bind fun _ => keeps_done _

theorem keeps_wordBlock (inner : Nest) (word : Keyword) (stops : Token → Bool) :
    Keeps (wordBlock inner word stops) :=
  (takes_expect _ _).keeps.bind fun _ => (keeps_block _ _).bind fun _ =>
    (keeps_refuseIf _ _).bind fun _ => keeps_done _

theorem takes_ifBlock (inner : Nest) : Takes (ifBlock inner) fun _ => 1 := by
  refine takes_take.bind fun _ => takes_take.keeps.bind fun _ =>
    (takes_expect _ _).keeps.bind fun _ => (keeps_condition _).bind fun _ =>
      (takes_expect _ _).keeps.bind fun _ => (keeps_wordBlock _ _ _).bind fun _ =>
        (takes_accept _).keeps.bind fun b => ?_
  cases b
  · exact (takes_expect _ _).keeps.bind fun _ => keeps_done _
  · exact (keeps_wordBlock _ _ _).bind fun _ => (takes_expect _ _).keeps.bind fun _ => keeps_done _

theorem takes_whileBlock (inner : Nest) : Takes (whileBlock inner) fun _ => 1 :=
  takes_take.bind fun _ => takes_take.keeps.bind fun _ => (takes_expect _ _).keeps.bind fun _ =>
    (keeps_condition _).bind fun _ => (takes_expect _ _).keeps.bind fun _ =>
      (keeps_wordBlock _ _ _).bind fun _ => (takes_expect _ _).keeps.bind fun _ => keeps_done _

theorem takes_construct (inner : Nest) (k : Construct) : Takes (construct inner k) fun _ => 1 := by
  cases k
  · exact takes_reference inner
  · exact takes_tag inner
  · exact takes_ifBlock inner
  · exact takes_whileBlock inner

end Parser

/-! ### Nesting -/

/-- **The reader of constructs that may open `n` levels more.** -/
def nest : Nat → Nest
  | 0 => ⟨fun _ => Parser.refuse .nestingTooDeep, fun _ => Parser.takes_refuse _ _⟩
  | n + 1 => ⟨Parser.construct (nest n), Parser.takes_construct (nest n)⟩

/-- **A token list as a template.**  At the outermost level nothing stops a list but its end. -/
def parse (tokens : List Token) : Except ParseFailure (List (Node Unit)) :=
  match Parser.block (nest maxNesting) (fun _ => false) tokens with
  | .ok nodes _ => .ok nodes
  | .fault reason rest => .error ⟨reason, tokens, tokens.length - rest.length⟩

/-- A text as a template. -/
def parseText (s : String) : Except ParseFailure (List (Node Unit)) :=
  parse (tokenize s)

end TemplateGrammar
