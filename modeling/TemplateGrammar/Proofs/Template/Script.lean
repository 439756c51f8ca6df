import TemplateGrammar.Template.Parser

/-!
# Parsers, step by step

A parser answers what it reads and what is left; it does not tell how it goes through its tokens.  A
*script* does: it looks at the present token and at the one behind it, goes on by one token whether
there is one or not, opens a nested construct, or repeats something for as long as that answers.
Nothing in a script says that a loop ends, that there is a token to go past, or that a construct may
be opened.

Every parser of templates has its script here, and each script reads what the parser reads, whatever
reads the nested constructs (`Script.read_construct`, `Script.read_template`).  What a script does
with a position and a counter of open constructs is another matter, which is where it is of use.
-/

namespace TemplateGrammar

/-- **What a parser does.**  It refuses for any reason but that of nesting, which is not its own to
judge. -/
inductive Script : Type → Type 1 where
  | done {α : Type} (a : α) : Script α
  | refuse {α : Type} (r : Fault) (own : r ≠ .nestingTooDeep) : Script α
  /-- the present token and the next, which both stay -/
  | look : Script (Option Token × Option Token)
  /-- on by one token, even if there is none -/
  | advance : Script Unit
  /-- open a construct, read it and close it -/
  | nested (k : Construct) : Script (List (Node Unit))
  | andThen {α β : Type} (p : Script α) (f : α → Script β) : Script β
  /-- again and again, until `none` -/
  | loop {α : Type} (step : Script (Option α)) : Script (List α)

namespace Parser

variable {α : Type}

/-- The answers of a step, until it stops.  A step that goes on where it was would do so for
ever. -/
def loop (step : Parser (Option α)) (ts : List Token) : Outcome (List α) :=
  match step ts with
  | .fault r rest => .fault r rest
  | .ok none rest => .ok [] rest
  | .ok (some a) rest =>
    if rest.length < ts.length then
      match loop step rest with
      | .ok more left => .ok (a :: more) left
      | .fault r left => .fault r left
    else .fault .endOfInput ts
termination_by ts.length

theorem loop_eq_collect (step : Parser (Option α)) (on : Takes step goesOn) :
    loop step = collect step on := by
  funext ts
  fun_induction collect step on ts with
  | case1 ts r rest hs => rw [loop, hs]
  | case2 ts rest hs => rw [loop, hs]
  | case3 ts a rest hs hlt more left hmore ih =>
    rw [loop, hs]
    simp only [hlt, if_true, ih, hmore]
  | case4 ts a rest hs hlt r left hmore ih =>
    rw [loop, hs]
    simp only [hlt, if_true, ih, hmore]

end Parser

namespace Script

variable {α β : Type}

instance : Monad Script where
  pure := done
  bind := andThen

/-- **What a script reads** from the front of a token list, where `inner` reads the nested
constructs. -/
def read (inner : Nest) : {α : Type} → Script α → Parser α
  | _, done a => Parser.done a
  | _, refuse r _ => Parser.refuse r
  | _, look => fun ts => .ok (ts.head?, ts.tail.head?) ts
  | _, advance => Parser.take
  | _, nested k => inner.read k
  | _, andThen p f => p.read inner >>= fun a => (f a).read inner
  | _, loop step => Parser.loop (step.read inner)

/-! ### Single tokens -/

/-- The present token, which stays. -/
def peek : Script (Option Token) := do
  return (← look).1

/-- Refuse where the condition holds. -/
def refuseIf (b : Bool) (r : Fault) (own : r ≠ .nestingTooDeep) : Script Unit :=
  if b then refuse r own else done ()

/-- Go past the present token if it is one of these, and say whether it was. -/
def accept (these : Token → Bool) : Script Bool := do
  match ← peek with
  | some t =>
    if these t then
      advance
      return true
    else return false
  | none => return false

/-- Go past the present token, which must be one of these. -/
def expect (these : Token → Bool) (r : Fault) (own : r ≠ .nestingTooDeep) : Script Unit := do
  match ← peek with
  | some t => if these t then advance else refuse r own
  | none => refuse r own

/-- A name, if the present token is one. -/
def name? : Script (Option String) := do
  match ← peek with
  | some (.text s) =>
    advance
    return some s
  | some (.number n) =>
    advance
    return some (toString n)
  | _ => return none

/-- A name that must be there. -/
def name (r : Fault) (own : r ≠ .nestingTooDeep) : Script String := do
  match ← name? with
  | some s => return s
  | none => refuse r own

/-- A colon, and the number behind it if there is one. -/
def weight : Script (List (Node Unit)) := do
  advance
  match ← peek with
  | some (.number n) =>
    advance
    return [.weight n]
  | _ => return [.text ":"]

/-! ### Pieces and blocks -/

/-- One construct, or `none` where the present token cannot start one. -/
def fragment : Script (Option (List (Node Unit))) := do
  match ← look with
  | (some (.op '#'), _) | (some (.op '{'), _) => some <$> nested .rule
  | (some (.op '['), none) => return none
  | (some (.op '['), some (.keyword .ifWord)) => some <$> nested .ifBlock
  | (some (.op '['), some (.keyword .whileWord)) => some <$> nested .whileBlock
  | (some (.op '['), some _) => some <$> nested .tag
  | (some (.op ':'), _) => some <$> weight
  | (some (.text s), _) =>
    advance
    return some [.text s]
  | (some (.number n), _) =>
    advance
    return some [.text (toString n)]
  | _ => return none

/-- Constructs up to the first token that cannot start one. -/
def sequence : Script (List (Node Unit)) := do
  let parts ← loop fragment
  return parts.flatten

/-- The present token as text, unless it is a stopper or missing. -/
def stray (stops : Token → Bool) : Script (Option (List (Node Unit))) := do
  match ← peek with
  | some t =>
    if stops t then return none
    else
      advance
      return some [.text t.raw]
  | none => return none

/-- One construct, or a stray token as text, or `none` before a stopper and at the end. -/
def piece (stops : Token → Bool) : Script (Option (List (Node Unit))) := do
  match ← fragment with
  | some nodes => return some nodes
  | none => stray stops

/-- Constructs and stray tokens up to a stopper. -/
def block (stops : Token → Bool) : Script (List (Node Unit)) := do
  let parts ← loop (piece stops)
  return Parser.mergeTexts parts.flatten

/-! ### Lists -/

/-- A comma and the member behind it. -/
def nextMember (listing : Listing) (stops : Token → Bool) : Script (Option (List (Node Unit))) := do
  if ← accept (· == .op ',') then
    let more ← block stops
    refuseIf more.isEmpty (.missingMember listing) nofun
    return some more
  else
    return none

/-- Members between commas, up to the closer. -/
def members (listing : Listing) (closer : Char) : Script (List (List (Node Unit))) := do
  let stops := fun t => t == .op ',' || t == .op closer
  let first ← block stops
  let more ← loop (nextMember listing stops)
  return first :: more

/-- Candidates in parentheses. -/
def candidates (listing : Listing) : Script (List (List (Node Unit))) := do
  advance
  let values ← members listing ')'
  expect (· == .op ')') (.unclosedListing listing) nofun
  return values

/-- The parameters behind a modifier's name. -/
def parameters : Script (List (List (Node Unit))) := do
  if ← accept (· == .op '(') then
    let values ← members .parameters ')'
    expect (· == .op ')') .unclosedCall nofun
    return if values.length == 1 && (values.headD []).isEmpty then [] else values
  else
    return []

/-- A dot and the call behind it. -/
def nextModifier (rule : String) : Script (Option (Modifier Unit)) := do
  if ← accept (· == .op '.') then
    let n ← name (.missingModifierName rule) nofun
    let values ← parameters
    return some ⟨n, values⟩
  else
    return none

/-- A chain of modifiers. -/
def modifiers (rule : String) : Script (List (Modifier Unit)) :=
  loop (nextModifier rule)

/-! ### Rules and tags -/

/-- A tag in front of a reference. -/
def leadingTag : Script (Option (List (Node Unit))) := do
  match ← peek with
  | some (.op '[') => some <$> nested .tag
  | _ => return none

/-- What stands between the marks of a reference, tags apart, and the closing mark. -/
def referenceBody : Script (Node Unit) := do
  let found ← name?
  let opens := (← peek) == some (.op '(')
  match found, opens with
  | none, true =>
    let values ← candidates .choices
    let chain ← modifiers "inline rule"
    expect Parser.closesRule .unclosedChoice nofun
    return .choice () values chain
  | some n, true =>
    let values ← candidates .candidates
    expect Parser.closesRule .unclosedDefinition nofun
    return .define n values
  | found, false =>
    let chain ← modifiers (found.getD "")
    expect Parser.closesRule (.unclosedRule (found.getD "")) nofun
    return .rule (found.getD "") chain

/-- A reference. -/
def reference : Script (List (Node Unit)) := do
  advance
  let tags ← loop leadingTag
  if ← accept Parser.closesRule then
    return tags.flatten ++ [.text ""]
  else
    let node ← referenceBody
    return tags.flatten ++ [node]

/-- A name, a colon and values inside a tag. -/
def assignment : Script (List (Node Unit)) := do
  let n ← name .missingTagName nofun
  expect (· == .op ':') (.missingColon n) nofun
  let values ← members .tagValues ']'
  refuseIf (values.headD []).isEmpty .missingTagValue nofun
  return [.tag n values]

/-- One part of a tag, or `none` before the closer. -/
def tagPart : Script (Option (List (Node Unit))) := do
  match ← peek with
  | none => refuse .unclosedTag nofun
  | some (.op ']') => return none
  | some (.op '#') | some (.op '{') => some <$> nested .rule
  | some (.op '[') => some <$> nested .tag
  | _ => some <$> assignment

/-- A tag. -/
def tag : Script (List (Node Unit)) := do
  advance
  let parts ← loop tagPart
  refuseIf parts.isEmpty .emptyTag nofun
  advance
  return parts.flatten

/-! ### Blocks with words -/

/-- The blank a keyword must be followed by. -/
def space (word : Keyword) : Script Unit :=
  expect Token.isSpace (.missingSpace word) nofun

/-- The right side of a comparison. -/
def operand (symbol : Token) : Script (List (Node Unit)) := do
  advance
  let _ ← accept Token.isSpace
  let right ← sequence
  refuseIf right.isEmpty (.missingOperand symbol) nofun
  return right

/-- The right side of a membership test. -/
def set : Script (List (Node Unit)) := do
  advance
  let _ ← accept Token.isSpace
  let right ← sequence
  refuseIf right.isEmpty .missingSet nofun
  return right

/-- What a condition compares its left side with, and how. -/
def comparand : Script (Comparison × List (Node Unit)) := do
  match ← peek with
  | some .equal => return (.equal, ← operand .equal)
  | some .unequal => return (.unequal, ← operand .unequal)
  | some (.keyword .inWord) =>
    let right ← set
    return (Parser.membership false right, right)
  | some (.keyword .notInWord) =>
    let right ← set
    return (Parser.membership true right, right)
  | _ => return (.unequal, [.text ""])

/-- The condition of a block. -/
def condition : Script (Condition Unit) := do
  let left ← sequence
  let (op, right) ← comparand
  return ⟨Parser.stripTrailingSpace left, op, Parser.stripTrailingSpace right⟩

/-- The block behind a keyword, which must not be empty. -/
def wordBlock (word : Keyword) (stops : Token → Bool) : Script (List (Node Unit)) := do
  space word
  let nodes ← block stops
  refuseIf nodes.isEmpty (.emptyBlock word) nofun
  return nodes

/-- A choice by a condition. -/
def ifBlock : Script (List (Node Unit)) := do
  advance
  advance
  space .ifWord
  let c ← condition
  expect (· == .keyword .thenWord) .missingThen nofun
  let yes ← wordBlock .thenWord fun t => t == .keyword .elseWord || t == .op ']'
  if ← accept (· == .keyword .elseWord) then
    let no ← wordBlock .elseWord (· == .op ']')
    expect (· == .op ']') (.unclosedBlock .ifWord) nofun
    return [.ifBlock c (Parser.stripTrailingSpace yes) (some no)]
  else
    expect (· == .op ']') (.unclosedBlock .ifWord) nofun
    return [.ifBlock c yes none]

/-- A loop. -/
def whileBlock : Script (List (Node Unit)) := do
  advance
  advance
  space .whileWord
  let c ← condition
  expect (· == .keyword .doWord) .missingDo nofun
  let body ← wordBlock .doWord (· == .op ']')
  expect (· == .op ']') (.unclosedBlock .whileWord) nofun
  return [.whileBlock c body]

/-- The script of a construct. -/
def construct : Construct → Script (List (Node Unit))
  | .rule => reference
  | .tag => tag
  | .ifBlock => ifBlock
  | .whileBlock => whileBlock

/-- The script of a whole template. -/
def template : Script (List (Node Unit)) :=
  block fun _ => false

/-! ### What scripts read -/

section

variable (inner : Nest)

@[simp] theorem read_pure (a : α) : (pure a : Script α).read inner = pure a :=
  rfl

@[simp] theorem read_bind (p : Script α) (f : α → Script β) :
    (p >>= f).read inner = p.read inner >>= fun a => (f a).read inner :=
  rfl

theorem read_look (f : Option Token × Option Token → Script α) (ts : List Token) :
    (look >>= f).read inner ts = (f (ts.head?, ts.tail.head?)).read inner ts :=
  rfl

theorem read_peek_bind (f : Option Token → Script α) (ts : List Token) :
    (peek >>= f).read inner ts = (f ts.head?).read inner ts :=
  rfl

@[simp] theorem read_peek : peek.read inner = Parser.peek :=
  rfl

@[simp] theorem read_map (f : α → β) (p : Script α) : (f <$> p).read inner = f <$> p.read inner :=
  rfl

@[simp] theorem read_ite (b : Bool) (p q : Script α) :
    (if b then p else q).read inner = if b then p.read inner else q.read inner := by
  cases b <;> rfl

@[simp] theorem read_advance : advance.read inner = Parser.take :=
  rfl

@[simp] theorem read_nested (k : Construct) : (nested k).read inner = inner.read k :=
  rfl

@[simp] theorem read_refuseIf (b : Bool) (r : Fault) (own : r ≠ .nestingTooDeep) :
    (refuseIf b r own).read inner = Parser.refuseIf b r := by
  cases b <;> rfl

@[simp] theorem read_accept (these : Token → Bool) :
    (accept these).read inner = Parser.accept these := by
  funext ts
  cases ts with
  | nil => rfl
  | cons t rest =>
    show (read inner (if these t then _ else _) : Parser Bool) _ = _
    cases h : these t <;> simp [Parser.accept, h] <;> rfl

@[simp] theorem read_expect (these : Token → Bool) (r : Fault) (own : r ≠ .nestingTooDeep) :
    (expect these r own).read inner = Parser.expect these r := by
  funext ts
  cases ts with
  | nil => rfl
  | cons t rest =>
    show (read inner (if these t then _ else _) : Parser Unit) _ = _
    cases h : these t <;> simp [Parser.expect, h] <;> rfl

@[simp] theorem read_name? : name?.read inner = Parser.name? := by
  funext ts
  rcases ts with _ | ⟨t, rest⟩
  · rfl
  · cases t <;> rfl

@[simp] theorem read_name (r : Fault) (own : r ≠ .nestingTooDeep) :
    (name r own).read inner = Parser.name r := by
  funext ts
  rcases ts with _ | ⟨t, rest⟩
  · rfl
  · cases t <;> rfl

theorem read_loop (step : Script (Option α)) {p : Parser (Option α)} (h : step.read inner = p)
    (on : p.Takes Parser.goesOn) : (loop step).read inner = Parser.collect p on := by
  subst h
  exact Parser.loop_eq_collect _ on

@[simp] theorem read_weight (rest : List Token) :
    (some <$> weight).read inner (.op ':' :: rest) = Parser.fragment inner (.op ':' :: rest) := by
  rcases rest with _ | ⟨t, rest⟩
  · rfl
  · cases t <;> rfl

@[simp] theorem read_fragment : fragment.read inner = Parser.fragment inner := by
  funext ts
  rcases ts with _ | ⟨t, rest⟩
  · rfl
  · cases t with
    | op c =>
      by_cases hrule : c = '#' ∨ c = '{'
      · rcases hrule with rfl | rfl <;> rfl
      by_cases htag : c = '['
      · subst htag
        rcases rest with _ | ⟨t, rest⟩
        · rfl
        · cases t with
          | keyword k => cases k <;> rfl
          | _ => rfl
      by_cases hweight : c = ':'
      · subst hweight
        exact read_weight inner rest
      · rw [not_or] at hrule
        rw [fragment, read_look]
        simp [Parser.fragment, hrule, htag, hweight]
        rfl
    | _ => rfl

@[simp] theorem read_stray (stops : Token → Bool) :
    (stray stops).read inner = Parser.stray stops := by
  funext ts
  cases ts with
  | nil => rfl
  | cons t rest =>
    show (read inner (if stops t then _ else _) : Parser (Option (List (Node Unit)))) _ = _
    cases h : stops t <;> simp [Parser.stray, h] <;> rfl

@[simp] theorem read_sequence : sequence.read inner = Parser.sequence inner := by
  have hloop := read_loop inner _ (read_fragment inner) (Parser.takes_fragment inner)
  simp only [sequence, Parser.sequence, read_bind, read_pure, hloop]

@[simp] theorem read_piece (stops : Token → Bool) :
    (piece stops).read inner = Parser.piece inner stops := by
  simp only [piece, Parser.piece, read_bind, read_fragment]
  congr 1
  funext found
  cases found with
  | none => exact read_stray inner stops
  | some nodes => rfl

@[simp] theorem read_block (stops : Token → Bool) :
    (block stops).read inner = Parser.block inner stops := by
  have hloop := read_loop inner _ (read_piece inner stops) (Parser.takes_piece inner stops)
  simp only [block, Parser.block, read_bind, read_pure, hloop]

@[simp] theorem read_nextMember (listing : Listing) (stops : Token → Bool) :
    (nextMember listing stops).read inner = Parser.nextMember inner listing stops := by
  simp only [nextMember, Parser.nextMember, read_bind, read_ite, read_pure, read_accept, read_block,
    read_refuseIf]

@[simp] theorem read_members (listing : Listing) (closer : Char) :
    (members listing closer).read inner = Parser.members inner listing closer := by
  have hloop := read_loop inner _ (read_nextMember inner listing fun t =>
    t == .op ',' || t == .op closer) (Parser.takes_nextMember inner listing _)
  simp only [members, Parser.members, read_bind, read_pure, read_block, hloop]

@[simp] theorem read_candidates (listing : Listing) :
    (candidates listing).read inner = Parser.candidates inner listing := by
  simp only [candidates, Parser.candidates, read_bind, read_pure, read_advance,
    read_members, read_expect]

@[simp] theorem read_parameters : parameters.read inner = Parser.parameters inner := by
  simp only [parameters, Parser.parameters, read_bind, read_ite, read_pure, read_accept,
    read_members, read_expect]

@[simp] theorem read_nextModifier (rule : String) :
    (nextModifier rule).read inner = Parser.nextModifier inner rule := by
  simp only [nextModifier, Parser.nextModifier, read_bind, read_ite, read_pure,
    read_accept, read_name, read_parameters]

@[simp] theorem read_modifiers (rule : String) :
    (modifiers rule).read inner = Parser.modifiers inner rule :=
  read_loop inner _ (read_nextModifier inner rule) (Parser.takes_nextModifier inner rule)

@[simp] theorem read_leadingTag : leadingTag.read inner = Parser.leadingTag inner := by
  funext ts
  rcases ts with _ | ⟨t, rest⟩
  · rfl
  · cases t with
    | op c =>
      by_cases htag : c = '['
      · subst htag
        rfl
      · rw [leadingTag, read_peek_bind]
        simp [Parser.leadingTag, htag]
        rfl
    | _ => rfl

@[simp] theorem read_referenceBody : referenceBody.read inner = Parser.referenceBody inner := by
  simp only [referenceBody, Parser.referenceBody, read_bind, read_name?, read_peek]
  congr 1
  funext found
  congr 1
  funext next
  generalize (next == some (.op '(')) = opens
  cases found with
  | none =>
    cases opens with
    | true => simp only [read_bind, read_pure, read_candidates, read_modifiers, read_expect]
    | false => simp only [read_bind, read_pure, read_modifiers, read_expect]
  | some n =>
    cases opens with
    | true => simp only [read_bind, read_pure, read_candidates, read_expect]
    | false => simp only [read_bind, read_pure, read_modifiers, read_expect]

@[simp] theorem read_reference : reference.read inner = Parser.reference inner := by
  have hloop := read_loop inner _ (read_leadingTag inner) (Parser.takes_leadingTag inner)
  simp only [reference, Parser.reference, read_bind, read_ite, read_pure, read_advance, read_accept,
    read_referenceBody, hloop]

@[simp] theorem read_assignment : assignment.read inner = Parser.assignment inner := by
  simp only [assignment, Parser.assignment, read_bind, read_pure, read_name,
    read_expect, read_members, read_refuseIf]

@[simp] theorem read_tagPart : tagPart.read inner = Parser.tagPart inner := by
  funext ts
  rcases ts with _ | ⟨t, rest⟩
  · rfl
  · rw [tagPart, read_peek_bind]
    cases t with
    | op c =>
      by_cases hend : c = ']'
      · subst hend
        rfl
      by_cases hrule : c = '#' ∨ c = '{'
      · rcases hrule with rfl | rfl <;> rfl
      by_cases htag : c = '['
      · subst htag
        rfl
      · rw [not_or] at hrule
        simp [Parser.tagPart, hend, hrule, htag]
    | _ => simp [Parser.tagPart]

@[simp] theorem read_tag : tag.read inner = Parser.tag inner := by
  have hloop := read_loop inner _ (read_tagPart inner) (Parser.takes_tagPart inner)
  simp only [tag, Parser.tag, read_bind, read_pure, read_advance, read_refuseIf, hloop]

@[simp] theorem read_space (word : Keyword) : (space word).read inner = Parser.space word :=
  read_expect inner _ _ _

@[simp] theorem read_operand (symbol : Token) :
    (operand symbol).read inner = Parser.operand inner symbol := by
  simp only [operand, Parser.operand, read_bind, read_pure, read_advance, read_accept,
    read_sequence, read_refuseIf]

@[simp] theorem read_set : set.read inner = Parser.set inner := by
  simp only [set, Parser.set, read_bind, read_pure, read_advance, read_accept, read_sequence,
    read_refuseIf]

@[simp] theorem read_comparand : comparand.read inner = Parser.comparand inner := by
  simp only [comparand, Parser.comparand, read_bind, read_peek]
  congr 1
  funext next
  split <;> simp only [read_bind, read_pure, read_operand, read_set]

@[simp] theorem read_condition : condition.read inner = Parser.condition inner := by
  simp only [condition, Parser.condition, read_bind, read_pure, read_sequence, read_comparand]

@[simp] theorem read_wordBlock (word : Keyword) (stops : Token → Bool) :
    (wordBlock word stops).read inner = Parser.wordBlock inner word stops := by
  simp only [wordBlock, Parser.wordBlock, read_bind, read_pure, read_space, read_block,
    read_refuseIf]

@[simp] theorem read_ifBlock : ifBlock.read inner = Parser.ifBlock inner := by
  simp only [ifBlock, Parser.ifBlock, read_bind, read_ite, read_pure, read_advance, read_space,
    read_condition, read_expect, read_wordBlock, read_accept]

@[simp] theorem read_whileBlock : whileBlock.read inner = Parser.whileBlock inner := by
  simp only [whileBlock, Parser.whileBlock, read_bind, read_pure, read_advance, read_space,
    read_condition, read_expect, read_wordBlock]

/-- **The script of a construct** reads what the parser of the construct reads. -/
theorem read_construct (k : Construct) : (construct k).read inner = Parser.construct inner k := by
  cases k with
  | rule => exact read_reference inner
  | tag => exact read_tag inner
  | ifBlock => exact read_ifBlock inner
  | whileBlock => exact read_whileBlock inner

/-- **The script of a template** reads what the parser reads at the outermost level. -/
theorem read_template : template.read inner = Parser.block inner fun _ => false :=
  read_block inner _

end

end Script

end TemplateGrammar
