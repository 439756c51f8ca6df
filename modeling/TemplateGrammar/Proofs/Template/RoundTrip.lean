import TemplateGrammar.Proofs.Template.Lists

/-!
# What is written is read back

A construct whose parts are read by the reader of nested constructs is read itself by the reader
that may open one level more (`parses_construct`).  So a legible template is read by every reader
that may open as many levels as its constructs nest, and what `Node.template` writes down
`parseText` reads back (`parseText_template`).
-/

namespace TemplateGrammar

namespace Parser

variable {inner : Nest}

/-! ### References and tags -/

theorem leadingTags_none {t : Token} (h : t ≠ .op '[') (rest : List Token) :
    collect (leadingTag inner) (takes_leadingTag inner) (t :: rest) = .ok [] (t :: rest) := by
  refine collect_none _ ?_
  unfold leadingTag
  split
  · rename_i heq
    exact absurd (List.cons.inj heq).1 h
  · rfl

theorem reference_tokens (opener t : Token) {rest left : List Token} {n : Node Unit}
    (ht : t ≠ .op '[') (hc : closesRule t = false)
    (hbody : referenceBody inner (t :: rest) = .ok n left) :
    reference inner (opener :: t :: rest) = .ok [n] left := by
  rw [reference, bind_ok (take_cons opener), bind_ok (leadingTags_none ht rest),
    bind_ok (accept_other hc)]
  simp only [Bool.false_eq_true, if_false]
  rw [bind_ok hbody]
  rfl

theorem chain_then_close (rule : String) {mods : List (Modifier Unit)}
    (hp : ∀ v ∈ mods.flatMap Modifier.parameters, PartRead inner v) {mark : Char}
    (hm : mark = '#' ∨ mark = '}') (rest : List Token) :
    modifiers inner rule (Node.chainTokens mods ++ .op mark :: rest) =
      .ok mods (.op mark :: rest) := by
  refine modifiers_tokens rule hp (of_head ?_)
  rcases hm with rfl | rfl <;> decide

theorem referenceBody_rule (name : String) {mods : List (Modifier Unit)}
    (hp : ∀ v ∈ mods.flatMap Modifier.parameters, PartRead inner v) (rest : List Token) :
    referenceBody inner (.text name :: (Node.chainTokens mods ++ .op '#' :: rest)) =
      .ok (.rule name mods) rest := by
  have hname : name? (.text name :: (Node.chainTokens mods ++ .op '#' :: rest)) =
      .ok (some name) (Node.chainTokens mods ++ .op '#' :: rest) := rfl
  have hnext : ((Node.chainTokens mods ++ .op '#' :: rest).head? == some (.op '(')) = false := by
    cases mods with
    | nil => rfl
    | cons m more =>
      obtain ⟨n, values⟩ := m
      cases values <;> rfl
  have hpeek : peek (Node.chainTokens mods ++ .op '#' :: rest) =
      .ok (Node.chainTokens mods ++ .op '#' :: rest).head?
        (Node.chainTokens mods ++ .op '#' :: rest) := rfl
  rw [referenceBody, bind_ok hname, bind_ok hpeek]
  simp only [hnext]
  rw [show (some name).getD "" = name from rfl, bind_ok (chain_then_close name hp (.inl rfl) rest),
    bind_ok (expect_head rfl _)]
  rfl

theorem referenceBody_define (name : String) {values : List (List (Node Unit))}
    (hp : ∀ v ∈ values, PartRead inner v) (hne : values ≠ []) (rest : List Token) :
    referenceBody inner (.text name :: .op '(' ::
      (Node.valueTokens values ++ .op ')' :: .op '}' :: rest)) =
      .ok (.define name values) rest := by
  have hname : name? (.text name :: .op '(' ::
      (Node.valueTokens values ++ .op ')' :: .op '}' :: rest)) =
      .ok (some name) (.op '(' :: (Node.valueTokens values ++ .op ')' :: .op '}' :: rest)) := rfl
  have hpeek : peek (.op '(' :: (Node.valueTokens values ++ .op ')' :: .op '}' :: rest)) =
      .ok (some (.op '(')) (.op '(' :: (Node.valueTokens values ++ .op ')' :: .op '}' :: rest)) :=
      rfl
  rw [referenceBody, bind_ok hname, bind_ok hpeek]
  simp only [BEq.rfl]
  rw [bind_ok (candidates_tokens .candidates hp hne _), bind_ok (expect_head rfl _)]
  rfl

theorem referenceBody_choice {values : List (List (Node Unit))} {mods : List (Modifier Unit)}
    (hp : ∀ v ∈ values, PartRead inner v) (hne : values ≠ [])
    (hm : ∀ v ∈ mods.flatMap Modifier.parameters, PartRead inner v) (rest : List Token) :
    referenceBody inner
        (.op '(' :: (Node.valueTokens values ++ .op ')' ::
          (Node.chainTokens mods ++ .op '}' :: rest))) =
      .ok (.choice () values mods) rest := by
  have hname : name? (.op '(' :: (Node.valueTokens values ++ .op ')' ::
      (Node.chainTokens mods ++ .op '}' :: rest))) =
      .ok none (.op '(' :: (Node.valueTokens values ++ .op ')' ::
        (Node.chainTokens mods ++ .op '}' :: rest))) := rfl
  have hpeek : peek (.op '(' :: (Node.valueTokens values ++ .op ')' ::
      (Node.chainTokens mods ++ .op '}' :: rest))) =
      .ok (some (.op '('))
        (.op '(' :: (Node.valueTokens values ++ .op ')' ::
          (Node.chainTokens mods ++ .op '}' :: rest))) := rfl
  rw [referenceBody, bind_ok hname, bind_ok hpeek]
  simp only [BEq.rfl]
  rw [bind_ok (candidates_tokens .choices hp hne _),
    bind_ok (chain_then_close "inline rule" hm (.inr rfl) rest),
    bind_ok (expect_head rfl _)]
  rfl

theorem tag_tokens (name : String) {values : List (List (Node Unit))}
    (hp : ∀ v ∈ values, PartRead inner v) (hne : values ≠ []) (rest : List Token) :
    tag inner (.op '[' :: .text name :: .op ':' :: (Node.valueTokens values ++ .op ']' :: rest)) =
      .ok [.tag name values] rest := by
  have hname : Parser.name .missingTagName
      (.text name :: .op ':' :: (Node.valueTokens values ++ .op ']' :: rest)) =
      .ok name (.op ':' :: (Node.valueTokens values ++ .op ']' :: rest)) := rfl
  have hfull : (values.headD []).isEmpty = false := by
    cases values with
    | nil => exact absurd rfl hne
    | cons v more => simpa using (hp v List.mem_cons_self).2
  have hassign : assignment inner (.text name :: .op ':' ::
      (Node.valueTokens values ++ .op ']' :: rest)) =
      .ok [.tag name values] (.op ']' :: rest) := by
    rw [assignment, bind_ok hname, bind_ok (expect_head rfl _),
      bind_ok (members_tokens (.inr rfl) .tagValues hp hne rest), bind_ok (refuseIf_false hfull _)]
    rfl
  have hpart : tagPart inner (.text name :: .op ':' ::
      (Node.valueTokens values ++ .op ']' :: rest)) =
      .ok (some [.tag name values]) (.op ']' :: rest) := map_ok hassign some
  have hparts := collect_some (takes_tagPart inner) hpart (collect_none (takes_tagPart inner) rfl)
  have hsome : [[Node.tag name values]].isEmpty = false := rfl
  rw [tag, bind_ok (take_cons _), bind_ok hparts, bind_ok (refuseIf_false hsome _),
    bind_ok (take_cons _)]
  rfl

/-! ### Blocks -/

section Words

variable {left right yes no : List (Node Unit)} {conditionTokens : List Token} {c : Condition Unit}
  {s s' s'' : Token} (hs : s.isSpace = true) (hs' : s'.isSpace = true) (hs'' : s''.isSpace = true)
  {rest : List Token}

/-- A comparison against this right side: against a text, a membership test is none. -/
def against (op : Comparison) (right : List (Node Unit)) : Comparison :=
  match op with
  | .among => membership false right
  | .notAmong => membership true right
  | op => op

/-- **The tokens of a condition,** with whatever token behind them ends it. -/
def ReadsCondition (inner : Nest) (conditionTokens : List Token) (c : Condition Unit) : Prop :=
  ∀ rest, (∀ t ∈ rest.head?, startsNode t = false) →
    condition inner (conditionTokens ++ rest) = .ok c rest

include hs

theorem operand_tokens (symbol : Token) (hr : PartRead inner right)
    (hrest : ∀ t ∈ rest.head?, startsNode t = false) :
    operand inner symbol (symbol :: s :: (Node.listTokens right ++ rest)) = .ok right rest := by
  have hfull : right.isEmpty = false := by simpa using hr.2
  rw [operand, bind_ok (take_cons _), bind_ok (accept_head hs),
    bind_ok (sequence_tokens hr.1 hrest),
    bind_ok (refuseIf_false hfull _)]
  rfl

theorem set_tokens (symbol : Token) (hr : PartRead inner right)
    (hrest : ∀ t ∈ rest.head?, startsNode t = false) :
    set inner (symbol :: s :: (Node.listTokens right ++ rest)) = .ok right rest := by
  have hfull : right.isEmpty = false := by simpa using hr.2
  rw [set, bind_ok (take_cons _), bind_ok (accept_head hs), bind_ok (sequence_tokens hr.1 hrest),
    bind_ok (refuseIf_false hfull _)]
  rfl

theorem comparand_tokens (op : Comparison) (hr : PartRead inner right)
    (hrest : ∀ t ∈ rest.head?, startsNode t = false) :
    comparand inner (op.token :: s :: (Node.listTokens right ++ rest)) =
      .ok (against op right, right) rest := by
  have hpeek : peek (op.token :: s :: (Node.listTokens right ++ rest)) =
      .ok (some op.token) (op.token :: s :: (Node.listTokens right ++ rest)) := rfl
  rw [comparand, bind_ok hpeek]
  cases op with
  | equal =>
    have h := operand_tokens hs .equal hr hrest
    simp only [Comparison.token]
    rw [bind_ok h]
    rfl
  | unequal =>
    have h := operand_tokens hs .unequal hr hrest
    simp only [Comparison.token]
    rw [bind_ok h]
    rfl
  | among =>
    have h := set_tokens hs (.keyword .inWord) hr hrest
    simp only [Comparison.token]
    rw [bind_ok h]
    rfl
  | notAmong =>
    have h := set_tokens hs (.keyword .notInWord) hr hrest
    simp only [Comparison.token]
    rw [bind_ok h]
    rfl

/-- **A condition,** with any blank behind its operator.  Of what stands in front of a word a space
is taken off. -/
theorem condition_words (op : Comparison) (hl : PartRead inner left) (hr : PartRead inner right) :
    ReadsCondition inner (Node.listTokens left ++ op.token :: s :: Node.listTokens right)
      ⟨stripTrailingSpace left, against op right, stripTrailingSpace right⟩ := by
  intro rest hrest
  have hop : startsNode op.token = false := by cases op <;> rfl
  have hleft : sequence inner (Node.listTokens left ++ op.token :: s ::
      (Node.listTokens right ++ rest)) =
      .ok left (op.token :: s :: (Node.listTokens right ++ rest)) :=
      sequence_tokens hl.1 (of_head hop)
  have htokens : Node.listTokens left ++ op.token :: s :: Node.listTokens right ++ rest =
      Node.listTokens left ++ op.token :: s :: (Node.listTokens right ++ rest) := by simp
  rw [condition, htokens, bind_ok hleft, bind_ok (comparand_tokens hs op hr hrest)]
  rfl

theorem wordBlock_words (word : Keyword) {stops : Token → Bool} {nodes : List (Node Unit)}
    (h : PartRead inner nodes) (hrest : Closes stops rest) :
    wordBlock inner word stops (s :: (Node.listTokens nodes ++ rest)) = .ok nodes rest := by
  have hfull : nodes.isEmpty = false := by simpa using h.2
  have hspace : space word (s :: (Node.listTokens nodes ++ rest)) =
      .ok () (Node.listTokens nodes ++ rest) :=
    expect_head hs _
  rw [wordBlock, bind_ok hspace, bind_ok (block_tokens h.1 hrest), bind_ok (refuseIf_false hfull _)]
  rfl

include hs'

/-- **A loop,** with any blanks behind its words. -/
theorem whileBlock_words (hc : ReadsCondition inner conditionTokens c) (hy : PartRead inner yes)
    (rest : List Token) :
    whileBlock inner (.op '[' :: .keyword .whileWord :: s ::
      (conditionTokens ++ .keyword .doWord :: s' ::
      (Node.listTokens yes ++ .op ']' :: rest))) = .ok [.whileBlock c yes] rest := by
  have hspace : ∀ more, space .whileWord (s :: more) = .ok () more := fun _ => expect_head hs _
  have hcloses : Closes (· == .op ']') (.op ']' :: rest) := closes_cons rfl rfl
  have hbody := wordBlock_words hs' .doWord hy hcloses
  rw [whileBlock, bind_ok (take_cons _), bind_ok (take_cons _), bind_ok (hspace _),
    bind_ok (hc _ (by simp [startsNode])), bind_ok (expect_head rfl _), bind_ok hbody,
    bind_ok (expect_head rfl _)]
  rfl

/-- **A block with one part,** with any blanks behind its words. -/
theorem ifBlock_words_none (hc : ReadsCondition inner conditionTokens c) (hy : PartRead inner yes)
    (rest : List Token) :
    ifBlock inner (.op '[' :: .keyword .ifWord :: s ::
      (conditionTokens ++ .keyword .thenWord :: s' ::
      (Node.listTokens yes ++ .op ']' :: rest))) = .ok [.ifBlock c yes none] rest := by
  have hspace : ∀ more, space .ifWord (s :: more) = .ok () more := fun _ => expect_head hs _
  have hcloses : Closes (fun t => t == .keyword .elseWord || t == .op ']') (.op ']' :: rest) :=
    closes_cons rfl rfl
  have hyes := wordBlock_words hs' .thenWord hy hcloses
  have hno : accept (· == .keyword .elseWord) (.op ']' :: rest) = .ok false (.op ']' :: rest) :=
    accept_other rfl
  rw [ifBlock, bind_ok (take_cons _), bind_ok (take_cons _), bind_ok (hspace _),
    bind_ok (hc _ (by simp [startsNode])), bind_ok (expect_head rfl _), bind_ok hyes, bind_ok hno]
  simp only [Bool.false_eq_true, if_false]
  rw [bind_ok (expect_head rfl _)]
  rfl

include hs''

/-- **A block with two parts,** with any blanks behind its words. -/
theorem ifBlock_words_some (hc : ReadsCondition inner conditionTokens c) (hy : PartRead inner yes)
    (hn : PartRead inner no) (rest : List Token) :
    ifBlock inner (.op '[' :: .keyword .ifWord :: s ::
      (conditionTokens ++ .keyword .thenWord :: s' ::
      (Node.listTokens yes ++ .keyword .elseWord :: s'' ::
        (Node.listTokens no ++ .op ']' :: rest)))) =
      .ok [.ifBlock c (stripTrailingSpace yes) (some no)] rest := by
  have hspace : ∀ more, space .ifWord (s :: more) = .ok () more := fun _ => expect_head hs _
  have hcloses : Closes (fun t => t == .keyword .elseWord || t == .op ']')
      (.keyword .elseWord :: s'' :: (Node.listTokens no ++ .op ']' :: rest)) := closes_cons rfl rfl
  have hyes := wordBlock_words hs' .thenWord hy hcloses
  have hends : Closes (· == .op ']') (.op ']' :: rest) := closes_cons rfl rfl
  have hno := wordBlock_words hs'' .elseWord hn hends
  rw [ifBlock, bind_ok (take_cons _), bind_ok (take_cons _), bind_ok (hspace _),
    bind_ok (hc _ (by simp [startsNode])), bind_ok (expect_head rfl _), bind_ok hyes,
    bind_ok (accept_head rfl)]
  simp only [if_true]
  rw [bind_ok hno, bind_ok (expect_head rfl _)]
  rfl

end Words

/-! ### Blocks as they are written -/

theorem isSpace_space : Token.isSpace (.text " ") = true :=
  rfl

theorem PartRead.spaced {part : List (Node Unit)} (h : PartRead inner part) :
    PartRead inner (Node.spaced part) :=
  ⟨h.1.spaced, by simpa using spaced_isEmpty part⟩

/-- Against what does not begin with a text, a membership test stays one. -/
theorem against_spaced (op : Comparison) {right : List (Node Unit)} (hne : right ≠ [])
    (ht : op = .among ∨ op = .notAmong → ∀ n ∈ right.head?, n.isText = false) :
    against op (Node.spaced right) = op := by
  have hstays : ∀ negated, (∀ n ∈ right.head?, n.isText = false) →
      membership negated (Node.spaced right) = if negated then .notAmong else .among := by
    intro negated hhead
    cases right with
    | nil => exact absurd rfl hne
    | cons n more =>
      have hn : n.isText = false := hhead n rfl
      cases n with
      | text s => cases hn
      | _ => rfl
  cases op with
  | equal => rfl
  | unequal => rfl
  | among => exact hstays false (ht (.inl rfl))
  | notAmong => exact hstays true (ht (.inr rfl))

section Conditional

variable {c : Condition Unit} (hl : PartRead inner c.left) (hr : PartRead inner c.right)
  (ht : c.op = .among ∨ c.op = .notAmong → ∀ n ∈ c.right.head?, n.isText = false)

include hl hr ht

theorem condition_tokens : ReadsCondition inner (Node.conditionTokens c) c := by
  obtain ⟨left, op, right⟩ := c
  have hwords := condition_words isSpace_space op hl.spaced hr.spaced
  rw [stripTrailingSpace_spaced hl.1, stripTrailingSpace_spaced hr.1, against_spaced op hr.2 ht,
    Node.listTokens_spaced, Node.listTokens_spaced] at hwords
  exact hwords

theorem whileBlock_tokens {body : List (Node Unit)} (hb : PartRead inner body) (rest : List Token) :
    whileBlock inner ((Node.whileBlock c body).tokens ++ rest) = .ok [.whileBlock c body] rest := by
  rw [← whileBlock_words isSpace_space isSpace_space (condition_tokens hl hr ht) hb rest]
  simp [Node.tokens]

theorem ifBlock_tokens_none {yes : List (Node Unit)} (hy : PartRead inner yes) (rest : List Token) :
    ifBlock inner ((Node.ifBlock c yes none).tokens ++ rest) = .ok [.ifBlock c yes none] rest := by
  rw [← ifBlock_words_none isSpace_space isSpace_space (condition_tokens hl hr ht) hy rest]
  simp [Node.tokens]

theorem ifBlock_tokens_some {yes no : List (Node Unit)} (hy : PartRead inner yes)
    (hn : PartRead inner no) (rest : List Token) :
    ifBlock inner ((Node.ifBlock c yes (some no)).tokens ++ rest) =
      .ok [.ifBlock c yes (some no)] rest := by
  have hwords := ifBlock_words_some isSpace_space isSpace_space isSpace_space
    (condition_tokens hl hr ht) hy.spaced hn rest
  rw [stripTrailingSpace_spaced hy.1, Node.listTokens_spaced] at hwords
  rw [← hwords]
  simp [Node.tokens]

end Conditional

/-! ### Every node -/

/-- **A construct is read where its parts are read one level further in.** -/
theorem parses_construct {d : Nat} {n : Node Unit} (hs : n.Sound)
    (hp : ∀ part ∈ n.parts, PartRead (nest d) part) :
    Parses (nest (d + 1)) n := by
  intro rest
  cases n with
  | text s => exact parses_text _ s rest
  | weight k => exact parses_weight _ k rest
  | rule name mods =>
    have htokens : (Node.rule name mods).tokens ++ rest =
        .op '#' :: .text name :: (Node.chainTokens mods ++ .op '#' :: rest) := by simp [Node.tokens]
    rw [htokens]
    exact map_ok (reference_tokens (.op '#') (.text name) (by simp)
      rfl (referenceBody_rule name hp rest)) some
  | tag name values =>
    have htokens : (Node.tag name values).tokens ++ rest =
        .op '[' :: .text name :: .op ':' :: (Node.valueTokens values ++ .op ']' :: rest) := by
      simp [Node.tokens]
    rw [htokens]
    exact map_ok (tag_tokens name hp hs.2 rest) some
  | define name values =>
    have htokens : (Node.define name values).tokens ++ rest =
        .op '{' :: .text name :: .op '(' :: (Node.valueTokens values ++ .op ')' ::
          .op '}' :: rest) := by
      simp [Node.tokens]
    rw [htokens]
    exact map_ok (reference_tokens (.op '{') (.text name) (by simp)
      rfl (referenceBody_define name hp hs.2 rest)) some
  | choice site values mods =>
    have htokens : (Node.choice site values mods).tokens ++ rest =
        .op '{' :: .op '(' :: (Node.valueTokens values ++ .op ')' ::
          (Node.chainTokens mods ++ .op '}' :: rest)) := by
      simp [Node.tokens]
    have hvalues : ∀ v ∈ values, PartRead (nest d) v := fun v hv => hp v (List.mem_append_left _ hv)
    have hmods : ∀ v ∈ mods.flatMap Modifier.parameters, PartRead (nest d) v := fun v hv =>
      hp v (List.mem_append_right values hv)
    rw [htokens]
    have hbody := referenceBody_choice hvalues hs.1 hmods rest
    exact map_ok (reference_tokens (.op '{') (.op '(') (by decide) rfl hbody) some
  | ifBlock c yes no =>
    have hl := hp c.left (by simp [Node.parts])
    have hr := hp c.right (by simp [Node.parts])
    have hy := hp yes (by simp [Node.parts])
    cases no with
    | none => exact map_ok (ifBlock_tokens_none hl hr hs hy rest) some
    | some no =>
      have hn := hp no (by simp [Node.parts])
      exact map_ok (ifBlock_tokens_some hl hr hs hy hn rest) some
  | whileBlock c body =>
    have hl := hp c.left (by simp [Node.parts])
    have hr := hp c.right (by simp [Node.parts])
    have hb := hp body (by simp [Node.parts])
    exact map_ok (whileBlock_tokens hl hr hs hb rest) some

/-- A legible list is read by the reader that may open as many levels as the list has. -/
theorem partParses_of_nestsWithin {d : Nat} {nodes : List (Node Unit)} (h : Node.Legible nodes)
    (hd : Node.NestsWithin d nodes) : PartParses (nest d) nodes := by
  have hfilled : ∀ s, Node.text s ∈ nodes → s ≠ "" := fun s hs => h.here.sound (.text s) hs
  refine ⟨?_, h.here.apart, hfilled⟩
  induction d generalizing nodes with
  | zero =>
    intro n hn
    have hleaf : n.isLeaf = true := hd n hn
    cases n with
    | text s => exact parses_text _ s
    | weight k => exact parses_weight _ k
    | _ => cases hleaf
  | succ d ih =>
    intro n hn
    refine parses_construct (h.here.sound n hn) fun part hpart => ?_
    have hpartLegible : Node.Legible part := h.inside n hn part hpart
    have hpartFilled : ∀ s, Node.text s ∈ part → s ≠ "" :=
      fun s hs => hpartLegible.here.sound (.text s) hs
    have heach := ih hpartLegible (hd n hn part hpart) hpartFilled
    exact ⟨⟨heach, hpartLegible.here.apart, hpartFilled⟩, h.here.full n hn part hpart⟩

end Parser

/-- **The tokens of a legible template** are parsed to it, if its constructs nest no deeper than the
parser goes. -/
theorem parse_listTokens {nodes : List (Node Unit)} (h : Node.Legible nodes)
    (hd : Node.NestsWithin maxNesting nodes) :
    parse (Node.listTokens nodes) = .ok nodes := by
  have hread := Parser.partParses_of_nestsWithin h hd
  have hend : Parser.Closes (fun _ => false) [] := by simp [Parser.Closes]
  have hall := Parser.block_tokens hread hend
  rw [List.append_nil] at hall
  rw [parse, hall]

/-- **What is written is read back.**  A legible template whose constructs nest no deeper than the
parser goes is, as it is written, a text that the parser accepts, and it reads the very same nodes
from it. -/
theorem parseText_template (nodes : List (Node Unit)) (h : Node.Legible nodes)
    (hd : Node.NestsWithin maxNesting nodes) : parseText (Node.template nodes) = .ok nodes := by
  rw [parseText, Node.tokenize_template h, parse_listTokens h hd]

/-- A block whose condition asks whether what a rule gives, put through a modifier, is one of two
candidates. -/
def membershipBlock : List (Node Unit) :=
  [.ifBlock ⟨[.rule "r" [⟨"m", [[.text "p"]]⟩]], .among,
    [.choice () [[.text "a"], [.text "b", .weight 2]] []]⟩
    [.text "x"] (some [.tag "t" [[.rule "q" []]]])]

example :
    Node.template membershipBlock =
      "[if #\\r.\\m(\\p)# in \x7b(\\a,\\b:2)\x7d then \\x else [\\t:#\\q#]]" := by
  decide

theorem parseText_membershipBlock :
    Node.Legible membershipBlock ∧ Node.NestsWithin maxNesting membershipBlock ∧
      parseText (Node.template membershipBlock) = .ok membershipBlock := by
  have hthroughout : Node.ThroughoutWithin Node.Clean 3 membershipBlock := by decide
  have hd : Node.NestsWithin 3 membershipBlock := by decide
  have hmax : Node.NestsWithin maxNesting membershipBlock := hd.mono (by decide)
  exact ⟨hthroughout.throughout, hmax, parseText_template membershipBlock
    hthroughout.throughout hmax⟩

end TemplateGrammar
