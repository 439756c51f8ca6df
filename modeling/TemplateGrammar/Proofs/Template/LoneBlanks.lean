import Mathlib.Data.List.Infix
import TemplateGrammar.Proofs.Template.RoundTrip
import TemplateGrammar.Proofs.Template.Vain
import TemplateGrammar.Proofs.Token.Pieces

/-!
# Blocks that end up empty

A block with nothing in it is refused, and so is a comparison with nothing; but only then is the
blank at the end taken off, in front of an `else` and behind a comparison.  So a lone blank is let
pass and taken off, and the block is empty after all.  That is the one way: `Node.Occupied` says of
a node what may be empty in it, and what then stands in the tokens.  Of every node of a template the
tokens that were read for it say so (`every_occupiedItself`), and therefore all tokens together
(`parseText_occupied`).

The other way round, a right side is empty wherever nothing but a lone blank stands behind the
operator and its space (`Parser.right_eq_nil_iff`), and so is a block between `then` and `else`
(`Parser.thenBlock_of_blank`).  But in front of an `else` empty references may stand beside the
blank, for texts are merged there, and what is read of a construct and is nothing but texts is empty
and written with marks only.
-/

namespace TemplateGrammar

/-- A lone blank between `then` and `else`, among nothing but marks, at the front of some tokens. -/
def blankThenAt : List Token → Bool
  | .keyword .thenWord :: space :: rest =>
    match rest.dropWhile Token.isMark with
    | blank :: more =>
      space.isSpace && blank == .text " " &&
        (more.dropWhile Token.isMark).head? == some (.keyword .elseWord)
    | [] => false
  | _ => false

/-- A lone blank between the operator of a condition and the word behind the condition, at the front
of some tokens. -/
def blankOperandAt : List Token → Bool
  | operator :: space :: blank :: word :: _ =>
    [.equal, .unequal, .keyword .inWord, .keyword .notInWord].contains operator && space.isSpace &&
      blank == .text " " && [.keyword .thenWord, .keyword .doWord].contains word
  | _ => false

/-- **A lone blank stands behind a `then`.** -/
def BlankThen (tokens : List Token) : Prop :=
  ∃ ts ∈ tokens.tails, blankThenAt ts = true

/-- **A lone blank stands behind an operator.** -/
def BlankOperand (tokens : List Token) : Prop :=
  ∃ ts ∈ tokens.tails, blankOperandAt ts = true

instance (tokens : List Token) : Decidable (BlankThen tokens) :=
  inferInstanceAs (Decidable (∃ ts ∈ tokens.tails, blankThenAt ts = true))

instance (tokens : List Token) : Decidable (BlankOperand tokens) :=
  inferInstanceAs (Decidable (∃ ts ∈ tokens.tails, blankOperandAt ts = true))

theorem blankThenAt_of_marks {space : Token} {before after rest : List Token}
    (hspace : space.isSpace = true) (hmarks : ∀ t ∈ before ++ after, t.isMark = true) :
    blankThenAt (.keyword .thenWord :: space ::
      (before ++ .text " " :: (after ++ .keyword .elseWord :: rest))) = true := by
  rw [List.forall_mem_append] at hmarks
  have hbefore : (before ++ .text " " :: (after ++ .keyword .elseWord :: rest)).dropWhile
      Token.isMark = .text " " :: (after ++ .keyword .elseWord :: rest) := by
    rw [List.dropWhile_append_of_pos hmarks.1]
    rfl
  have hafter : (after ++ .keyword .elseWord :: rest).dropWhile Token.isMark =
      .keyword .elseWord :: rest := by
    rw [List.dropWhile_append_of_pos hmarks.2]
    rfl
  simp only [blankThenAt, hbefore, hafter, hspace, List.head?_cons, beq_self_eq_true, Bool.and_self]

theorem blankOperandAt_token (operator : Comparison) {space word : Token}
    (hspace : space.isSpace = true) (hword : word ∈ [.keyword .thenWord, .keyword .doWord])
    (rest : List Token) :
    blankOperandAt (operator.token :: space :: .text " " :: word :: rest) = true := by
  have hoperator : operator.token ∈
      [.equal, .unequal, .keyword .inWord, .keyword .notInWord] := by
    cases operator <;> decide
  simp only [blankOperandAt, hspace, beq_self_eq_true, Bool.and_true, Bool.and_eq_true,
    List.contains_iff_mem]
  exact ⟨hoperator, hword⟩

theorem blankThenAt_append {ts : List Token} (h : blankThenAt ts = true) (more : List Token) :
    blankThenAt (ts ++ more) = true := by
  unfold blankThenAt at h
  split at h
  · rename_i space rest
    split at h
    · rename_i blank after hbefore
      simp only [Bool.and_eq_true, beq_iff_eq] at h
      obtain ⟨⟨hspace, rfl⟩, helse⟩ := h
      obtain ⟨last, hafter⟩ := List.head?_eq_some_iff.mp helse
      simp [blankThenAt, List.dropWhile_append, hbefore, hspace, hafter]
    · cases h
  · cases h

theorem blankOperandAt_append {ts : List Token} (h : blankOperandAt ts = true)
    (more : List Token) : blankOperandAt (ts ++ more) = true := by
  unfold blankOperandAt at h
  split at h
  · exact h
  · cases h

theorem exists_tails_mono {at? : List Token → Bool}
    (happend : ∀ {ts}, at? ts = true → ∀ more, at? (ts ++ more) = true) {taken tokens : List Token}
    (hpart : taken <:+: tokens) (h : ∃ ts ∈ taken.tails, at? ts = true) :
    ∃ ts ∈ tokens.tails, at? ts = true := by
  obtain ⟨ts, hts, hat⟩ := h
  obtain ⟨before, rfl⟩ := (List.mem_tails _ _).mp hts
  obtain ⟨first, last, rfl⟩ := hpart
  exact ⟨ts ++ last, (List.mem_tails _ _).mpr ⟨first ++ before, by simp⟩, happend hat last⟩

theorem BlankThen.mono {taken tokens : List Token} (h : BlankThen taken)
    (hpart : taken <:+: tokens) : BlankThen tokens :=
  exists_tails_mono blankThenAt_append hpart h

theorem BlankOperand.mono {taken tokens : List Token} (h : BlankOperand taken)
    (hpart : taken <:+: tokens) : BlankOperand tokens :=
  exists_tails_mono blankOperandAt_append hpart h

/-- **A right side is empty** only in a comparison, and only where a lone blank stands. -/
def Condition.Occupied (tokens : List Token) (c : Condition Unit) : Prop :=
  c.right = [] → (c.op = .equal ∨ c.op = .unequal) ∧ BlankOperand tokens

namespace Node

/-- **A block is empty** only in front of an `else`, and only where a lone blank stands. -/
def Occupied (tokens : List Token) : Node Unit → Prop
  | ifBlock c yes no =>
    c.Occupied tokens ∧ (yes = [] → no.isSome = true ∧ BlankThen tokens) ∧ ∀ block ∈ no, block ≠ []
  | whileBlock c body => c.Occupied tokens ∧ body ≠ []
  | _ => True

theorem Occupied.mono {taken tokens : List Token} {n : Node Unit} (h : n.Occupied taken)
    (hpart : taken <:+: tokens) : n.Occupied tokens := by
  cases n with
  | ifBlock c yes no =>
    exact ⟨fun hnil => ⟨(h.1 hnil).1, (h.1 hnil).2.mono hpart⟩,
      fun hnil => ⟨(h.2.1 hnil).1, (h.2.1 hnil).2.mono hpart⟩, h.2.2⟩
  | whileBlock c body =>
    exact ⟨fun hnil => ⟨(h.1 hnil).1, (h.1 hnil).2.mono hpart⟩, h.2⟩
  | _ => trivial

/-- **What has been read of a construct tells what is empty in it:** the tokens that the reader of
some level took for it, and no others. -/
def OccupiedItself (tokens : List Token) (n : Node Unit) : Prop :=
  ∀ k ∈ n.construct?, ∃ d taken nodes rest, taken ++ rest <:+ tokens ∧
    Parser.construct (nest d) k (taken ++ rest) = .ok nodes rest ∧ n ∈ nodes ∧
      n.Occupied taken

theorem OccupiedItself.occupied {tokens : List Token} {n : Node Unit}
    (h : n.OccupiedItself tokens) : n.Occupied tokens := by
  have hall : ∀ k ∈ n.construct?, n.Occupied tokens := by
    intro k hk
    obtain ⟨d, taken, nodes, rest, hts, -, -, hn⟩ := h k hk
    exact hn.mono ((List.prefix_append taken rest).isInfix.trans hts.isInfix)
  cases n with
  | ifBlock c yes no => exact hall .ifBlock rfl
  | whileBlock c body => exact hall .whileBlock rfl
  | _ => trivial

/-- No block is empty, and no right side. -/
def Full : Node Unit → Prop
  | ifBlock c yes no => c.right ≠ [] ∧ yes ≠ [] ∧ ∀ block ∈ no, block ≠ []
  | whileBlock c body => c.right ≠ [] ∧ body ≠ []
  | _ => True

instance : DecidablePred Full
  | ifBlock c yes no => inferInstanceAs
    (Decidable (c.right ≠ [] ∧ yes ≠ [] ∧ ∀ block ∈ no, block ≠ []))
  | whileBlock c body => inferInstanceAs (Decidable (c.right ≠ [] ∧ body ≠ []))
  | text _ | weight _ | rule .. | tag .. | define .. | choice .. => isTrue trivial

theorem Occupied.full {tokens : List Token} {n : Node Unit} (h : n.Occupied tokens)
    (hthen : ¬ BlankThen tokens) (hoperand : ¬ BlankOperand tokens) : n.Full := by
  cases n with
  | ifBlock c yes no =>
    exact ⟨fun hnil => hoperand (h.1 hnil).2, fun hnil => hthen (h.2.1 hnil).2, h.2.2⟩
  | whileBlock c body => exact ⟨fun hnil => hoperand (h.1 hnil).2, h.2⟩
  | _ => trivial

end Node

namespace Parser

open Node

variable {ts rest : List Token} {nodes : List (Node Unit)}

/-! ### What texts say -/

/-- What the texts among the nodes say. -/
def said (nodes : List (Node Unit)) : String :=
  String.join (nodes.map fun | text s => s | _ => "")

theorem said_cons (n : Node Unit) (nodes : List (Node Unit)) :
    said (n :: nodes) = said [n] ++ said nodes := by
  simp [said]

theorem said_append (nodes more : List (Node Unit)) :
    said (nodes ++ more) = said nodes ++ said more := by
  rw [said, List.map_append, String.join_append, said, said]

theorem said_text (s : String) : said [.text s] = s := by
  simp [said]

theorem said_mergeTexts (nodes : List (Node Unit)) : said (mergeTexts nodes) = said nodes := by
  fun_induction mergeTexts nodes with
  | case1 => rfl
  | case2 s rest t more hmerge ih =>
    rw [said_cons, said_text, said_cons (.text s), said_text, ← ih, hmerge,
      said_cons (.text t), said_text, String.append_assoc]
  | case3 s rest _ ih => rw [said_cons, ih, ← said_cons]
  | case4 n rest _ ih => rw [said_cons, ih, ← said_cons]

theorem mem_mergeTexts_of_isText {n : Node Unit} (hn : n.isText = false) (h : n ∈ nodes) :
    n ∈ mergeTexts nodes := by
  have hother : ∀ s rest, n ∈ Node.text s :: rest → n ∈ rest := by
    intro s rest h
    rcases List.mem_cons.mp h with rfl | h
    · cases hn
    · exact h
  fun_induction mergeTexts nodes with
  | case1 => cases h
  | case2 s rest t more hmerge ih =>
    have hmem := ih (hother s rest h)
    rw [hmerge] at hmem
    exact List.mem_cons_of_mem _ (hother t more hmem)
  | case3 s rest _ ih => exact List.mem_cons_of_mem _ (ih (hother s rest h))
  | case4 m rest _ ih =>
    rcases List.mem_cons.mp h with rfl | h
    · exact List.mem_cons_self
    · exact List.mem_cons_of_mem _ (ih h)

theorem isText_of_mergeTexts {s : String} (h : mergeTexts nodes = [.text s]) :
    ∀ n ∈ nodes, n.isText = true := by
  intro n hn
  cases htext : n.isText with
  | true => rfl
  | false =>
    have hmem := mem_mergeTexts_of_isText htext hn
    rw [h, List.mem_singleton] at hmem
    rw [hmem] at htext
    cases htext

/-! ### Lone blanks -/

section Blanks

variable {takens : List (List Token)} {parts : List (List (Node Unit))}

/-- Texts that say nothing are written with marks only. -/
theorem marks_of_said (hread : List.Forall₂ Renders takens parts)
    (hraw : ∀ t ∈ takens.flatten, t.raw ≠ "") (htexts : ∀ n ∈ parts.flatten, n.isText = true)
    (hsaid : said parts.flatten = "") :
    ∀ t ∈ takens.flatten, t.isMark = true := by
  induction hread with
  | nil => nofun
  | @cons taken nodes takens parts hhead _ ih =>
    rw [List.flatten_cons, List.forall_mem_append] at hraw htexts
    rw [List.flatten_cons, said_append, String.append_eq_empty_iff] at hsaid
    rw [List.flatten_cons, List.forall_mem_append]
    refine ⟨?_, ih hraw.2 htexts.2 hsaid.2⟩
    rcases hhead with ⟨t, rfl, rfl⟩ | hvain
    · rw [said_text] at hsaid
      exact absurd hsaid.1 (hraw.1 t List.mem_cons_self)
    · exact (hvain htexts.1).1

theorem said_of_empty {nodes : List (Node Unit)} (h : ∀ n ∈ nodes, n = .text "") :
    said nodes = "" := by
  induction nodes with
  | nil => rfl
  | cons n nodes ih =>
    rw [List.forall_mem_cons] at h
    rw [said_cons, h.1, said_text, ih h.2, String.empty_append]

theorem append_eq_blank {s t : String} (hs : s ≠ "") (h : s ++ t = " ") : s = " " ∧ t = "" := by
  have hlists := congrArg String.toList h
  rw [String.toList_append] at hlists
  rcases List.append_eq_singleton_iff.mp hlists with ⟨hnil, -⟩ | ⟨hblank, hnil⟩
  · exact absurd (String.toList_eq_nil_iff.mp hnil) hs
  · exact ⟨String.toList_inj.mp hblank, String.toList_eq_nil_iff.mp hnil⟩

/-- **Texts that say a blank are written with a token that does,** among nothing but marks. -/
theorem exists_blank_of_said (hread : List.Forall₂ Renders takens parts)
    (hraw : ∀ t ∈ takens.flatten, t.raw ≠ "") (htexts : ∀ n ∈ parts.flatten, n.isText = true)
    (hsaid : said parts.flatten = " ") :
    ∃ before t after, takens.flatten = before ++ t :: after ∧
    (∀ u ∈ before ++ after, u.isMark = true) ∧ t.raw = " " := by
  induction hread with
  | nil => exact absurd hsaid (by decide)
  | @cons taken nodes takens parts hhead htail ih =>
    rw [List.flatten_cons, List.forall_mem_append] at hraw htexts
    rw [List.flatten_cons, said_append] at hsaid
    rw [List.flatten_cons]
    rcases hhead with ⟨t, rfl, rfl⟩ | hvain
    · rw [said_text] at hsaid
      obtain ⟨hblank, hnothing⟩ := append_eq_blank (hraw.1 t List.mem_cons_self) hsaid
      exact ⟨[], t, takens.flatten, rfl, marks_of_said htail hraw.2 htexts.2 hnothing, hblank⟩
    · obtain ⟨hmarks, hempty⟩ := hvain htexts.1
      rw [said_of_empty hempty, String.empty_append] at hsaid
      obtain ⟨before, t, after, hflat, hall, hblank⟩ := ih hraw.2 htexts.2 hsaid
      refine ⟨taken ++ before, t, after, by rw [hflat, List.append_assoc], ?_, hblank⟩
      rw [List.append_assoc, List.forall_mem_append]
      exact ⟨hmarks, hall⟩

end Blanks

variable {d : Nat}

theorem tokens_of_block {stops : Token → Bool} (hts : Pieced ts)
    (h : block (nest d) stops ts = .ok [.text " "] rest) :
    ∃ before after, ts = before ++ .text " " :: (after ++ rest) ∧ ∀ t ∈ before ++ after,
    t.isMark = true := by
  obtain ⟨parts, left, hparts, h⟩ := bind_eq_ok h
  obtain ⟨hmerged, rfl⟩ := Outcome.ok.inj h
  obtain ⟨takens, rfl, hread⟩ :=
    exists_taken_of_collect _ (fun _ _ _ => exists_renders_of_piece)
      (fun _ _ h => (of_piece_none h).1) hparts
  have hpieced : ∀ t ∈ takens.flatten, ∃ piece, t.CutFrom piece :=
    fun t ht => hts t (List.mem_append_left _ ht)
  have hraw : ∀ t ∈ takens.flatten, t.raw ≠ "" := by
    intro t ht
    obtain ⟨piece, hcut⟩ := hpieced t ht
    exact hcut.raw_ne_empty
  have hsaid : said parts.flatten = " " := by rw [← said_mergeTexts, hmerged, said_text]
  obtain ⟨before, t, after, hflat, hmarks, hblank⟩ :=
    exists_blank_of_said hread hraw (isText_of_mergeTexts hmerged) hsaid
  obtain ⟨piece, hcut⟩ := hpieced t (by simp [hflat])
  obtain rfl := hcut.eq_text_of_raw hblank
  exact ⟨before, after, by rw [hflat, List.append_assoc, List.cons_append], hmarks⟩

theorem tokens_of_sequence (hts : Pieced ts) (h : sequence (nest d) ts = .ok [.text " "] rest) :
    ts = .text " " :: rest := by
  obtain ⟨parts, left, hparts, h⟩ := bind_eq_ok h
  obtain ⟨hflat, rfl⟩ := Outcome.ok.inj h
  have hfound := ((reads_collect _ (reads_fragment (grows_true.finds d))).of_ok
    List.suffix_rfl hparts).1
  obtain ⟨takens, rfl, hread⟩ :=
    exists_taken_of_collect _ (fun _ _ _ => exists_renders_of_fragment)
      (fun _ _ => eq_of_fragment_none) hparts
  cases hread with
  | nil => cases hflat
  | cons hhead htail =>
    obtain ⟨rfl, rfl⟩ :=
      eq_of_flatten_singleton (fun nodes hn => (hfound nodes hn).1) hflat
    cases htail
    rcases hhead with ⟨t, rfl, hnode⟩ | hvain
    · obtain ⟨piece, hcut⟩ := hts t List.mem_cons_self
      have hraw : t.raw = " " := by simpa using hnode.symm
      rw [hcut.eq_text_of_raw hraw]
      rfl
    · have hempty := (hvain (by simp [isText])).2 _ List.mem_cons_self
      exact absurd (Node.text.inj hempty) (by decide)

/-! ### Conditions and blocks -/

theorem eq_of_stripTrailingSpace (h : stripTrailingSpace nodes = []) :
    nodes = [] ∨ nodes = [.text " "] := by
  unfold stripTrailingSpace at h
  split at h
  · rename_i s hlast
    obtain ⟨front, rfl⟩ := List.getLast?_eq_some_iff.mp hlast
    rw [List.dropLast_concat] at h
    split at h
    · rename_i hblank
      rw [h, hblank]
      exact .inr rfl
    · split at h
      · simp at h
      · simp at h
  · exact .inl h

/-- A right side is not empty behind its operator.  If it ends up empty, it was a lone blank. -/
theorem of_operand {r : Fault} {operator : Token} {right : List (Node Unit)} (hts : Pieced ts)
    (hoperator : ts.head? = some operator) (h : (take >>= fun _ => accept Token.isSpace >>= fun _ =>
      sequence (nest d) >>= fun right => refuseIf right.isEmpty r >>= fun _ => done right) ts =
        .ok right rest)
    (hnil : stripTrailingSpace right = []) :
    right = [.text " "] ∧ ∃ space, space.isSpace = true ∧
    ts = operator :: space :: .text " " :: rest := by
  obtain ⟨_, left, htake, h⟩ := bind_eq_ok h
  obtain ⟨spaced, left', haccept, h⟩ := bind_eq_ok h
  obtain ⟨right', left'', hright, h⟩ := bind_eq_ok h
  obtain ⟨_, left''', hfull, h⟩ := bind_eq_ok h
  obtain ⟨rfl, rfl⟩ := Outcome.ok.inj h
  obtain ⟨hne, rfl⟩ := of_refuseIf hfull
  have hblank : right' = [.text " "] := (eq_of_stripTrailingSpace hnil).resolve_left
    (by simpa using hne)
  obtain ⟨first, rfl⟩ := exists_of_take htake
  obtain rfl := Option.some.inj hoperator
  subst hblank
  cases spaced with
  | true =>
    obtain ⟨space, rfl, hspace⟩ := exists_of_accept_true haccept
    rw [tokens_of_sequence (hts.of_suffix ⟨[first, space], rfl⟩) hright]
    exact ⟨rfl, space, hspace, rfl⟩
  | false =>
    -- the blank would have been taken for the space behind the operator
    obtain ⟨hleft, hnone⟩ := of_accept_false haccept
    rw [hleft] at hright
    rw [tokens_of_sequence (hts.of_suffix ⟨[first], rfl⟩) hright] at hnone
    exact absurd (hnone _ rfl) (by decide)

theorem membership_text (negated : Bool) (s : String) :
    membership negated [.text s] = .equal ∨ membership negated [.text s] = .unequal := by
  cases negated
  · exact .inl rfl
  · exact .inr rfl

theorem of_comparison {p : Parser (List (Node Unit))} {f : List (Node Unit) → Comparison}
    {op : Comparison} {right : List (Node Unit)}
    (h : (p >>= fun right => done (f right, right)) ts = .ok (op, right) rest) :
    op = f right ∧ p ts = .ok right rest := by
  obtain ⟨right', left, hright, h⟩ := bind_eq_ok h
  obtain ⟨hvalue, rfl⟩ := Outcome.ok.inj h
  obtain ⟨rfl, rfl⟩ := Prod.mk.inj hvalue
  exact ⟨rfl, hright⟩

/-- **A right side that ends up empty** was a lone blank behind the operator of a comparison. -/
theorem of_comparand {op : Comparison} {right : List (Node Unit)} (hts : Pieced ts)
    (hread : comparand (nest d) ts = .ok (op, right) rest) (hnil : stripTrailingSpace right = []) :
    (op = .equal ∨ op = .unequal) ∧ ∃ operator : Comparison, ∃ space, space.isSpace = true ∧
      ts = operator.token :: space :: .text " " :: rest := by
  obtain ⟨next, left, hnext, h⟩ := bind_eq_ok hread
  obtain ⟨hhead, rfl⟩ := Outcome.ok.inj hnext
  split at h
  · obtain ⟨rfl, hright⟩ := of_comparison (f := fun _ => .equal) h
    obtain ⟨-, space, hspace, htokens⟩ := of_operand hts hhead hright hnil
    exact ⟨.inl rfl, .equal, space, hspace, htokens⟩
  · obtain ⟨rfl, hright⟩ := of_comparison (f := fun _ => .unequal) h
    obtain ⟨-, space, hspace, htokens⟩ := of_operand hts hhead hright hnil
    exact ⟨.inr rfl, .unequal, space, hspace, htokens⟩
  · obtain ⟨rfl, hright⟩ := of_comparison (f := membership false) h
    obtain ⟨rfl, space, hspace, htokens⟩ := of_operand hts hhead hright hnil
    exact ⟨membership_text false " ", .among, space, hspace, htokens⟩
  · obtain ⟨rfl, hright⟩ := of_comparison (f := membership true) h
    obtain ⟨rfl, space, hspace, htokens⟩ := of_operand hts hhead hright hnil
    exact ⟨membership_text true " ", .notAmong, space, hspace, htokens⟩
  · obtain ⟨hvalue, rfl⟩ := Outcome.ok.inj h
    obtain ⟨rfl, rfl⟩ := Prod.mk.inj hvalue
    rcases eq_of_stripTrailingSpace hnil with hnil | hblank
    · cases hnil
    · exact absurd (Node.text.inj (List.cons.inj hblank).1) (by decide)

theorem partRead_blank (inner : Nest) : PartRead inner [.text " "] :=
  ⟨⟨by simp [parses_text], by decide, by simp⟩, by simp⟩

/-- **The right side of a condition is empty** just where a lone blank is all that stands behind the
operator and its space. -/
theorem right_eq_nil_iff (hts : Pieced ts) {c : Condition Unit} {word : Token}
    (hword : startsNode word = false) (h : condition (nest d) ts = .ok c (word :: rest)) :
    c.right = [] ↔ ∃ left, ∃ operator : Comparison, ∃ space, space.isSpace = true ∧
      sequence (nest d) ts = .ok left (operator.token :: space :: .text " " :: word :: rest) := by
  obtain ⟨left, behind, hleft, h⟩ := bind_eq_ok h
  obtain ⟨⟨op, right⟩, behind', hright, h⟩ := bind_eq_ok h
  obtain ⟨rfl, rfl⟩ := Outcome.ok.inj h
  have hsuffix := ((reads_sequence (grows_true.finds d)).of_ok List.suffix_rfl hleft).2
  constructor
  · intro hnil
    obtain ⟨-, operator, space, hspace, rfl⟩ := of_comparand (hts.of_suffix hsuffix) hright hnil
    exact ⟨left, operator, space, hspace, hleft⟩
  · rintro ⟨left', operator, space, hspace, hread⟩
    obtain ⟨-, rfl⟩ := Outcome.ok.inj (hleft.symm.trans hread)
    have hblank := hright.symm.trans
      (comparand_tokens hspace operator (partRead_blank (nest d)) (of_head hword))
    obtain ⟨-, rfl⟩ := Prod.mk.inj (Outcome.ok.inj hblank).1
    rfl

theorem occupied_of_condition {taken last : List Token} (htokens : Pieced (taken ++ last))
    (hts : ts <:+ taken ++ last) (hlast : last <:+ rest) {c : Condition Unit} {word : Token}
    (hword : word ∈ [.keyword .thenWord, .keyword .doWord])
    (h : condition (nest d) ts = .ok c (word :: rest)) : c.Occupied taken := by
  intro hnil
  obtain ⟨left, ts', hleft, h⟩ := bind_eq_ok h
  obtain ⟨⟨op, right⟩, ts'', hright, h⟩ := bind_eq_ok h
  obtain ⟨rfl, rfl⟩ := Outcome.ok.inj h
  have hts' := ((reads_sequence (grows_true.finds d)).of_ok hts hleft).2
  obtain ⟨hop, operator, space, hspace, rfl⟩ :=
    of_comparand (htokens.of_suffix hts') hright hnil
  obtain ⟨more, rfl⟩ := hlast
  have hwindow : operator.token :: space :: .text " " :: word :: more <:+ taken := by
    simpa only [← List.cons_append, List.suffix_append_self_iff] using hts'
  exact ⟨hop, _, (List.mem_tails _ _).mpr hwindow, blankOperandAt_token operator hspace hword more⟩

theorem of_wordBlock {word : Keyword} {stops : Token → Bool}
    (h : wordBlock (nest d) word stops ts = .ok nodes rest) :
    nodes ≠ [] ∧ ∃ space left, ts = space :: left ∧ space.isSpace = true ∧
    block (nest d) stops left = .ok nodes rest := by
  obtain ⟨_, left, hexpect, h⟩ := bind_eq_ok h
  obtain ⟨nodes', left', hblock, h⟩ := bind_eq_ok h
  obtain ⟨_, left'', hfull, h⟩ := bind_eq_ok h
  obtain ⟨rfl, rfl⟩ := Outcome.ok.inj h
  obtain ⟨hne, rfl⟩ := of_refuseIf hfull
  obtain ⟨space, rfl, hspace⟩ := exists_of_expect hexpect
  exact ⟨by simpa using hne, space, left, rfl, hspace, hblock⟩

theorem suffix_of_wordBlock {word : Keyword} {stops : Token → Bool}
    (h : wordBlock (nest d) word stops ts = .ok nodes rest) : rest <:+ ts := by
  obtain ⟨-, space, left, rfl, -, hblock⟩ := of_wordBlock h
  exact ((reads_block (grows_true.finds d) stops).of_ok List.suffix_rfl hblock).2.trans
    (List.suffix_cons space left)

theorem blankThen_of_wordBlock {taken last : List Token} {stops : Token → Bool}
    (htokens : Pieced (taken ++ last)) (hts : .keyword .thenWord :: ts <:+ taken ++ last)
    (hlast : last <:+ rest)
    (h : wordBlock (nest d) .thenWord stops ts = .ok nodes (.keyword .elseWord :: rest))
    (hnil : stripTrailingSpace nodes = []) : BlankThen taken := by
  obtain ⟨hne, space, left, rfl, hspace, hblock⟩ := of_wordBlock h
  obtain rfl := (eq_of_stripTrailingSpace hnil).resolve_left hne
  have hleft : left <:+ taken ++ last := suffix_of_cons (suffix_of_cons hts)
  obtain ⟨before, after, rfl, hmarks⟩ := tokens_of_block (htokens.of_suffix hleft) hblock
  obtain ⟨behind, rfl⟩ := hlast
  have hwindow : .keyword .thenWord :: space :: (before ++ .text " " ::
      (after ++ .keyword .elseWord :: behind)) <:+ taken := by
    refine List.suffix_append_self_iff.mp (?_ : _ ++ last <:+ taken ++ last)
    simpa using hts
  exact ⟨_, (List.mem_tails _ _).mpr hwindow, blankThenAt_of_marks hspace hmarks⟩

/-- A lone blank in front of an `else` does leave nothing of the block. -/
theorem thenBlock_of_blank {inner : Nest} {space : Token} (hspace : space.isSpace = true)
    (h : wordBlock inner .thenWord (fun t => t == .keyword .elseWord || t == .op ']')
      (space :: .text " " :: .keyword .elseWord :: rest) = .ok nodes ts) :
    stripTrailingSpace nodes = [] ∧ ts = .keyword .elseWord :: rest := by
  have hcloses : Closes (fun t => t == .keyword .elseWord || t == .op ']')
      (.keyword .elseWord :: rest) := closes_cons rfl rfl
  have hblank := h.symm.trans (wordBlock_words hspace .thenWord (partRead_blank inner) hcloses)
  obtain ⟨rfl, rfl⟩ := Outcome.ok.inj hblank
  exact ⟨rfl, rfl⟩

theorem exists_of_opening {α : Type} {tokens : List Token} (hts : ts <:+ tokens) {word : Keyword}
    {next : Parser α} {a : α}
    (h : (take >>= fun _ => take >>= fun _ => space word >>= fun _ => next) ts = .ok a rest) :
    ∃ left, left <:+ tokens ∧ next left = .ok a rest := by
  obtain ⟨_, ts₁, h₁, hsecond⟩ := bind_eq_ok h
  obtain ⟨_, ts₂, h₂, hthird⟩ := bind_eq_ok hsecond
  obtain ⟨_, ts₃, h₃, hnext⟩ := bind_eq_ok hthird
  obtain ⟨opener, rfl⟩ := exists_of_take h₁
  obtain ⟨keyword, rfl⟩ := exists_of_take h₂
  obtain ⟨blank, rfl, -⟩ := exists_of_expect h₃
  exact ⟨ts₃, suffix_of_cons (suffix_of_cons (suffix_of_cons hts)), hnext⟩

/-- **What the reader of blocks lets be empty,** and what it has taken then. -/
theorem occupied_of_ifBlock {taken : List Token} (htokens : Pieced (taken ++ rest)) {n : Node Unit}
    (h : ifBlock (nest d) (taken ++ rest) = .ok nodes rest) (hn : n ∈ nodes) :
    n.Occupied taken := by
  obtain ⟨ts₁, hts₁, h⟩ := exists_of_opening List.suffix_rfl h
  obtain ⟨c, ts₂, hcondition, h⟩ := bind_eq_ok h
  obtain ⟨_, ts₃, hthen, h⟩ := bind_eq_ok h
  obtain ⟨yes, ts₄, hyes, h⟩ := bind_eq_ok h
  obtain ⟨more, ts₅, hmore, h⟩ := bind_eq_ok h
  have hts₂ := ((reads_condition (grows_true.finds d)).of_ok hts₁ hcondition).2
  obtain ⟨word, rfl, hword⟩ := exists_of_expect hthen
  obtain rfl := beq_iff_eq.mp hword
  have hts₄ := suffix_of_wordBlock hyes
  cases more with
  | false =>
    obtain ⟨_, left', hclose, h⟩ := bind_eq_ok h
    obtain ⟨rfl, rfl⟩ := Outcome.ok.inj h
    obtain rfl := List.mem_singleton.mp hn
    obtain ⟨bracket, rfl, -⟩ := exists_of_expect hclose
    obtain ⟨rfl, -⟩ := of_accept_false hmore
    exact ⟨occupied_of_condition htokens hts₁ (suffix_of_cons hts₄) (by simp) hcondition,
      fun hnil => absurd hnil (of_wordBlock hyes).1, nofun⟩
  | true =>
    obtain ⟨no, left', hno, h⟩ := bind_eq_ok h
    obtain ⟨_, left'', hclose, h⟩ := bind_eq_ok h
    obtain ⟨rfl, rfl⟩ := Outcome.ok.inj h.symm
    obtain rfl := List.mem_singleton.mp hn
    obtain ⟨bracket, rfl, -⟩ := exists_of_expect hclose
    obtain ⟨other, rfl, hother⟩ := exists_of_accept_true hmore
    obtain rfl := beq_iff_eq.mp hother
    have hrest := suffix_of_cons (suffix_of_wordBlock hno)
    exact ⟨occupied_of_condition htokens hts₁ (hrest.trans (suffix_of_cons hts₄)) (by simp)
      hcondition, fun hnil => ⟨rfl, blankThen_of_wordBlock htokens hts₂ hrest hyes hnil⟩,
      fun b hb => Option.some.inj hb ▸ (of_wordBlock hno).1⟩

theorem occupied_of_whileBlock {taken : List Token} (htokens : Pieced (taken ++ rest))
    {n : Node Unit} (h : whileBlock (nest d) (taken ++ rest) = .ok nodes rest) (hn : n ∈ nodes) :
    n.Occupied taken := by
  obtain ⟨ts₁, hts₁, h⟩ := exists_of_opening List.suffix_rfl h
  obtain ⟨c, ts₂, hcondition, h⟩ := bind_eq_ok h
  obtain ⟨_, ts₃, hdo, h⟩ := bind_eq_ok h
  obtain ⟨body, ts₄, hbody, h⟩ := bind_eq_ok h
  obtain ⟨_, ts₅, hclose, h⟩ := bind_eq_ok h
  obtain ⟨rfl, rfl⟩ := Outcome.ok.inj h
  obtain rfl := List.mem_singleton.mp hn
  obtain ⟨word, rfl, hword⟩ := exists_of_expect hdo
  obtain rfl := beq_iff_eq.mp hword
  obtain ⟨bracket, rfl, -⟩ := exists_of_expect hclose
  have hrest := suffix_of_cons (suffix_of_wordBlock hbody)
  exact ⟨occupied_of_condition htokens hts₁ hrest (by simp) hcondition, (of_wordBlock hbody).1⟩

end Parser

/-- **Every block of a template tells what is empty in it,** at any depth: the tokens that were read
for it do. -/
theorem every_occupiedItself {text : String} {nodes : List (Node Unit)}
    (h : parseText text = .ok nodes) :
    Node.Every (Node.OccupiedItself (tokenize text)) nodes := by
  have htokens := pieced_tokenize text
  refine (every_readIn h).imp fun n hread k hk => ?_
  obtain ⟨d, ts, nodes, rest, hts, hread, hn⟩ := hread k hk
  obtain ⟨taken, rfl⟩ := Parser.exists_taken_of_construct hread
  refine ⟨d, taken, nodes, rest, hts, hread, hn, ?_⟩
  cases n with
  | ifBlock c yes no =>
    obtain rfl := Option.some.inj hk
    exact Parser.occupied_of_ifBlock (htokens.of_suffix hts) hread hn
  | whileBlock c body =>
    obtain rfl := Option.some.inj hk
    exact Parser.occupied_of_whileBlock (htokens.of_suffix hts) hread hn
  | _ => trivial

/-- **What may be empty in a template.**  No block behind `else` or `do` is empty, at any depth; one
behind `then` is only in front of an `else`, and a right side only in a comparison; and where one
is, a lone blank stands in the tokens, for which the check for an empty block was made too early.
So in a template without such lone blanks none is empty. -/
theorem parseText_occupied {text : String} {nodes : List (Node Unit)}
    (h : parseText text = .ok nodes) :
    Node.Every (Node.Occupied (tokenize text)) nodes ∧
      (¬ BlankThen (tokenize text) → ¬ BlankOperand (tokenize text) →
        Node.Every Node.Full nodes) := by
  have hoccupied := (every_occupiedItself h).imp fun n hn => hn.occupied
  exact ⟨hoccupied, fun hthen hoperand => hoccupied.imp fun _ hn => hn.full hthen hoperand⟩

/-- Blanks that are not alone, behind `then` and `else` and behind operators. -/
theorem parseText_doubleBlanks : ∃ nodes,
    parseText "[if a in #b#  then  c  else  [while d !=  e do  f]]" = .ok nodes ∧
      Node.template nodes =
        "[if \\a in #\\b#\\  then \\ \\c\\  else \\ [while \\d != \\ \\e do \\ \\f]]" ∧
        Node.Every Node.Full nodes := by
  have hread : (parseText "[if a in #b#  then  c  else  [while d !=  e do  f]]").toOption.map
      Node.template =
      some "[if \\a in #\\b#\\  then \\ \\c\\  else \\ [while \\d != \\ \\e do \\ \\f]]" := by
    decide +kernel
  cases h : parseText "[if a in #b#  then  c  else  [while d !=  e do  f]]" with
  | error failure =>
    rw [h] at hread
    cases hread
  | ok nodes =>
    rw [h] at hread
    exact ⟨nodes, rfl, Option.some.inj hread, (parseText_occupied h).2 (by decide +kernel)
      (by decide +kernel)⟩

theorem exists_not_full {text : String}
    (h : (parseText text).toOption.map (fun nodes => decide (∀ n ∈ nodes, n.Full)) = some false) :
    ∃ nodes, parseText text = .ok nodes ∧ ¬ Node.Every Node.Full nodes := by
  cases hread : parseText text with
  | error failure =>
    rw [hread] at h
    cases h
  | ok nodes =>
    rw [hread] at h
    exact ⟨nodes, rfl, fun hall => of_decide_eq_false (Option.some.inj h) hall.here⟩

/-- **A lone blank leaves a block empty, or a right side:** behind `then`, and behind `in`. -/
theorem parseText_loneBlanks :
    (∃ nodes, parseText "[if a == b then  else c]" = .ok nodes ∧ ¬ Node.Every Node.Full nodes) ∧
      ∃ nodes, parseText "[while a in  do b]" = .ok nodes ∧ ¬ Node.Every Node.Full nodes :=
  ⟨exists_not_full (by decide +kernel), exists_not_full (by decide +kernel)⟩

end TemplateGrammar
