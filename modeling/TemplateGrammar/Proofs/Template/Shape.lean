import Mathlib.Data.List.Chain
import TemplateGrammar.Proofs.Template.Tokens
import TemplateGrammar.Proofs.Token.Pieces
import TemplateGrammar.Template.Parser

/-!
# The shape of nodes that are read

Not every tree is read from some text.  A name is one token, and no token is an empty text, so names
are not empty, but for a reference that is nothing but its modifiers; a comma calls for a member, so
only the first member of a list may be empty; neighbouring texts are made one wherever stray tokens
may be read as text; and a membership test against a text is read as a comparison.  `Node.Formed`
says this of a node.

Besides, of a tag, a definition and a choice there is at least one value (`Node.Filled`), whatever
the tokens are.  What is done to a list of nodes when it has been read, that texts are merged in it
and that it loses the space at its end, brings no texts together.
-/

namespace TemplateGrammar

/-! ### Tokens -/

/-- **No text among the tokens is empty.** -/
def Worded (ts : List Token) : Prop :=
  ∀ t ∈ ts, t ≠ .text ""

theorem Worded.of_suffix {ts rest : List Token} (h : Worded ts) (hrest : rest <:+ ts) :
    Worded rest :=
  fun t ht => h t (hrest.subset ht)

theorem Worded.text_ne {s : String} {ts : List Token} (h : Worded (.text s :: ts)) : s ≠ "" := by
  rintro rfl
  exact h _ List.mem_cons_self rfl

/-- **The lexer makes no empty text,** for it cuts each text from a piece. -/
theorem worded_tokenize (text : String) : Worded (tokenize text) := by
  rintro t ht rfl
  obtain ⟨piece, hcut⟩ := pieced_tokenize text _ ht
  cases hcut with
  | text hs _ => exact hs rfl

/-! ### Nodes -/

namespace Node

variable {σ : Type}

/-- A list of members: there is one, none but the first is empty, and no two texts stand side by
side in any. -/
structure Members (values : List (List (Node σ))) : Prop where
  some : values ≠ []
  full : ∀ v ∈ values.tail, v ≠ []
  apart : ∀ v ∈ values, Apart v

end Node

/-- A modifier has a name; its parameters, if there are any, are a list of members, and not one that
is empty. -/
def Modifier.Formed {σ : Type} (m : Modifier σ) : Prop :=
  m.name ≠ "" ∧ (m.parameters = [] ∨ Node.Members m.parameters ∧ m.parameters ≠ [[]])

/-- What a membership test looks through is there and does not begin with a text. -/
def Condition.Formed {σ : Type} (c : Condition σ) : Prop :=
  c.op = .among ∨ c.op = .notAmong → ∃ n rest, c.right = n :: rest ∧ n.isText = false

namespace Node

variable {σ : Type}

/-- **The node has the shape of one that is read from a text.** -/
def Formed : Node σ → Prop
  | text _ | weight _ => True
  | rule name modifiers => (name = "" → modifiers ≠ []) ∧ ∀ m ∈ modifiers, m.Formed
  | tag name values => name ≠ "" ∧ Members values ∧ ∀ v ∈ values, v ≠ []
  | define name values => name ≠ "" ∧ Members values
  | choice _ values modifiers => Members values ∧ ∀ m ∈ modifiers, m.Formed
  | ifBlock condition yes no => condition.Formed ∧ Apart yes ∧ ∀ block ∈ no, Apart block
  | whileBlock condition body => condition.Formed ∧ Apart body

/-- **A tag, a definition or a choice has a value.** -/
def Filled : Node σ → Prop
  | tag _ values => values ≠ []
  | define _ values => values ≠ []
  | choice _ values _ => values ≠ []
  | _ => True

/-- The construct that a node is read as, if it is read as one. -/
def construct? : Node σ → Option Construct
  | text _ | weight _ => none
  | rule .. | define .. | choice .. => some .rule
  | tag .. => some .tag
  | ifBlock .. => some .ifBlock
  | whileBlock .. => some .whileBlock

theorem Members.ne_nil {values : List (List (Node σ))} (h : Members values)
    (hfirst : values.headD [] ≠ []) : ∀ v ∈ values, v ≠ [] := by
  cases values with
  | nil => exact absurd rfl h.some
  | cons first more =>
    intro v hv
    rcases List.mem_cons.mp hv with rfl | hv
    · exact hfirst
    · exact h.full v hv

end Node

namespace Parser

open Node

/-! ### Texts apart -/

/-- **Merged, no two texts stand side by side.** -/
theorem apart_mergeTexts (nodes : List (Node Unit)) : Apart (mergeTexts nodes) := by
  fun_induction mergeTexts nodes with
  | case1 => exact List.IsChain.nil
  | case2 s rest t more hmerge ih =>
    rw [hmerge] at ih
    refine List.isChain_cons.mpr ⟨fun m hm => ?_, (List.isChain_cons.mp ih).2⟩
    exact (List.isChain_cons.mp ih).1 m hm
  | case3 s rest hnone ih =>
    -- the text found none to be merged with, so what comes next is no text
    refine List.isChain_cons.mpr ⟨fun m hm => ?_, ih⟩
    rintro ⟨-, hm'⟩
    cases hmerge : mergeTexts rest with
    | nil =>
      rw [hmerge] at hm
      cases hm
    | cons n more =>
      rw [hmerge] at hm
      obtain rfl := Option.some.inj hm
      cases n with
      | text t => exact hnone t more hmerge
      | _ => cases hm'
  | case4 n rest hn ih =>
    refine List.isChain_cons.mpr ⟨fun m hm => ?_, ih⟩
    rintro ⟨hn', -⟩
    cases n with
    | text s => exact hn s rfl
    | _ => cases hn'

theorem apart_stripTrailingSpace {nodes : List (Node Unit)} (h : Apart nodes) :
    Apart (stripTrailingSpace nodes) := by
  unfold stripTrailingSpace
  split
  · rename_i s hlast
    obtain ⟨front, rfl⟩ := List.getLast?_eq_some_iff.mp hlast
    rw [List.dropLast_concat]
    have happend := List.isChain_append.mp h
    split
    · exact happend.1
    · split
      · exact List.isChain_append.mpr ⟨happend.1, List.IsChain.singleton _, fun n hn m hm =>
          Option.some.inj hm ▸ happend.2.2 n hn (.text s) rfl⟩
      · exact h
  · exact h

theorem exists_cons_stripTrailingSpace {n : Node Unit} (h : n.isText = false)
    (rest : List (Node Unit)) : ∃ rest', stripTrailingSpace (n :: rest) = n :: rest' := by
  unfold stripTrailingSpace
  split
  · rename_i s hlast
    cases rest with
    | nil =>
      obtain rfl := Option.some.inj hlast
      cases h
    | cons m more =>
      split
      · exact ⟨_, rfl⟩
      · split
        · exact ⟨_, rfl⟩
        · exact ⟨_, rfl⟩
  · exact ⟨_, rfl⟩

/-- **A membership test is left to what begins with no text.** -/
theorem formed_membership (negated : Bool) (left : List (Node Unit)) {right : List (Node Unit)}
    (hne : right ≠ []) :
    Condition.Formed ⟨left, membership negated right, stripTrailingSpace right⟩ := by
  intro hop
  cases right with
  | nil => exact absurd rfl hne
  | cons n rest =>
    cases htext : n.isText with
    | false =>
      obtain ⟨rest', hstrip⟩ := exists_cons_stripTrailingSpace htext rest
      exact ⟨n, rest', hstrip, htext⟩
    | true =>
      cases n with
      | text s => cases negated <;> simp [membership] at hop
      | _ => cases htext

/-! ### Nodes that stay -/

theorem mem_mergeTexts {nodes : List (Node Unit)} : ∀ n ∈ mergeTexts nodes, n ∈ nodes ∨
    n.isLeaf = true := by
  fun_induction mergeTexts nodes with
  | case1 => simp
  | case2 s rest t more hmerge ih =>
    intro n hn
    rcases List.mem_cons.mp hn with rfl | hn
    · exact .inr rfl
    · rcases ih n (by rw [hmerge]; exact List.mem_cons_of_mem _ hn) with h | h
      · exact .inl (List.mem_cons_of_mem _ h)
      · exact .inr h
  | case3 s rest _ ih =>
    intro n hn
    rcases List.mem_cons.mp hn with rfl | hn
    · exact .inr rfl
    · rcases ih n hn with h | h
      · exact .inl (List.mem_cons_of_mem _ h)
      · exact .inr h
  | case4 m rest _ ih =>
    intro n hn
    rcases List.mem_cons.mp hn with rfl | hn
    · exact .inl List.mem_cons_self
    · rcases ih n hn with h | h
      · exact .inl (List.mem_cons_of_mem _ h)
      · exact .inr h

theorem mem_stripTrailingSpace {nodes : List (Node Unit)} :
    ∀ n ∈ stripTrailingSpace nodes, n ∈ nodes ∨ n.isLeaf = true := by
  intro n hn
  unfold stripTrailingSpace at hn
  split at hn
  · split at hn
    · exact .inl ((List.dropLast_sublist nodes).subset hn)
    · split at hn
      · rcases List.mem_append.mp hn with hn | hn
        · exact .inl ((List.dropLast_sublist nodes).subset hn)
        · rw [List.mem_singleton.mp hn]
          exact .inr rfl
      · exact .inl hn
  · exact .inl hn

theorem mergeTexts_cons {n : Node Unit} (hn : n.isText = false) (more : List (Node Unit)) :
    mergeTexts (n :: more) = n :: mergeTexts more := by
  cases n with
  | text s => cases hn
  | _ => rfl

theorem exists_mergeTexts_text (s : String) (more : List (Node Unit)) :
    ∃ t rest, mergeTexts (.text s :: more) = .text t :: rest := by
  rw [mergeTexts]
  split
  · exact ⟨_, _, rfl⟩
  · exact ⟨_, _, rfl⟩

theorem eq_of_mergeTexts {nodes : List (Node Unit)} {n : Node Unit} (hn : n.isText = false)
    (h : mergeTexts nodes = [n]) : nodes = [n] := by
  have hcons : ∀ m more, mergeTexts (m :: more) ≠ [] := by
    intro m more hnil
    cases hm : m.isText with
    | false =>
      rw [mergeTexts_cons hm] at hnil
      cases hnil
    | true =>
      cases m with
      | text s =>
        obtain ⟨t, rest, ht⟩ := exists_mergeTexts_text s more
        rw [ht] at hnil
        cases hnil
      | _ => cases hm
  cases nodes with
  | nil => cases h
  | cons m more =>
    cases hm : m.isText with
    | true =>
      cases m with
      | text s =>
        obtain ⟨t, rest, ht⟩ := exists_mergeTexts_text s more
        rw [ht] at h
        rw [← (List.cons.inj h).1] at hn
        cases hn
      | _ => cases hm
    | false =>
      rw [mergeTexts_cons hm] at h
      obtain ⟨rfl, hmore⟩ := List.cons.inj h
      cases more with
      | nil => rfl
      | cons m' more => exact absurd hmore (hcons m' more)

theorem eq_of_flatten_singleton {part : List (Node Unit)} {more : List (List (Node Unit))}
    {n : Node Unit} (hfilled : ∀ nodes ∈ part :: more, nodes ≠ [])
    (h : (part :: more).flatten = [n]) : part = [n] ∧ more = [] := by
  rw [List.flatten_cons] at h
  rcases List.append_eq_singleton_iff.mp h with ⟨hpart, -⟩ | ⟨hpart, hmore⟩
  · exact absurd hpart (hfilled part List.mem_cons_self)
  · refine ⟨hpart, List.eq_nil_iff_forall_not_mem.mpr fun nodes hnodes => ?_⟩
    exact hfilled nodes (List.mem_cons_of_mem _ hnodes)
      (List.flatten_eq_nil_iff.mp hmore nodes hnodes)

end Parser

end TemplateGrammar
