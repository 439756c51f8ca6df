import TemplateGrammar.Proofs.Template.Nesting
import TemplateGrammar.Proofs.Token.Reads

/-!
# The tokens of a written template

`Node.tokens` writes a tree down as tokens, as `Node.written` writes it down as characters, and a
template that is `Legible` reads as just these (`tokenize_template`).

Texts that touch run together, a text before a word of a block takes the space in front of the word,
and digits behind a weight would belong to its number.  So texts must not be neighbours nor empty,
the tokens of a list in front of a word are `spacedTokens`, and a weight is told apart from what
follows because whatever can follow it is reserved, escaped or a space.
-/

namespace TemplateGrammar

/-- The token of a comparison. -/
def Comparison.token : Comparison → Token
  | equal => .equal
  | unequal => .unequal
  | among => .keyword .inWord
  | notAmong => .keyword .notInWord

namespace Node

variable {σ : Type}

mutual

/-- **The tokens of a node.** -/
def tokens : Node σ → List Token
  | text s => [.text s]
  | weight n => [.op ':', .number n]
  | rule name modifiers => .op '#' :: .text name :: (chainTokens modifiers ++ [.op '#'])
  | tag name values => .op '[' :: .text name :: .op ':' :: (valueTokens values ++ [.op ']'])
  | define name values => .op '{' :: .text name :: .op '(' ::
    (valueTokens values ++ [.op ')', .op '}'])
  | choice _ values modifiers =>
    .op '{' :: .op '(' :: (valueTokens values ++ .op ')' :: (chainTokens modifiers ++ [.op '}']))
  | ifBlock condition yes none =>
    .op '[' :: .keyword .ifWord :: .text " " ::
      (conditionTokens condition ++ .keyword .thenWord :: .text " " ::
        (listTokens yes ++ [.op ']']))
  | ifBlock condition yes (some no) =>
    .op '[' :: .keyword .ifWord :: .text " " ::
      (conditionTokens condition ++ .keyword .thenWord :: .text " " ::
        (spacedTokens yes ++ .keyword .elseWord :: .text " " :: (listTokens no ++ [.op ']'])))
  | whileBlock condition body =>
    .op '[' :: .keyword .whileWord :: .text " " ::
      (conditionTokens condition ++ .keyword .doWord :: .text " " :: (listTokens body ++ [.op ']']))

/-- The tokens of nodes, one after another. -/
def listTokens : List (Node σ) → List Token
  | [] => []
  | n :: rest => tokens n ++ listTokens rest

/-- The tokens of nodes with a space behind them, which a text at the end takes in. -/
def spacedTokens : List (Node σ) → List Token
  | [] => [.text " "]
  | [text s] => [.text (s ++ " ")]
  | n :: rest => tokens n ++ spacedTokens rest

/-- The tokens of values with commas between them. -/
def valueTokens : List (List (Node σ)) → List Token
  | [] => []
  | v :: rest => listTokens v ++ moreTokens rest

/-- The tokens of further values, each behind a comma. -/
def moreTokens : List (List (Node σ)) → List Token
  | [] => []
  | v :: rest => .op ',' :: (listTokens v ++ moreTokens rest)

/-- The tokens of a modifier. -/
def modifierTokens : Modifier σ → List Token
  | ⟨name, []⟩ => [.op '.', .text name]
  | ⟨name, parameters⟩ => .op '.' :: .text name :: .op '(' :: (valueTokens parameters ++ [.op ')'])

/-- The tokens of a chain of modifiers. -/
def chainTokens : List (Modifier σ) → List Token
  | [] => []
  | m :: rest => modifierTokens m ++ chainTokens rest

/-- The tokens of a condition, up to the word behind it. -/
def conditionTokens : Condition σ → List Token
  | ⟨left, op, right⟩ => spacedTokens left ++ op.token :: .text " " :: spacedTokens right

end

/-- Nodes with a space behind them, which a text at the end takes in. -/
def spaced : List (Node σ) → List (Node σ)
  | [] => [text " "]
  | [text s] => [text (s ++ " ")]
  | n :: rest => n :: spaced rest

theorem listTokens_spaced (nodes : List (Node σ)) :
    listTokens (spaced nodes) = spacedTokens nodes := by
  fun_induction spaced nodes with
  | case1 => rfl
  | case2 s => rfl
  | case3 n rest hn ih => rw [listTokens, ih, spacedTokens]; exact hn

/-! ### What can be read back -/

def isText : Node σ → Bool
  | text _ => true
  | _ => false

/-- The node by itself can be written so that it is read back: texts and names are not empty, a
weight fits its type, and the values of lists that must have some are there.  A membership test
against a text is no membership test but a comparison. -/
def Sound : Node σ → Prop
  | text s => s ≠ ""
  | weight n => n < UInt32.size
  | rule name modifiers => name ≠ "" ∧ ∀ m ∈ modifiers, m.name ≠ ""
  | tag name values | define name values => name ≠ "" ∧ values ≠ []
  | choice _ values modifiers => values ≠ [] ∧ ∀ m ∈ modifiers, m.name ≠ ""
  | ifBlock condition _ _ | whileBlock condition _ =>
    condition.op = .among ∨ condition.op = .notAmong → ∀ n ∈ condition.right.head?, n.isText = false

instance : DecidablePred (Sound : Node σ → Prop)
  | text s => inferInstanceAs (Decidable (s ≠ ""))
  | weight n => inferInstanceAs (Decidable (n < UInt32.size))
  | rule name modifiers => inferInstanceAs (Decidable (name ≠ "" ∧ ∀ m ∈ modifiers, m.name ≠ ""))
  | tag name values => inferInstanceAs (Decidable (name ≠ "" ∧ values ≠ []))
  | define name values => inferInstanceAs (Decidable (name ≠ "" ∧ values ≠ []))
  | choice _ values modifiers => inferInstanceAs
    (Decidable (values ≠ [] ∧ ∀ m ∈ modifiers, m.name ≠ ""))
  | ifBlock condition _ _ => inferInstanceAs (Decidable
      (condition.op = .among ∨ condition.op = .notAmong →
        ∀ n ∈ condition.right.head?, n.isText = false))
  | whileBlock condition _ => inferInstanceAs (Decidable
      (condition.op = .among ∨ condition.op = .notAmong →
        ∀ n ∈ condition.right.head?, n.isText = false))

/-- No two texts stand side by side. -/
def Apart (nodes : List (Node σ)) : Prop :=
  nodes.IsChain fun n m => ¬(n.isText = true ∧ m.isText = true)

instance : DecidablePred (Apart : List (Node σ) → Prop) := fun nodes =>
  inferInstanceAs (Decidable (nodes.IsChain fun n m : Node σ =>
    ¬(n.isText = true ∧ m.isText = true)))

/-- A list whose nodes are sound and hold no empty part, with no two texts side by side. -/
structure Clean (nodes : List (Node σ)) : Prop where
  apart : Apart nodes
  sound : ∀ n ∈ nodes, n.Sound
  full : ∀ n ∈ nodes, ∀ part ∈ n.parts, part ≠ []

instance : DecidablePred (Clean : List (Node σ) → Prop) := fun nodes =>
  decidable_of_iff (Apart nodes ∧ (∀ n ∈ nodes, n.Sound) ∧ ∀ n ∈ nodes, ∀ part ∈ n.parts, part ≠ [])
    ⟨fun h => ⟨h.1, h.2.1, h.2.2⟩, fun h => ⟨h.apart, h.sound, h.full⟩⟩

/-- **A template that can be read back as it is written.** -/
def Legible (nodes : List (Node σ)) : Prop :=
  Throughout Clean nodes

/-! ### From characters to tokens -/

open Lexer

/-- What stands behind a node does not run into it. -/
def Ends : Node σ → List Char → Prop
  | text _, cs => Breaks cs
  | weight _, cs => NoDigit cs
  | _, _ => True

/-- In front of what does not run into it, the node as it is written is its tokens. -/
def ReadsBack (n : Node σ) : Prop :=
  ∀ cs ts, Reads cs ts → Ends n cs → Reads (written n ++ cs) (tokens n ++ ts)

theorem breaks_written {n : Node σ} (h : n.isText = false) (cs : List Char) :
    Breaks (written n ++ cs) := by
  cases n with
  | text s => cases h
  | _ => simp [Breaks, isReserved]

theorem noDigit_written {n : Node σ} (h : n.Sound) (cs : List Char) :
    NoDigit (written n ++ cs) := by
  by_cases ht : n.isText = true
  · cases n with
    | text s =>
      cases hl : s.toList with
      | nil => exact absurd (String.toList_eq_nil_iff.mp hl) h
      | cons c rest =>
        rw [written_text, writtenText, hl]
        rfl
    | _ => cases ht
  · exact (breaks_written (Bool.eq_false_iff.mpr ht) cs).noDigit

theorem ends_written {n m : Node σ} (hnm : ¬(n.isText = true ∧ m.isText = true)) (hm : m.Sound)
    (cs : List Char) : Ends n (written m ++ cs) := by
  cases n with
  | text s =>
    have hmt : m.isText = false := by
      cases hmt : m.isText with
      | false => rfl
      | true => exact absurd ⟨rfl, hmt⟩ hnm
    exact breaks_written hmt cs
  | weight k => exact noDigit_written hm cs
  | _ => trivial

theorem ends_of_breaks (n : Node σ) {cs : List Char} (h : Breaks cs) : Ends n cs := by
  cases n with
  | text s => exact h
  | weight k => exact h.noDigit
  | _ => trivial

theorem ends_space {n : Node σ} (h : n.isText = false) (cs : List Char) : Ends n (' ' :: cs) := by
  cases n with
  | text s => cases h
  | weight k => rfl
  | _ => trivial

theorem Clean.tail {n : Node σ} {rest : List (Node σ)} (h : Clean (n :: rest)) : Clean rest where
  apart := h.apart.of_cons
  sound m hm := h.sound m (List.mem_cons_of_mem n hm)
  full m hm := h.full m (List.mem_cons_of_mem n hm)

section Lists

variable {nodes : List (Node σ)} {cs : List Char} {ts : List Token}

theorem reads_list (hc : Clean nodes) (hn : ∀ n ∈ nodes, ReadsBack n) (h : Reads cs ts)
    (hb : Breaks cs) : Reads (writtenList nodes ++ cs) (listTokens nodes ++ ts) := by
  induction nodes with
  | nil => exact h
  | cons n rest ih =>
    have hrest := ih hc.tail fun m hm => hn m (List.mem_cons_of_mem n hm)
    have hends : Ends n (writtenList rest ++ cs) := by
      cases rest with
      | nil => exact ends_of_breaks n hb
      | cons m more =>
        rw [writtenList, List.append_assoc]
        exact ends_written (List.isChain_cons_cons.mp hc.apart).1 (hc.sound m (by simp)) _
    rw [writtenList, listTokens, List.append_assoc, List.append_assoc]
    exact hn n List.mem_cons_self _ _ hrest hends

theorem reads_spaced (hc : Clean nodes) (hn : ∀ n ∈ nodes, ReadsBack n)
    {word : List Char} {t : Token} (hw : Between word t) (h : Reads cs ts) :
    Reads (writtenList nodes ++ ' ' :: (word ++ ' ' :: cs))
      (spacedTokens nodes ++ t :: .text " " :: ts) := by
  induction nodes with
  | nil => exact hw.reads h
  | cons n rest ih =>
    have hrest := ih hc.tail fun m hm => hn m (List.mem_cons_of_mem n hm)
    cases rest with
    | nil =>
      by_cases ht : n.isText = true
      · -- the run of a last text takes the space in front of the word
        cases n with
        | text s =>
          rw [writtenList, writtenList, List.append_nil, written_text]
          exact (hw.continues h).text (hc.sound _ List.mem_cons_self)
        | _ => cases ht
      · have hf : n.isText = false := Bool.eq_false_iff.mpr ht
        have hs : spacedTokens [n] = tokens n ++ spacedTokens ([] : List (Node σ)) := by
          cases n with
          | text s => cases hf
          | _ => rfl
        rw [writtenList, hs, List.append_assoc, List.append_assoc]
        exact hn n List.mem_cons_self _ _ hrest (ends_space hf _)
    | cons m more =>
      have hs : spacedTokens (n :: m :: more) = tokens n ++ spacedTokens (m :: more) := by
        rw [spacedTokens]
        simp
      rw [writtenList, hs, List.append_assoc, List.append_assoc]
      refine hn n List.mem_cons_self _ _ hrest ?_
      rw [writtenList, List.append_assoc]
      exact ends_written (List.isChain_cons_cons.mp hc.apart).1 (hc.sound m (by simp)) _

end Lists

/-- A list of nodes reads as its tokens in every place a list can stand in. -/
structure PartReads (nodes : List (Node σ)) : Prop where
  closed : ∀ cs ts, Reads cs ts → Breaks cs →
    Reads (writtenList nodes ++ cs) (listTokens nodes ++ ts)
  spaced : ∀ word t cs ts, Between word t → Reads cs ts →
    Reads (writtenList nodes ++ ' ' :: (word ++ ' ' :: cs))
      (spacedTokens nodes ++ t :: .text " " :: ts)

theorem breaks_more (values : List (List (Node σ))) {cs : List Char} (h : Breaks cs) :
    Breaks (writtenMore values ++ cs) := by
  cases values with
  | nil => exact h
  | cons v rest => rfl

theorem reads_more {values : List (List (Node σ))} (hv : ∀ v ∈ values, PartReads v) {cs : List Char}
    {ts : List Token} (h : Reads cs ts) (hb : Breaks cs) :
    Reads (writtenMore values ++ cs) (moreTokens values ++ ts) := by
  induction values with
  | nil => exact h
  | cons v rest ih =>
    have hrest := ih fun w hw => hv w (List.mem_cons_of_mem v hw)
    rw [writtenMore, moreTokens, List.cons_append, List.cons_append, List.append_assoc,
      List.append_assoc]
    exact ((hv v List.mem_cons_self).closed _ _ hrest (breaks_more rest hb)).reserved rfl

theorem reads_values {values : List (List (Node σ))} (hv : ∀ v ∈ values, PartReads v)
    {cs : List Char} {ts : List Token} (h : Reads cs ts) (hb : Breaks cs) :
    Reads (writtenValues values ++ cs) (valueTokens values ++ ts) := by
  cases values with
  | nil => exact h
  | cons v rest =>
    have hrest := reads_more (fun w hw => hv w (List.mem_cons_of_mem v hw)) h hb
    rw [writtenValues, valueTokens, List.append_assoc, List.append_assoc]
    exact (hv v List.mem_cons_self).closed _ _ hrest (breaks_more rest hb)

theorem breaks_chain (modifiers : List (Modifier σ)) {cs : List Char} (h : Breaks cs) :
    Breaks (writtenChain modifiers ++ cs) := by
  cases modifiers with
  | nil => exact h
  | cons m rest =>
    obtain ⟨name, parameters⟩ := m
    cases parameters <;> rfl

theorem reads_modifier {m : Modifier σ} (hname : m.name ≠ "") (hm : ∀ v ∈ m.parameters, PartReads v)
    {cs : List Char} {ts : List Token} (h : Reads cs ts) (hb : Breaks cs) :
    Reads (writtenModifier m ++ cs) (modifierTokens m ++ ts) := by
  obtain ⟨name, parameters⟩ := m
  cases parameters with
  | nil => exact (h.text hb hname).reserved rfl
  | cons v rest =>
    have hvalues := reads_values hm (h.reserved (c := ')') rfl) rfl
    have hcall := hvalues.reserved (c := '(') rfl
    have := (hcall.text rfl hname).reserved (c := '.') rfl
    rw [writtenModifier, modifierTokens]
    · simpa using this
    · simp
    · simp

theorem reads_chain {modifiers : List (Modifier σ)} (hname : ∀ m ∈ modifiers, m.name ≠ "")
    (hm : ∀ v ∈ modifiers.flatMap Modifier.parameters, PartReads v) {cs : List Char}
    {ts : List Token} (h : Reads cs ts) (hb : Breaks cs) : Reads (writtenChain modifiers ++ cs)
      (chainTokens modifiers ++ ts) := by
  induction modifiers with
  | nil => exact h
  | cons m rest ih =>
    have hrest := ih (fun k hk => hname k (List.mem_cons_of_mem m hk)) fun v hv =>
      hm v (by simp_all)
    rw [writtenChain, chainTokens, List.append_assoc, List.append_assoc]
    refine reads_modifier (hname m List.mem_cons_self) (fun v hv => hm v ?_) hrest
      (breaks_chain rest hb)
    rw [List.flatMap_cons]
    exact List.mem_append_left _ hv

theorem between_symbol (op : Comparison) : Between op.symbol.toList op.token := by
  cases op
  · exact .equal
  · exact .unequal
  · exact .keyword .inWord
  · exact .keyword .notInWord

theorem reads_condition {c : Condition σ} (hl : PartReads c.left) (hr : PartReads c.right)
    {word : List Char} {t : Token} (hw : Between word t) {cs : List Char} {ts : List Token}
    (h : Reads cs ts) :
    Reads (writtenCondition c ++ ' ' :: (word ++ ' ' :: cs))
      (conditionTokens c ++ t :: .text " " :: ts) := by
  obtain ⟨left, op, right⟩ := c
  have hright := hr.spaced _ _ _ _ hw h
  have hleft := hl.spaced _ _ _ _ (between_symbol op) hright
  rw [writtenCondition, conditionTokens]
  simpa using hleft

theorem readsBack_of_parts {n : Node σ} (hs : n.Sound) (hp : ∀ part ∈ n.parts, PartReads part) :
    ReadsBack n := by
  intro cs ts h he
  cases n with
  | text s => exact h.text he hs
  | weight k =>
    have := (h.number he hs).reserved (c := ':') rfl
    simpa [tokens] using this
  | rule name modifiers =>
    have hchain := reads_chain hs.2 hp (h.reserved (c := '#') rfl) rfl
    have := (hchain.text (breaks_chain modifiers rfl) hs.1).reserved (c := '#') rfl
    simpa [tokens] using this
  | tag name values =>
    have hv : ∀ v ∈ values, PartReads v := hp
    have hvalues := reads_values hv (h.reserved (c := ']') rfl) rfl
    have := ((hvalues.reserved (c := ':') rfl).text rfl hs.1).reserved (c := '[') rfl
    simpa [tokens] using this
  | define name values =>
    have hv : ∀ v ∈ values, PartReads v := hp
    have hvalues := reads_values hv ((h.reserved (c := '}') rfl).reserved (c := ')') rfl) rfl
    have := ((hvalues.reserved (c := '(') rfl).text rfl hs.1).reserved (c := '{') rfl
    simpa [tokens] using this
  | choice site values modifiers =>
    have hchain := reads_chain hs.2 (fun v hv => hp v (List.mem_append_right values hv))
      (h.reserved (c := '}') rfl) rfl
    have hvalues := reads_values (fun v hv => hp v (List.mem_append_left _ hv))
      (hchain.reserved (c := ')') rfl) rfl
    have := (hvalues.reserved (c := '(') rfl).reserved (c := '{') rfl
    simpa [tokens] using this
  | ifBlock condition yes no =>
    have hl := hp condition.left (by simp [parts])
    have hr := hp condition.right (by simp [parts])
    have hyes := hp yes (by simp [parts])
    have hend := h.reserved (c := ']') rfl
    cases no with
    | none =>
      have hcond := reads_condition hl hr (.keyword .thenWord) (hyes.closed _ _ hend rfl)
      have := hcond.opening (k := .ifWord) rfl
      simpa [tokens, Keyword.spelling] using this
    | some no =>
      have hno := hp no (by simp [parts])
      have helse := hyes.spaced _ _ _ _ (.keyword .elseWord) (hno.closed _ _ hend rfl)
      have := (reads_condition hl hr (.keyword .thenWord) helse).opening (k := .ifWord) rfl
      simpa [tokens, Keyword.spelling] using this
  | whileBlock condition body =>
    have hl := hp condition.left (by simp [parts])
    have hr := hp condition.right (by simp [parts])
    have hbody := (hp body (by simp [parts])).closed _ _ (h.reserved (c := ']') rfl) rfl
    have := (reads_condition hl hr (.keyword .doWord) hbody).opening (k := .whileWord) rfl
    simpa [tokens, Keyword.spelling] using this

theorem Legible.partReads {nodes : List (Node σ)} (h : Legible nodes) : PartReads nodes := by
  induction h with
  | intro here inside ih =>
    have hn : ∀ n ∈ _, ReadsBack n := fun n hn => readsBack_of_parts (here.sound n hn) (ih n hn)
    exact ⟨fun _ _ h hb => reads_list here hn h hb, fun _ _ _ _ hw h => reads_spaced here hn hw h⟩

/-- **The tokens of a legible template as it is written** are those of its nodes. -/
theorem tokenize_template {nodes : List (Node σ)} (h : Legible nodes) :
    tokenize (template nodes) = listTokens nodes := by
  have := h.partReads.closed [] [] reads_nil trivial none false
  rw [List.append_nil, List.append_nil] at this
  rw [tokenize, template, String.toList_ofList, this]

end Node

end TemplateGrammar
