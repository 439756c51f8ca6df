import TemplateGrammar.Proofs.Template.Lists
import TemplateGrammar.Proofs.Template.Meets
import TemplateGrammar.Proofs.Template.Shape

/-!
# What the parser reads

The readers of templates are gone through once, and all that is said of every template is said on
the way.  Wherever in some tokens a reader starts, it stops within them (`Parser.Reads`).  It
refuses for no reason that the tokens give no cause for (`Fault.Warranted`): where it takes a token
without looking, one is there, and where it asks for a space, a keyword stands in front.  And what
it makes is leaves, nodes that have been read one level further in, and of a construct a node that
holds nothing but such nodes and has a shape (`Node.ReadAs`).

So what is true of leaves, and of what has been made of a construct if it is true of all nodes
inside, is true of every node that is read; and it may be something else on each level
(`Parser.Grows`).
-/

namespace TemplateGrammar

/-- **A fault that the tokens give cause for.**  Reading never goes past their end, and it misses a
space only behind a keyword that has none. -/
def Fault.Warranted (tokens : List Token) : Fault → Prop
  | endOfInput => False
  | missingSpace _ =>
    ∃ word ts, .keyword word :: ts <:+ tokens ∧ ∀ t ∈ ts.head?, t.isSpace = false
  | _ => True

/-- Where a construct may be opened: at a token, and a block at one with a keyword behind it. -/
def Construct.Opens (tokens : List Token) : Construct → List Token → Prop
  | rule, ts | tag, ts => ts ≠ [] ∧ ts <:+ tokens
  | ifBlock, ts | whileBlock, ts => ∃ t word rest, ts = t :: .keyword word :: rest ∧ ts <:+ tokens

theorem Construct.Opens.suffix {tokens ts : List Token} {k : Construct} (h : k.Opens tokens ts) :
    ts <:+ tokens := by
  cases k with
  | rule | tag => exact h.2
  | ifBlock | whileBlock =>
    obtain ⟨_, _, _, -, hts⟩ := h
    exact hts

/-- **A node that a construct has been read as.** -/
structure Node.ReadAs (tokens : List Token) (k : Construct) (n : Node Unit) : Prop where
  kind : n.construct? = some k
  filled : n.Filled
  formed : Worded tokens → n.Formed

namespace Parser

open Node

variable {α β : Type} {tokens ts rest : List Token}

/-! ### From within the tokens -/

/-- **From within the tokens** it makes what has the property, and stops within them. -/
def Reads (tokens : List Token) (p : Parser α) (P : α → Prop) : Prop :=
  Meets (· <:+ tokens) p (fun a rest => P a ∧ rest <:+ tokens) (Fault.Warranted tokens)

/-- The same, where a token is there to be taken. -/
def ReadsNext (tokens : List Token) (p : Parser α) (P : α → Prop) : Prop :=
  Meets (fun ts => ts ≠ [] ∧ ts <:+ tokens) p (fun a rest => P a ∧ rest <:+ tokens)
    (Fault.Warranted tokens)

/-- A keyword stands in front of the tokens. -/
def Behind (tokens ts : List Token) : Prop :=
  ∃ word, .keyword word :: ts <:+ tokens

/-- The same, right behind a keyword. -/
def ReadsBehind (tokens : List Token) (p : Parser α) (P : α → Prop) : Prop :=
  Meets (Behind tokens) p (fun a rest => P a ∧ rest <:+ tokens) (Fault.Warranted tokens)

theorem suffix_of_cons {t : Token} (h : t :: ts <:+ tokens) : ts <:+ tokens :=
  (List.suffix_cons t ts).trans h

theorem reads_done {P : α → Prop} {a : α} (h : P a) : Reads tokens (done a) P :=
  meets_done fun _ hts => ⟨h, hts⟩

theorem reads_refuseIf (b : Bool) {r : Fault} (h : r.Warranted tokens) :
    Reads tokens (refuseIf b r) fun _ => b = false :=
  meets_refuseIf b h

theorem readsNext_take : ReadsNext tokens take fun _ => True := by
  rintro ts ⟨hne, hts⟩
  cases ts with
  | nil => exact absurd rfl hne
  | cons t rest => exact ⟨trivial, suffix_of_cons hts⟩

theorem reads_accept (these : Token → Bool) : Reads tokens (accept these) fun _ => True := by
  intro ts hts
  cases ts with
  | nil => exact ⟨trivial, hts⟩
  | cons t rest =>
    rw [accept]
    split
    · exact ⟨trivial, suffix_of_cons hts⟩
    · exact ⟨trivial, hts⟩

theorem reads_expect (these : Token → Bool) {r : Fault} (h : r.Warranted tokens) :
    Reads tokens (expect these r) fun _ => True := by
  intro ts hts
  cases ts with
  | nil => exact h
  | cons t rest =>
    rw [expect]
    split
    · exact ⟨trivial, suffix_of_cons hts⟩
    · exact h

theorem meets_accept_keyword (word : Keyword) : Meets (· <:+ tokens) (accept (· == .keyword word))
    (fun found rest => if found then Behind tokens rest else rest <:+ tokens)
    (Fault.Warranted tokens) := by
  intro ts hts
  cases ts with
  | nil => exact hts
  | cons t rest =>
    rw [accept]
    split
    · rename_i ht
      obtain rfl := beq_iff_eq.mp ht
      exact ⟨word, hts⟩
    · exact hts

theorem meets_expect_keyword (word : Keyword) {r : Fault} (h : r.Warranted tokens) :
    Meets (· <:+ tokens) (expect (· == .keyword word) r)
      (fun _ rest => True ∧ Behind tokens rest) (Fault.Warranted tokens) := by
  intro ts hts
  cases ts with
  | nil => exact h
  | cons t rest =>
    rw [expect]
    split
    · rename_i ht
      obtain rfl := beq_iff_eq.mp ht
      exact ⟨trivial, word, hts⟩
    · exact h

/-- Where the space is missed, it is behind the keyword that it is missing. -/
theorem readsBehind_space (word : Keyword) : ReadsBehind tokens (space word) fun _ => True := by
  rintro ts ⟨opener, hts⟩
  cases ts with
  | nil => exact ⟨opener, [], hts, nofun⟩
  | cons t rest =>
    rw [space, expect]
    split
    · exact ⟨trivial, suffix_of_cons (suffix_of_cons hts)⟩
    · rename_i ht
      exact ⟨opener, t :: rest, hts, of_head (by simpa using ht)⟩

theorem reads_name {r : Fault} (h : r.Warranted tokens) :
    Reads tokens (name r) fun s => Worded tokens → s ≠ "" := by
  intro ts hts
  unfold name
  split
  · exact ⟨fun hw => (hw.of_suffix hts).text_ne, suffix_of_cons hts⟩
  · exact ⟨fun _ => by simp, suffix_of_cons hts⟩
  · exact h

theorem reads_collect {step : Parser (Option α)} (on : Takes step goesOn) {P : α → Prop}
    (h : Reads tokens step fun o => ∀ a ∈ o, P a) :
    Reads tokens (collect step on) fun as => ∀ a ∈ as, P a :=
  (meets_collect on h fun a _ hrest => ⟨hrest.1 a rfl, hrest.2⟩).imp (fun _ hts => hts)
    (fun _ _ hrest => ⟨hrest.1, hrest.2.2⟩) fun _ hr => hr

/-! ### Lists of nodes -/

/-- There are nodes, and all have the property. -/
def Found (P : Node Unit → Prop) (nodes : List (Node Unit)) : Prop :=
  nodes ≠ [] ∧ ∀ n ∈ nodes, P n

theorem found_singleton {P : Node Unit → Prop} {n : Node Unit} (h : P n) : Found P [n] :=
  ⟨List.cons_ne_nil n [], fun _ hm => List.mem_singleton.mp hm ▸ h⟩

theorem Found.imp {P Q : Node Unit → Prop} {nodes : List (Node Unit)} (h : Found P nodes)
    (himp : ∀ n, P n → Q n) : Found Q nodes :=
  ⟨h.1, fun n hn => himp n (h.2 n hn)⟩

/-- It is true of all nodes inside of a node. -/
def HoldsOnly (inside : Node Unit → Prop) (n : Node Unit) : Prop :=
  ∀ part ∈ n.parts, ∀ m ∈ part, inside m

/-- **What is made of a construct:** what has been read inside of it, and nodes that hold such. -/
def Composed (tokens : List Token) (inside : Node Unit → Prop) (k : Construct)
    (n : Node Unit) : Prop :=
  inside n ∨ n.ReadAs tokens k ∧ HoldsOnly inside n

/-- **It is true of leaves, and of all that is read one level further in.** -/
structure Finds (tokens : List Token) (inside : Node Unit → Prop) (inner : Nest) : Prop where
  leaf : ∀ n, n.isLeaf = true → inside n
  read : ∀ k, Meets (k.Opens tokens) (inner.read k)
    (fun nodes rest => Found inside nodes ∧ rest <:+ tokens) (Fault.Warranted tokens)

variable {inside : Node Unit → Prop} {inner : Nest}

theorem all_flatten {lists : List (List (Node Unit))} (h : ∀ nodes ∈ lists, ∀ n ∈ nodes, inside n) :
    ∀ n ∈ lists.flatten, inside n := by
  intro n hn
  obtain ⟨nodes, hnodes, hn⟩ := List.mem_flatten.mp hn
  exact h nodes hnodes n hn

section

variable (hi : Finds tokens inside inner)

include hi

theorem Finds.of_mem {nodes nodes' : List (Node Unit)} (h : ∀ n ∈ nodes, inside n)
    (hsub : ∀ n ∈ nodes', n ∈ nodes ∨ n.isLeaf = true) : ∀ n ∈ nodes', inside n := by
  intro n hn
  rcases hsub n hn with hn | hn
  · exact h n hn
  · exact hi.leaf n hn

theorem Finds.found_leaf {n : Node Unit} (h : n.isLeaf = true) : ∀ nodes ∈ some [n],
    Found inside nodes :=
  fun _ hnodes => Option.some.inj hnodes ▸ found_singleton (hi.leaf n h)

/-- A construct that is opened where it may be, as the answer of a step. -/
theorem Finds.nested (k : Construct) (hts : k.Opens tokens ts) :
    ((some <$> inner.read k) ts).Suits
      (fun o rest => ((∀ nodes ∈ o, Found inside nodes) ∧ o ≠ none) ∧ rest <:+ tokens)
      (Fault.Warranted tokens) := by
  refine ((hi.read k).answer ts hts).imp ?_ fun _ h => h
  rintro _ rest ⟨nodes, rfl, hnodes, hrest⟩
  exact ⟨⟨fun _ h => Option.some.inj h ▸ hnodes, by simp⟩, hrest⟩

theorem reads_fragment : Reads tokens (fragment inner) fun o => ∀ nodes ∈ o,
    Found inside nodes := by
  have hread : ∀ {ts : List Token} (k : Construct), k.Opens tokens ts →
      ((some <$> inner.read k) ts).Suits
        (fun o rest => (∀ nodes ∈ o, Found inside nodes) ∧ rest <:+ tokens)
        (Fault.Warranted tokens) := fun k hts =>
    (hi.nested k hts).imp (fun _ _ h => ⟨h.1.1, h.2⟩) fun _ h => h
  intro ts hts
  unfold fragment
  split
  · exact hread .rule ⟨List.cons_ne_nil _ _, hts⟩
  · exact hread .rule ⟨List.cons_ne_nil _ _, hts⟩
  · exact ⟨nofun, hts⟩
  · exact hread .ifBlock ⟨_, _, _, rfl, hts⟩
  · exact hread .whileBlock ⟨_, _, _, rfl, hts⟩
  · exact hread .tag ⟨List.cons_ne_nil _ _, hts⟩
  · exact ⟨hi.found_leaf rfl, suffix_of_cons (suffix_of_cons hts)⟩
  · exact ⟨hi.found_leaf rfl, suffix_of_cons hts⟩
  · exact ⟨hi.found_leaf rfl, suffix_of_cons hts⟩
  · exact ⟨hi.found_leaf rfl, suffix_of_cons hts⟩
  · exact ⟨nofun, hts⟩

theorem reads_sequence : Reads tokens (sequence inner) fun nodes => ∀ n ∈ nodes, inside n :=
  (reads_collect _ (reads_fragment hi)).andThen fun _ h =>
    reads_done (all_flatten fun nodes hn => (h nodes hn).2)

theorem reads_stray (stops : Token → Bool) :
    Reads tokens (stray stops) fun o => ∀ nodes ∈ o, Found inside nodes := by
  intro ts hts
  cases ts with
  | nil => exact ⟨nofun, hts⟩
  | cons t rest =>
    rw [stray]
    split
    · exact ⟨nofun, hts⟩
    · exact ⟨hi.found_leaf rfl, suffix_of_cons hts⟩

theorem reads_piece (stops : Token → Bool) :
    Reads tokens (piece inner stops) fun o => ∀ nodes ∈ o, Found inside nodes := by
  refine (reads_fragment hi).andThen fun o ho => ?_
  cases o with
  | some nodes => exact reads_done ho
  | none => exact reads_stray hi stops

/-- **What is read up to a stopper,** with no two texts side by side. -/
theorem reads_block (stops : Token → Bool) :
    Reads tokens (block inner stops) fun nodes => Apart nodes ∧ ∀ n ∈ nodes, inside n :=
  (reads_collect _ (reads_piece hi stops)).andThen fun _ h =>
    reads_done ⟨apart_mergeTexts _,
      hi.of_mem (all_flatten fun nodes hn => (h nodes hn).2) mem_mergeTexts⟩

/-! ### Lists -/

theorem reads_nextMember (listing : Listing) (stops : Token → Bool) :
    Reads tokens (nextMember inner listing stops) fun o =>
      ∀ v ∈ o, v ≠ [] ∧ Apart v ∧ ∀ n ∈ v, inside n := by
  refine (reads_accept _).andThen fun comma _ => ?_
  cases comma with
  | false => exact reads_done nofun
  | true =>
    refine (reads_block hi stops).andThen fun more h =>
      (reads_refuseIf _ (by trivial)).andThen fun _ hne => reads_done fun v hv => ?_
    obtain rfl := Option.some.inj hv
    exact ⟨by simpa using hne, h⟩

theorem reads_members (listing : Listing) (closer : Char) :
    Reads tokens (members inner listing closer) fun values =>
      Members values ∧ ∀ v ∈ values, ∀ n ∈ v, inside n := by
  refine (reads_block hi _).andThen fun first hfirst =>
    (reads_collect _ (reads_nextMember hi listing _)).andThen fun more hmore =>
      reads_done ⟨⟨?_, ?_, ?_⟩, ?_⟩
  · exact List.cons_ne_nil first more
  · exact fun v hv => (hmore v hv).1
  · exact List.forall_mem_cons.mpr ⟨hfirst.1, fun v hv => (hmore v hv).2.1⟩
  · exact List.forall_mem_cons.mpr ⟨hfirst.2, fun v hv => (hmore v hv).2.2⟩

theorem readsNext_candidates (listing : Listing) :
    ReadsNext tokens (candidates inner listing) fun values =>
      Members values ∧ ∀ v ∈ values, ∀ n ∈ v, inside n :=
  readsNext_take.andThen fun _ _ => (reads_members hi listing ')').andThen fun _ h =>
    (reads_expect _ (by trivial)).andThen fun _ _ => reads_done h

theorem reads_parameters : Reads tokens (parameters inner) fun values =>
    (values = [] ∨ Members values ∧ values ≠ [[]]) ∧ ∀ v ∈ values, ∀ n ∈ v, inside n := by
  refine (reads_accept _).andThen fun called _ => ?_
  cases called with
  | false => exact reads_done ⟨.inl rfl, nofun⟩
  | true =>
    refine (reads_members hi .parameters ')').andThen fun values h =>
      (reads_expect _ (by trivial)).andThen fun _ _ => reads_done ?_
    split
    · exact ⟨.inl rfl, nofun⟩
    · rename_i hsingle
      refine ⟨.inr ⟨h.1, ?_⟩, h.2⟩
      rintro rfl
      exact hsingle rfl

theorem reads_modifiers (rule : String) : Reads tokens (modifiers inner rule) fun mods =>
    (Worded tokens → ∀ m ∈ mods, m.Formed) ∧
      ∀ v ∈ mods.flatMap Modifier.parameters, ∀ n ∈ v, inside n := by
  have hnext : Reads tokens (nextModifier inner rule) fun o =>
      ∀ m ∈ o, (Worded tokens → m.Formed) ∧ ∀ v ∈ m.parameters, ∀ n ∈ v, inside n := by
    refine (reads_accept _).andThen fun dot _ => ?_
    cases dot with
    | false => exact reads_done nofun
    | true =>
      refine (reads_name (by trivial)).andThen fun n hn =>
        (reads_parameters hi).andThen fun values hv => reads_done fun m hm => ?_
      obtain rfl := Option.some.inj hm
      exact ⟨fun hw => ⟨hn hw, hv.1⟩, hv.2⟩
  refine (reads_collect _ hnext).imp (fun _ hts => hts) (fun mods rest h => ?_) fun _ hr => hr
  refine ⟨⟨fun hw m hm => (h.1 m hm).1 hw, fun v hv => ?_⟩, h.2⟩
  obtain ⟨m, hm, hv⟩ := List.mem_flatMap.mp hv
  exact (h.1 m hm).2 v hv

/-! ### Rules and tags -/

omit hi

/-- The closing mark of a reference does not come next. -/
def Unclosed (ts : List Token) : Prop :=
  ∀ t ∈ ts.head?, closesRule t = false

theorem meets_name? : Meets (fun ts => ts <:+ tokens ∧ Unclosed ts) name? (fun found rest =>
    (∀ s ∈ found, Worded tokens → s ≠ "") ∧ (found = none → Unclosed rest) ∧ rest <:+ tokens)
    (Fault.Warranted tokens) := by
  rintro ts ⟨hts, hclosed⟩
  unfold name?
  split
  · exact ⟨fun s hs hw => Option.some.inj hs ▸ (hw.of_suffix hts).text_ne, nofun,
      suffix_of_cons hts⟩
  · exact ⟨fun s hs _ => Option.some.inj hs ▸ by simp, nofun, suffix_of_cons hts⟩
  · exact ⟨nofun, fun _ => hclosed, hts⟩

include hi

/-- **A reference without a name has a modifier,** for without one its closing mark would have come
first. -/
theorem meets_rule {name : String} {r : Fault} (hr : r.Warranted tokens) :
    Meets (fun ts => ts <:+ tokens ∧ (Worded tokens → name = "" → Unclosed ts))
      (modifiers inner name >>= fun chain => expect closesRule r >>= fun _ =>
        done (.rule name chain))
      (fun n rest => Composed tokens inside .rule n ∧ rest <:+ tokens)
      (Fault.Warranted tokens) := by
  have hchain := (reads_modifiers hi name).of_imp
    (P := fun ts => ts <:+ tokens ∧ (Worded tokens → name = "" → Unclosed ts)) fun _ hts => hts.1
  have hnone := hchain.also
    (P := fun chain rest => Worded tokens → name = "" → chain = [] → Unclosed rest) <| by
      rintro ts chain rest hts hread hw hname rfl
      rw [eq_of_modifiers_nil hread]
      exact hts.2 hw hname
  refine hnone.bind fun chain => ?_
  rintro ts ⟨⟨⟨hformed, hparts⟩, hts⟩, hunclosed⟩
  -- nothing has been taken since it was seen that the closing mark does not come next
  have hclose := (reads_expect closesRule hr).of_imp (P := fun us => us = ts)
    fun _ heq => heq ▸ hts
  have hnamed := hclose.also (P := fun _ _ => Worded tokens → name = "" → chain ≠ []) <| by
    rintro _ _ rest rfl hread hw hname hnil
    obtain ⟨t, rfl, ht⟩ := exists_of_expect hread
    rw [hunclosed hw hname hnil t rfl] at ht
    cases ht
  refine (hnamed.bind fun _ => meets_done ?_) ts rfl
  rintro rest ⟨⟨-, hrest⟩, hnamed⟩
  exact ⟨.inr ⟨⟨rfl, trivial, fun hw => ⟨hnamed hw, hformed hw⟩⟩, hparts⟩, hrest⟩

theorem readsNext_choice {rule : String} {r : Fault} (hr : r.Warranted tokens) :
    ReadsNext tokens (candidates inner .choices >>= fun values =>
      modifiers inner rule >>= fun chain =>
      expect closesRule r >>= fun _ => done (.choice () values chain))
        (Composed tokens inside .rule) :=
  (readsNext_candidates hi _).andThen fun _ hv => (reads_modifiers hi _).andThen fun _ hc =>
    (reads_expect _ hr).andThen fun _ _ => reads_done <| .inr
      ⟨⟨rfl, hv.1.some, fun hw => ⟨hv.1, hc.1 hw⟩⟩, fun part hp =>
        (List.mem_append.mp hp).elim (hv.2 part) (hc.2 part)⟩

theorem readsNext_define {name : String} (hname : Worded tokens → name ≠ "") {r : Fault}
    (hr : r.Warranted tokens) : ReadsNext tokens (candidates inner .candidates >>= fun values =>
      expect closesRule r >>= fun _ => done (.define name values)) (Composed tokens inside .rule) :=
  (readsNext_candidates hi _).andThen fun _ hv => (reads_expect _ hr).andThen fun _ _ =>
    reads_done <| .inr ⟨⟨rfl, hv.1.some, fun hw => ⟨hname hw, hv.1⟩⟩, hv.2⟩

theorem meets_referenceBody : Meets (fun ts => ts <:+ tokens ∧ Unclosed ts) (referenceBody inner)
    (fun n rest => Composed tokens inside .rule n ∧ rest <:+ tokens) (Fault.Warranted tokens) := by
  refine meets_name?.bind fun found => meets_peek.bind fun next => ?_
  dsimp only
  -- candidates are read only where their parenthesis has been seen
  have hopens : (next == some (.op '(')) = true → ∀ ts : List Token, next = ts.head? → ts ≠ [] := by
    rintro hnext _ rfl rfl
    cases hnext
  generalize (next == some (.op '(')) = opens at hopens
  rintro ts ⟨hnext, hnames, hnone, hts⟩
  cases opens with
  | true =>
    cases found with
    | none => exact readsNext_choice hi (by trivial) ts ⟨hopens rfl ts hnext, hts⟩
    | some n => exact readsNext_define hi (hnames n rfl) (by trivial) ts ⟨hopens rfl ts hnext, hts⟩
  | false =>
    cases found with
    | none => exact meets_rule hi (by trivial) ts ⟨hts, fun _ _ => hnone rfl⟩
    | some n =>
      exact meets_rule hi (by trivial) ts ⟨hts, fun hw hname => absurd hname (hnames n rfl hw)⟩

theorem reads_leadingTag :
    Reads tokens (leadingTag inner) fun o => ∀ nodes ∈ o, Found inside nodes := by
  intro ts hts
  unfold leadingTag
  split
  · exact (hi.nested .tag ⟨List.cons_ne_nil _ _, hts⟩).imp (fun _ _ h => ⟨h.1.1, h.2⟩) fun _ h => h
  · exact ⟨nofun, hts⟩

theorem readsNext_reference :
    ReadsNext tokens (reference inner) (Found (Composed tokens inside .rule)) := by
  have hlast : ∀ {lists : List (List (Node Unit))} {n : Node Unit},
      (∀ nodes ∈ lists, Found inside nodes) → Composed tokens inside .rule n →
        Found (Composed tokens inside .rule) (lists.flatten ++ [n]) := by
    intro lists n hlists hn
    refine ⟨by simp, List.forall_mem_append.mpr ⟨fun m hm => .inl ?_, by simpa using hn⟩⟩
    exact all_flatten (fun nodes hnodes => (hlists nodes hnodes).2) m hm
  refine readsNext_take.andThen fun _ _ => (reads_collect _ (reads_leadingTag hi)).andThen
    fun tags htags => ((reads_accept closesRule).also (P := fun closed rest =>
      closed = false → Unclosed rest) ?_).bind fun closed => ?_
  · rintro ts _ rest - hread rfl
    obtain ⟨rfl, hunclosed⟩ := of_accept_false hread
    exact hunclosed
  · rintro ts ⟨⟨-, hts⟩, hunclosed⟩
    cases closed with
    | true => exact ⟨hlast htags (.inl (hi.leaf _ rfl)), hts⟩
    | false =>
      exact ((meets_referenceBody hi).andThen fun n hn => reads_done (hlast htags hn)) ts
        ⟨hts, hunclosed rfl⟩

theorem reads_assignment :
    Reads tokens (assignment inner) (Found (Composed tokens inside .tag)) := by
  refine (reads_name (by trivial)).andThen fun n hn =>
    (reads_expect _ (by trivial)).andThen fun _ _ =>
      (reads_members hi .tagValues ']').andThen fun values hv =>
        (reads_refuseIf _ (by trivial)).andThen fun _ hfirst =>
          reads_done (found_singleton (.inr ?_))
  refine ⟨⟨rfl, hv.1.some, fun hw => ⟨hn hw, hv.1, hv.1.ne_nil fun hnil => ?_⟩⟩, hv.2⟩
  rw [hnil] at hfirst
  cases hfirst

/-- Where the parts of a tag end, its closing mark stands. -/
theorem meets_tagPart : Meets (· <:+ tokens) (tagPart inner) (fun o rest =>
    ((∀ nodes ∈ o, Found (Composed tokens inside .tag) nodes) ∧ (o = none → rest ≠ [])) ∧
      rest <:+ tokens) (Fault.Warranted tokens) := by
  have hread : ∀ {ts : List Token} (k : Construct), k.Opens tokens ts →
      ((some <$> inner.read k) ts).Suits (fun o rest =>
        ((∀ nodes ∈ o, Found (Composed tokens inside .tag) nodes) ∧ (o = none → rest ≠ [])) ∧
          rest <:+ tokens) (Fault.Warranted tokens) := fun k hts =>
    (hi.nested k hts).imp (fun _ _ h => ⟨⟨fun nodes hn => (h.1.1 nodes hn).imp fun _ => .inl,
      fun hnone => absurd hnone h.1.2⟩, h.2⟩) fun _ h => h
  intro ts hts
  unfold tagPart
  split
  · trivial
  · exact ⟨⟨nofun, fun _ => List.cons_ne_nil _ _⟩, hts⟩
  · exact hread .rule ⟨List.cons_ne_nil _ _, hts⟩
  · exact hread .rule ⟨List.cons_ne_nil _ _, hts⟩
  · exact hread .tag ⟨List.cons_ne_nil _ _, hts⟩
  · refine ((reads_assignment hi).answer _ hts).imp ?_ fun _ h => h
    rintro _ rest ⟨nodes, rfl, hnodes, hrest⟩
    exact ⟨⟨fun _ h => Option.some.inj h ▸ hnodes, nofun⟩, hrest⟩

theorem readsNext_tag : ReadsNext tokens (tag inner) (Found (Composed tokens inside .tag)) := by
  have hparts := meets_collect (takes_tagPart inner) (P := Found (Composed tokens inside .tag))
    (meets_tagPart hi) fun nodes _ h => ⟨h.1.1 nodes rfl, h.2⟩
  refine readsNext_take.andThen fun _ _ => hparts.andThen fun parts h => ?_
  have hsome : Meets (fun ts => ts ≠ [] ∧ ts <:+ tokens) (refuseIf parts.isEmpty .emptyTag)
      (fun _ ts => parts.isEmpty = false ∧ ts ≠ [] ∧ ts <:+ tokens) (Fault.Warranted tokens) :=
    meets_refuseIf _ (by trivial)
  refine (hsome.of_imp fun ts hts => ⟨hts.1.2 rfl, hts.2⟩).andThen fun _ hsome =>
    readsNext_take.andThen fun _ _ => reads_done ⟨?_, all_flatten fun nodes hn => (h nodes hn).2⟩
  cases parts with
  | nil => cases hsome
  | cons part more => simp [(h part List.mem_cons_self).1]

/-! ### Blocks -/

theorem readsNext_operand (symbol : Token) : ReadsNext tokens (operand inner symbol) fun nodes =>
    nodes ≠ [] ∧ ∀ n ∈ nodes, inside n :=
  readsNext_take.andThen fun _ _ => (reads_accept _).andThen fun _ _ =>
    (reads_sequence hi).andThen fun _ h => (reads_refuseIf _ (by trivial)).andThen fun _ hne =>
      reads_done ⟨by simpa using hne, h⟩

theorem readsNext_set : ReadsNext tokens (set inner) fun nodes =>
    nodes ≠ [] ∧ ∀ n ∈ nodes, inside n :=
  readsNext_take.andThen fun _ _ => (reads_accept _).andThen fun _ _ =>
    (reads_sequence hi).andThen fun _ h => (reads_refuseIf _ (by trivial)).andThen fun _ hne =>
      reads_done ⟨by simpa using hne, h⟩

theorem reads_comparand : Reads tokens (comparand inner) fun x =>
    (∀ left, Condition.Formed ⟨left, x.1, stripTrailingSpace x.2⟩) ∧ ∀ n ∈ x.2, inside n := by
  refine meets_peek.bind fun next => ?_
  -- an operator that has been seen is there to be taken
  have hnext : ∀ ts : List Token, ∀ t, some t = ts.head? ∧ ts <:+ tokens →
      ts ≠ [] ∧ ts <:+ tokens := by
    rintro _ t ⟨hhead, hts⟩
    refine ⟨?_, hts⟩
    rintro rfl
    cases hhead
  split
  · exact (((readsNext_operand hi _).andThen fun right h =>
      reads_done ⟨fun _ hop => by simp at hop, h.2⟩).of_imp (hnext · _))
  · exact (((readsNext_operand hi _).andThen fun right h =>
      reads_done ⟨fun _ hop => by simp at hop, h.2⟩).of_imp (hnext · _))
  · exact (((readsNext_set hi).andThen fun right h =>
      reads_done ⟨(formed_membership false · h.1), h.2⟩).of_imp (hnext · _))
  · exact (((readsNext_set hi).andThen fun right h =>
      reads_done ⟨(formed_membership true · h.1), h.2⟩).of_imp (hnext · _))
  · exact fun _ hts => ⟨⟨fun _ hop => by simp at hop, (found_singleton (hi.leaf _ rfl)).2⟩, hts.2⟩

theorem reads_condition : Reads tokens (condition inner) fun c =>
    c.Formed ∧ (∀ n ∈ c.left, inside n) ∧ ∀ n ∈ c.right, inside n :=
  (reads_sequence hi).andThen fun _ hleft => (reads_comparand hi).andThen fun _ hx => reads_done
    ⟨hx.1 _, hi.of_mem hleft mem_stripTrailingSpace, hi.of_mem hx.2 mem_stripTrailingSpace⟩

theorem readsBehind_wordBlock (word : Keyword) (stops : Token → Bool) :
    ReadsBehind tokens (wordBlock inner word stops) fun nodes =>
      Apart nodes ∧ ∀ n ∈ nodes, inside n :=
  (readsBehind_space word).andThen fun _ _ => (reads_block hi stops).andThen fun _ h =>
    (reads_refuseIf _ (by trivial)).andThen fun _ _ => reads_done h

omit hi in
/-- The two tokens that open a block, and the space behind them. -/
theorem meets_opening (word : Keyword) {next : Parser α} {P : α → Prop} (h : Reads tokens next P) :
    Meets (Construct.ifBlock.Opens tokens)
      (take >>= fun _ => take >>= fun _ => space word >>= fun _ => next)
      (fun a rest => P a ∧ rest <:+ tokens) (Fault.Warranted tokens) := by
  rintro _ ⟨t, opener, rest, rfl, hts⟩
  exact ((readsBehind_space word).andThen fun _ _ => h) rest ⟨opener, suffix_of_cons hts⟩

theorem meets_ifBlock : Meets (Construct.ifBlock.Opens tokens) (ifBlock inner)
    (fun nodes rest => Found (Composed tokens inside .ifBlock) nodes ∧ rest <:+ tokens)
    (Fault.Warranted tokens) := by
  refine meets_opening .ifWord ((reads_condition hi).andThen fun c hc =>
    (meets_expect_keyword .thenWord (by trivial)).andThen fun _ _ =>
      (readsBehind_wordBlock hi _ _).andThen fun yes hyes =>
        (meets_accept_keyword .elseWord).bind fun otherwise => ?_)
  cases otherwise with
  | true =>
    refine (readsBehind_wordBlock hi _ _).andThen fun no hno =>
      (reads_expect _ (by trivial)).andThen fun _ _ =>
        reads_done (found_singleton (.inr ⟨⟨rfl, trivial, fun _ => ?_⟩, ?_⟩))
    · exact ⟨hc.1, apart_stripTrailingSpace hyes.1, fun _ hb => Option.some.inj hb ▸ hno.1⟩
    · simp only [HoldsOnly, parts, Option.toList, List.mem_cons, List.not_mem_nil, or_false]
      rintro part (rfl | rfl | rfl | rfl)
      · exact hc.2.1
      · exact hc.2.2
      · exact hi.of_mem hyes.2 mem_stripTrailingSpace
      · exact hno.2
  | false =>
    refine (reads_expect _ (by trivial)).andThen fun _ _ =>
      reads_done (found_singleton (.inr ⟨⟨rfl, trivial, fun _ => ?_⟩, ?_⟩))
    · exact ⟨hc.1, hyes.1, fun _ hb => absurd hb (Option.not_mem_none _)⟩
    · simp only [HoldsOnly, parts, Option.toList, List.mem_cons, List.not_mem_nil, or_false]
      rintro part (rfl | rfl | rfl)
      · exact hc.2.1
      · exact hc.2.2
      · exact hyes.2

theorem meets_whileBlock : Meets (Construct.whileBlock.Opens tokens) (whileBlock inner)
    (fun nodes rest => Found (Composed tokens inside .whileBlock) nodes ∧ rest <:+ tokens)
    (Fault.Warranted tokens) := by
  refine meets_opening .whileWord ((reads_condition hi).andThen fun c hc =>
    (meets_expect_keyword .doWord (by trivial)).andThen fun _ _ =>
      (readsBehind_wordBlock hi _ _).andThen fun body hbody =>
        (reads_expect _ (by trivial)).andThen fun _ _ => reads_done (found_singleton (.inr
          ⟨⟨rfl, trivial, fun _ => ⟨hc.1, hbody.1⟩⟩, ?_⟩)))
  simp only [HoldsOnly, parts, List.mem_cons, List.not_mem_nil, or_false]
  rintro part (rfl | rfl | rfl)
  · exact hc.2.1
  · exact hc.2.2
  · exact hbody.2

/-- **Every construct,** opened where it may be. -/
theorem meets_construct (k : Construct) : Meets (k.Opens tokens) (construct inner k)
    (fun nodes rest => Found (Composed tokens inside k) nodes ∧ rest <:+ tokens)
    (Fault.Warranted tokens) := by
  cases k with
  | rule => exact readsNext_reference hi
  | tag => exact readsNext_tag hi
  | ifBlock => exact meets_ifBlock hi
  | whileBlock => exact meets_whileBlock hi

end

/-! ### From level to level -/

/-- **What is true of all nodes, level by level.**  It is true of leaves, and stays true further
out; and it is true of a node that has been read as a construct within the tokens, if it is true of
all nodes inside. -/
structure Grows (tokens : List Token) (good : Nat → Node Unit → Prop) : Prop where
  leaf : ∀ d n, n.isLeaf = true → good d n
  keep : ∀ d n, good d n → good (d + 1) n
  construct : ∀ {d k ts nodes rest n}, ts <:+ tokens →
    Parser.construct (nest d) k ts = .ok nodes rest →
    n ∈ nodes → n.ReadAs tokens k → HoldsOnly (good d) n → good (d + 1) n

theorem grows_true : Grows tokens fun _ _ => True :=
  ⟨fun _ _ _ => trivial, fun _ _ _ => trivial, fun _ _ _ _ _ => trivial⟩

namespace Grows

variable {good : Nat → Node Unit → Prop} (hG : Grows tokens good)

include hG

/-- **The reader of a level** finds what is good on it, by induction on the levels it may open. -/
theorem finds (d : Nat) : Finds tokens (good d) (nest d) := by
  induction d with
  | zero => exact ⟨hG.leaf 0, fun _ => meets_refuse trivial⟩
  | succ d ih =>
    refine ⟨hG.leaf (d + 1), fun k ts hts => ?_⟩
    have hread := meets_construct ih k ts hts
    show (Parser.construct (nest d) k ts).Suits _ _
    cases hok : Parser.construct (nest d) k ts with
    | fault r rest =>
      rw [hok] at hread
      exact hread
    | ok nodes rest =>
      rw [hok] at hread
      refine ⟨⟨hread.1.1, fun n hn => ?_⟩, hread.2⟩
      rcases hread.1.2 n hn with hin | ⟨hshape, hholds⟩
      · exact hG.keep d n hin
      · exact hG.construct hts.suffix hok hn hshape hholds

/-- **The whole of a template.** -/
theorem template : Reads tokens (block (nest maxNesting) fun _ => false) fun nodes =>
    Apart nodes ∧ ∀ n ∈ nodes, good maxNesting n :=
  reads_block (hG.finds maxNesting) _

theorem parse {nodes : List (Node Unit)} (h : parse tokens = .ok nodes) :
    Apart nodes ∧ ∀ n ∈ nodes, good maxNesting n := by
  unfold TemplateGrammar.parse at h
  split at h
  · rename_i nodes' rest hread
    obtain rfl := Except.ok.inj h
    exact (hG.template.of_ok List.suffix_rfl hread).1
  · cases h

end Grows

end Parser

/-- **No template is refused for no reason.** -/
theorem warranted_of_parse {tokens : List Token} {f : ParseFailure} (h : parse tokens = .error f) :
    f.fault.Warranted tokens := by
  unfold parse at h
  split at h
  · cases h
  · rename_i r rest hread
    obtain rfl := Except.error.inj h
    exact Parser.grows_true.template.of_fault List.suffix_rfl hread

end TemplateGrammar
