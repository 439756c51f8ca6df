import Mathlib.Data.List.Chain
import TemplateGrammar.Proofs.Template.Tokens
import TemplateGrammar.Template.Parser

/-!
# How lists of nodes are read

Everything here is about a reader `inner` of nested constructs that is known to read the nodes
inside: from the front of any token list it takes the tokens of such a node and answers with the
node (`Parses inner n`).  From that, nodes are read up to the token that ends them, values up to
their closer, and modifiers up to what cannot go on a chain.

What follows a list matters only by its first token, which must be unable to start a node
(`startsNode`) and, in a block, must be one that stops it (`Closes`).
-/

namespace TemplateGrammar

namespace Parser

variable {α β : Type} {ts rest : List Token}

/-! ### One step after another -/

theorem bind_ok {p : Parser α} {a : α} (h : p ts = .ok a rest) (f : α → Parser β) :
    (p >>= f) ts = f a rest := by
  simp only [bind, andThen, h]

theorem map_ok {p : Parser α} {a : α} (h : p ts = .ok a rest) (f : α → β) :
    (f <$> p) ts = .ok (f a) rest := by
  simp only [Functor.map, andThen, h, Function.comp, done]

theorem take_cons (t : Token) : take (t :: ts) = .ok () ts :=
  rfl

theorem accept_head {these : Token → Bool} {t : Token} (h : these t = true) :
    accept these (t :: ts) = .ok true ts := by
  simp only [accept, h, if_true]

theorem accept_none {these : Token → Bool} (h : ∀ t ∈ ts.head?, these t = false) :
    accept these ts = .ok false ts := by
  cases ts with
  | nil => rfl
  | cons t more =>
    have ht : these t = false := h t rfl
    simp only [accept, ht, Bool.false_eq_true, if_false]

theorem of_head {P : Token → Prop} {t : Token} (h : P t) : ∀ u ∈ (t :: ts).head?, P u := by
  intro u hu
  exact Option.some.inj hu ▸ h

theorem accept_other {these : Token → Bool} {t : Token} (h : these t = false) :
    accept these (t :: ts) = .ok false (t :: ts) :=
  accept_none (of_head h)

theorem expect_head {these : Token → Bool} {t : Token} (h : these t = true) (r : Fault) :
    expect these r (t :: ts) = .ok () ts := by
  simp only [expect, h, if_true]

theorem refuseIf_false {b : Bool} (h : b = false) (r : Fault) : refuseIf b r ts = .ok () ts := by
  rw [h]
  rfl

/-! ### Reading on and on -/

theorem collect_none {step : Parser (Option α)} (on : Takes step goesOn)
    (h : step ts = .ok none rest) : collect step on ts = .ok [] rest := by
  rw [collect.eq_def]
  split
  · simp_all
  · simp_all
  · simp_all

theorem collect_some {step : Parser (Option α)} (on : Takes step goesOn) {a : α} {as : List α}
    {left : List Token} (h : step ts = .ok (some a) rest)
    (hmore : collect step on rest = .ok as left) :
    collect step on ts = .ok (a :: as) left := by
  rw [collect.eq_def]
  split
  · simp_all
  · simp_all
  · rename_i b more hb
    rw [h, Outcome.ok.injEq] at hb
    obtain ⟨hab, rfl⟩ := hb
    simp only [hmore, Option.some.inj hab]

/-- **A step that reads each of some things, one behind the other,** reads them all, if what stands
behind each suits it and it stops at what stands behind the last. -/
theorem collect_all {step : Parser (Option α)} (on : Takes step goesOn) (written : β → List Token)
    (value : β → α) (Suits : List Token → Prop) {things : List β}
    (hstep : ∀ x ∈ things, ∀ rest, Suits rest →
      step (written x ++ rest) = .ok (some (value x)) rest)
    (hsuits : ∀ x ∈ things, ∀ rest, Suits (written x ++ rest)) (hrest : Suits rest)
    (hstop : step rest = .ok none rest) :
    collect step on (things.flatMap written ++ rest) = .ok (things.map value) rest := by
  induction things with
  | nil => exact collect_none on hstop
  | cons x more ih =>
    have hmore := ih (fun y hy => hstep y (List.mem_cons_of_mem x hy)) fun y hy =>
      hsuits y (List.mem_cons_of_mem x hy)
    have hnext : Suits (more.flatMap written ++ rest) := by
      cases more with
      | nil => exact hrest
      | cons y last =>
        rw [List.flatMap_cons, List.append_assoc]
        exact hsuits y (by simp) _
    rw [List.flatMap_cons, List.append_assoc]
    exact collect_some on (hstep x List.mem_cons_self _ hnext) hmore

/-! ### Nodes -/

/-- The token can start a node. -/
def startsNode : Token → Bool
  | .op c => c == '#' || c == '{' || c == '[' || c == ':'
  | .text _ | .number _ => true
  | _ => false

/-- What stands here ends a block: nothing, or a stopper that cannot start a node. -/
def Closes (stops : Token → Bool) (ts : List Token) : Prop :=
  ∀ t ∈ ts.head?, startsNode t = false ∧ stops t = true

theorem closes_cons {stops : Token → Bool} {t : Token} (h : startsNode t = false)
    (hs : stops t = true) : Closes stops (t :: ts) :=
  of_head ⟨h, hs⟩

/-- The reader takes the tokens of the node from the front of any list and answers with the node. -/
def Parses (inner : Nest) (n : Node Unit) : Prop :=
  ∀ rest, fragment inner (n.tokens ++ rest) = .ok (some [n]) rest

theorem fragment_none {inner : Nest} (h : ∀ t ∈ ts.head?, startsNode t = false) :
    fragment inner ts = .ok none ts := by
  cases ts with
  | nil => rfl
  | cons t more =>
    have ht : startsNode t = false := h t rfl
    unfold fragment
    split <;> first
      | rfl
      | (rename_i heq
         rw [(List.cons.inj heq).1] at ht
         cases ht)

theorem piece_some {inner : Nest} {stops : Token → Bool} {nodes : List (Node Unit)}
    (h : fragment inner ts = .ok (some nodes) rest) :
    piece inner stops ts = .ok (some nodes) rest := by
  rw [piece, bind_ok h]
  rfl

theorem piece_none {inner : Nest} {stops : Token → Bool} (h : Closes stops ts) :
    piece inner stops ts = .ok none ts := by
  rw [piece, bind_ok (fragment_none fun t ht => (h t ht).1)]
  cases ts with
  | nil => rfl
  | cons t more =>
    have hstop : stops t = true := (h t rfl).2
    simp only [stray, hstop, if_true]

theorem listTokens_eq_flatMap (nodes : List (Node Unit)) :
    Node.listTokens nodes = nodes.flatMap Node.tokens := by
  induction nodes with
  | nil => rfl
  | cons n more ih => rw [Node.listTokens, ih, List.flatMap_cons]

theorem flatten_singletons (nodes : List (Node Unit)) :
    (nodes.map fun n => [n]).flatten = nodes := by
  induction nodes with
  | nil => rfl
  | cons n more ih => rw [List.map_cons, List.flatten_cons, ih, List.singleton_append]

theorem mergeTexts_eq_self {nodes : List (Node Unit)} (h : Node.Apart nodes) :
    mergeTexts nodes = nodes := by
  induction nodes with
  | nil => rfl
  | cons n more ih =>
    have hmore := ih h.of_cons
    cases n with
    | text s =>
      rw [mergeTexts, hmore]
      cases more with
      | nil => rfl
      | cons m last =>
        cases m with
        | text t => exact absurd ⟨rfl, rfl⟩ (List.isChain_cons_cons.mp h).1
        | _ => rfl
    | _ =>
      rw [mergeTexts, hmore]
      simp

/-- A list of nodes the reader reads, none of its texts empty nor next to another. -/
structure PartParses (inner : Nest) (nodes : List (Node Unit)) : Prop where
  each : ∀ n ∈ nodes, Parses inner n
  apart : Node.Apart nodes
  filled : ∀ s, .text s ∈ nodes → s ≠ ""

/-- A part of a construct: a list of nodes that is read and is not empty. -/
def PartRead (inner : Nest) (part : List (Node Unit)) : Prop :=
  PartParses inner part ∧ part ≠ []

theorem parses_text (inner : Nest) (s : String) : Parses inner (.text s) := by
  intro rest
  rfl

theorem parses_weight (inner : Nest) (n : Nat) : Parses inner (.weight n) := by
  intro rest
  rfl

section Lists

variable {inner : Nest} {nodes : List (Node Unit)}

/-- What a space behind a list makes of it: it is put into a last text, or becomes a text of its
own. -/
theorem spaced_eq (nodes : List (Node Unit)) : ∃ before,
    (nodes = before ∧ (∀ n ∈ before.getLast?, n.isText = false) ∧
      Node.spaced nodes = before ++ [.text " "]) ∨
      ∃ s, nodes = before ++ [.text s] ∧ Node.spaced nodes = before ++ [.text (s ++ " ")] := by
  fun_induction Node.spaced nodes with
  | case1 => exact ⟨[], .inl ⟨rfl, by simp, rfl⟩⟩
  | case2 s => exact ⟨[], .inr ⟨s, rfl, rfl⟩⟩
  | case3 n rest hn ih =>
    rcases ih with ⟨before, ⟨hb, hlast, hs⟩ | ⟨s, hb, hs⟩⟩
    · subst hb
      refine ⟨n :: rest, .inl ⟨rfl, ?_, by rw [hs, List.cons_append]⟩⟩
      cases rest with
      | nil =>
        intro m hm
        obtain rfl : n = m := by simpa using hm
        cases n with
        | text s => exact absurd rfl (hn s rfl)
        | _ => rfl
      | cons m more => simpa using hlast
    · exact ⟨n :: before, .inr ⟨s, by rw [hb, List.cons_append], by rw [hs, List.cons_append]⟩⟩

theorem PartParses.spaced (h : PartParses inner nodes) : PartParses inner (Node.spaced nodes) := by
  obtain ⟨before, ⟨rfl, hlast, hs⟩ | ⟨s, rfl, hs⟩⟩ := spaced_eq nodes
  · rw [hs]
    refine ⟨?_, ?_, ?_⟩
    · intro n hn
      rcases List.mem_append.mp hn with hn | hn
      · exact h.each n hn
      · rw [List.mem_singleton.mp hn]
        exact parses_text inner " "
    · refine h.apart.append (List.isChain_singleton _) ?_
      intro n hn m _ hnm
      have ht := hnm.1
      rw [hlast n hn] at ht
      cases ht
    · intro t ht
      rcases List.mem_append.mp ht with ht | ht
      · exact h.filled t ht
      · obtain rfl : t = " " := by simpa using ht
        decide
  · rw [hs]
    refine ⟨?_, ?_, ?_⟩
    · intro n hn
      rcases List.mem_append.mp hn with hn | hn
      · exact h.each n (List.mem_append_left _ hn)
      · rw [List.mem_singleton.mp hn]
        exact parses_text inner _
    · -- whether two nodes may be neighbours does not depend on what a text says
      have ha := List.isChain_append.mp h.apart
      refine List.isChain_append.mpr ⟨ha.1, List.isChain_singleton _, fun n hn m hm => ?_⟩
      have := ha.2.2 n hn (.text s) rfl
      obtain rfl : Node.text (s ++ " ") = m := by simpa using hm
      exact this
    · intro t ht
      rcases List.mem_append.mp ht with ht | ht
      · exact h.filled t (List.mem_append_left _ ht)
      · obtain rfl : t = s ++ " " := by simpa using ht
        simp

theorem stripTrailingSpace_spaced (h : PartParses inner nodes) :
    stripTrailingSpace (Node.spaced nodes) = nodes := by
  obtain ⟨before, ⟨rfl, hlast, hs⟩ | ⟨s, rfl, hs⟩⟩ := spaced_eq nodes
  · rw [hs]
    simp [stripTrailingSpace]
  · have hne : s ≠ "" := h.filled s (by simp)
    have hspace : s ++ " " ≠ " " := fun he => hne (by simpa using he)
    rw [hs]
    simp [stripTrailingSpace, hspace]

theorem spaced_isEmpty (nodes : List (Node Unit)) : (Node.spaced nodes).isEmpty = false := by
  obtain ⟨before, ⟨-, -, hs⟩ | ⟨s, -, hs⟩⟩ := spaced_eq nodes <;> simp [hs]

theorem sequence_tokens (h : PartParses inner nodes)
    (hrest : ∀ t ∈ rest.head?, startsNode t = false) :
    sequence inner (Node.listTokens nodes ++ rest) = .ok nodes rest := by
  have hall := collect_all (takes_fragment inner) Node.tokens (fun n => [n]) (fun _ => True)
    (fun n hn rest _ => h.each n hn rest) (fun _ _ _ => trivial) trivial (fragment_none hrest)
  rw [← listTokens_eq_flatMap] at hall
  rw [sequence, bind_ok hall, flatten_singletons]
  rfl

theorem block_tokens {stops : Token → Bool} (h : PartParses inner nodes)
    (hrest : Closes stops rest) :
    block inner stops (Node.listTokens nodes ++ rest) = .ok nodes rest := by
  have hall := collect_all (takes_piece inner stops) Node.tokens (fun n => [n]) (fun _ => True)
    (fun n hn rest _ => piece_some (h.each n hn rest)) (fun _ _ _ => trivial) trivial
      (piece_none hrest)
  rw [← listTokens_eq_flatMap] at hall
  rw [block, bind_ok hall, flatten_singletons, mergeTexts_eq_self h.apart]
  rfl

theorem block_alone {stops : Token → Bool} (h : fragment inner ts = .ok (some nodes) []) :
    block inner stops ts = .ok (mergeTexts nodes) [] := by
  have hend : Closes stops [] := by simp [Closes]
  rw [block, bind_ok (collect_some _ (piece_some h) (collect_none _ (piece_none hend))),
    List.flatten_cons, List.flatten_nil, List.append_nil]
  rfl

/-! ### Values -/

theorem moreTokens_eq_flatMap (values : List (List (Node Unit))) :
    Node.moreTokens values = values.flatMap fun v => .op ',' :: Node.listTokens v := by
  induction values with
  | nil => rfl
  | cons v more ih => rw [Node.moreTokens, ih, List.flatMap_cons, List.cons_append]

theorem closes_members {closer : Char} (hc : closer = ')' ∨ closer = ']')
    (values : List (List (Node Unit))) (rest : List Token) :
    Closes (fun t => t == .op ',' || t == .op closer)
      (Node.moreTokens values ++ .op closer :: rest) := by
  cases values with
  | nil => rcases hc with rfl | rfl <;> exact closes_cons rfl rfl
  | cons v more => exact closes_cons rfl rfl

theorem nextMember_tokens {stops : Token → Bool} (listing : Listing) (h : PartRead inner nodes)
    (hrest : Closes stops rest) :
    nextMember inner listing stops (.op ',' :: Node.listTokens nodes ++ rest) =
      .ok (some nodes) rest := by
  have he : nodes.isEmpty = false := by simpa using h.2
  rw [nextMember, List.cons_append, bind_ok (accept_head rfl)]
  simp only [if_true]
  rw [bind_ok (block_tokens h.1 hrest), bind_ok (refuseIf_false he _)]
  rfl

theorem members_tokens {closer : Char} (hc : closer = ')' ∨ closer = ']')
    {values : List (List (Node Unit))} (listing : Listing) (hv : ∀ v ∈ values, PartRead inner v)
    (hne : values ≠ []) (rest : List Token) :
    members inner listing closer (Node.valueTokens values ++ .op closer :: rest) =
      .ok values (.op closer :: rest) := by
  cases values with
  | nil => exact absurd rfl hne
  | cons v more =>
    have hfirst := block_tokens (hv v List.mem_cons_self).1 (closes_members hc more rest)
    have hstop : nextMember inner listing (fun t => t == .op ',' || t == .op closer)
        (.op closer :: rest) = .ok none (.op closer :: rest) := by
      have hno : accept (· == .op ',') (.op closer :: rest) = .ok false (.op closer :: rest) := by
        rcases hc with rfl | rfl <;> exact accept_other rfl
      rw [nextMember, bind_ok hno]
      rfl
    have hmore := collect_all (takes_nextMember inner listing fun t =>
      t == .op ',' || t == .op closer)
      (fun v => .op ',' :: Node.listTokens v) id (Closes fun t => t == .op ',' || t == .op closer)
      (fun w hw rest hrest => nextMember_tokens listing (hv w (List.mem_cons_of_mem v hw)) hrest)
      (fun _ _ _ => closes_cons rfl rfl)
      (closes_members hc [] rest) hstop
    rw [← moreTokens_eq_flatMap, List.map_id] at hmore
    simp only [members]
    simp only [Node.moreTokens, List.nil_append] at hmore
    rw [Node.valueTokens, List.append_assoc, bind_ok hfirst, bind_ok hmore]
    rfl

theorem candidates_tokens {values : List (List (Node Unit))} (listing : Listing)
    (hv : ∀ v ∈ values, PartRead inner v) (hne : values ≠ []) (rest : List Token) :
    candidates inner listing (.op '(' :: (Node.valueTokens values ++ .op ')' :: rest)) =
      .ok values rest := by
  rw [candidates, bind_ok (take_cons _), bind_ok (members_tokens (.inl rfl) listing hv hne rest),
    bind_ok (expect_head rfl _)]
  rfl

/-! ### Modifiers -/

theorem chainTokens_eq_flatMap (modifiers : List (Modifier Unit)) :
    Node.chainTokens modifiers = modifiers.flatMap Node.modifierTokens := by
  induction modifiers with
  | nil => rfl
  | cons m more ih => rw [Node.chainTokens, ih, List.flatMap_cons]

theorem nextModifier_tokens {m : Modifier Unit} (rule : String)
    (hv : ∀ v ∈ m.parameters, PartRead inner v) (hrest : ∀ t ∈ rest.head?, t ≠ .op '(') :
    nextModifier inner rule (Node.modifierTokens m ++ rest) = .ok (some m) rest := by
  obtain ⟨name, values⟩ := m
  cases values with
  | nil =>
    have hno : accept (· == .op '(') rest = .ok false rest :=
      accept_none fun t ht => by simpa using hrest t ht
    have hparameters : parameters inner rest = .ok [] rest := by
      rw [parameters, bind_ok hno]
      rfl
    have hname : Parser.name (.missingModifierName rule) (.text name :: rest) = .ok name rest := rfl
    rw [nextModifier, Node.modifierTokens, List.cons_append, bind_ok (accept_head rfl)]
    simp only [if_true]
    rw [List.cons_append, List.nil_append, bind_ok hname, bind_ok hparameters]
    rfl
  | cons v more =>
    have hvalues := members_tokens (.inl rfl) .parameters hv (List.cons_ne_nil v more) rest
    have hcall : ((v :: more).length == 1 && ((v :: more).headD []).isEmpty) = false := by
      have hne := (hv v List.mem_cons_self).2
      simp [hne]
    have hparameters : parameters inner (.op '(' ::
        (Node.valueTokens (v :: more) ++ .op ')' :: rest)) =
        .ok (v :: more) rest := by
      rw [parameters, bind_ok (accept_head rfl)]
      simp only [if_true]
      rw [bind_ok hvalues, bind_ok (expect_head rfl _), hcall]
      rfl
    have hname : Parser.name (.missingModifierName rule)
        (.text name :: .op '(' :: (Node.valueTokens (v :: more) ++ .op ')' :: rest)) =
        .ok name (.op '(' :: (Node.valueTokens (v :: more) ++ .op ')' :: rest)) := rfl
    have htokens : Node.modifierTokens ⟨name, v :: more⟩ ++ rest =
        .op '.' :: .text name :: .op '(' :: (Node.valueTokens (v :: more) ++ .op ')' :: rest) := by
      rw [Node.modifierTokens] <;> simp
    rw [nextModifier, htokens, bind_ok (accept_head rfl)]
    simp only [if_true]
    rw [bind_ok hname, bind_ok hparameters]
    rfl

theorem modifiers_tokens {mods : List (Modifier Unit)} (rule : String)
    (hv : ∀ v ∈ mods.flatMap Modifier.parameters, PartRead inner v)
    (hrest : ∀ t ∈ rest.head?, t ≠ .op '(' ∧ t ≠ .op '.') :
    modifiers inner rule (Node.chainTokens mods ++ rest) = .ok mods rest := by
  have hstop : nextModifier inner rule rest = .ok none rest := by
    have hno : accept (· == .op '.') rest = .ok false rest :=
      accept_none fun t ht => by simpa using (hrest t ht).2
    rw [nextModifier, bind_ok hno]
    rfl
  have hall := collect_all (takes_nextModifier inner rule) Node.modifierTokens id
    (fun rest => ∀ t ∈ rest.head?, t ≠ .op '(')
    (fun m hm rest hrest => nextModifier_tokens rule
      (fun v h => hv v (List.mem_flatMap.mpr ⟨m, hm, h⟩)) hrest)
    (fun m _ rest => by
      obtain ⟨name, values⟩ := m
      have hdot : Token.op '.' ≠ .op '(' := by decide
      cases values <;> exact of_head hdot)
    (fun t ht => (hrest t ht).1) hstop
  rw [← chainTokens_eq_flatMap, List.map_id] at hall
  exact hall

end Lists

end Parser

end TemplateGrammar
