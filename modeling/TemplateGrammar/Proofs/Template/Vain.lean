import TemplateGrammar.Proofs.Template.Lookahead

/-!
# What comes to nothing

A construct may leave no node but texts: a reference with nothing in it is an empty text, and a tag
may hold nothing but such references.  Then the texts are all empty, and the tokens are marks
(`Parser.Vain`), whatever the level (`Parser.readsVain_nest`).  So what is read of the tokens of a
block is either a token as it is, or a construct of which this is known (`Parser.Renders`).
-/

namespace TemplateGrammar

/-- The marks of references and tags. -/
def Token.isMark (t : Token) : Bool :=
  t == .op '#' || t == .op '{' || t == .op '}' || t == .op '[' || t == .op ']'

namespace Parser

open Node

variable {ts rest : List Token} {nodes : List (Node Unit)}

/-! ### Constructs that come to nothing -/

/-- **What is nothing but texts is empty,** and written with marks only. -/
def Vain (taken : List Token) (nodes : List (Node Unit)) : Prop :=
  (∀ n ∈ nodes, n.isText = true) → (∀ t ∈ taken, t.isMark = true) ∧ ∀ n ∈ nodes, n = .text ""

theorem vain_of_mem {taken : List Token} {n : Node Unit} (hn : n ∈ nodes) (h : n.isText = false) :
    Vain taken nodes := by
  intro hall
  rw [hall n hn] at h
  cases h

theorem vain_flatten {takens : List (List Token)} {parts : List (List (Node Unit))}
    (h : List.Forall₂ Vain takens parts) :
    Vain takens.flatten parts.flatten := by
  induction h with
  | nil => exact fun _ => ⟨nofun, nofun⟩
  | cons hhead _ ih =>
    intro hall
    rw [List.flatten_cons, List.forall_mem_append] at hall
    obtain ⟨htaken, hnodes⟩ := hhead hall.1
    obtain ⟨htakens, hmore⟩ := ih hall.2
    rw [List.flatten_cons, List.flatten_cons, List.forall_mem_append, List.forall_mem_append]
    exact ⟨⟨htaken, htakens⟩, hnodes, hmore⟩

theorem Vain.between {taken : List Token} (h : Vain taken nodes) {first last : Token}
    (hfirst : first.isMark = true) (hlast : last.isMark = true) :
    Vain (first :: (taken ++ [last])) nodes := by
  intro hall
  obtain ⟨htaken, hnodes⟩ := h hall
  rw [List.forall_mem_cons, List.forall_mem_append, List.forall_mem_singleton]
  exact ⟨⟨hfirst, htaken, hlast⟩, hnodes⟩

theorem Vain.concat {taken : List Token} (h : Vain taken nodes) :
    Vain taken (nodes ++ [.text ""]) := by
  intro hall
  rw [List.forall_mem_append] at hall
  obtain ⟨htaken, hnodes⟩ := h hall.1
  rw [List.forall_mem_append, List.forall_mem_singleton]
  exact ⟨htaken, hnodes, rfl⟩

/-- A nested construct that begins with a mark takes some tokens, and is in vain if it is nothing
but texts. -/
def ReadsVain (inner : Nest) : Prop :=
  ∀ k ts nodes rest, inner.read k ts = .ok nodes rest → (∀ t ∈ ts.head?, t.isMark = true) →
    ∃ taken, ts = taken ++ rest ∧ Vain taken nodes

theorem yields_referenceBody_isText (inner : Nest) : Yields (referenceBody inner)
    (·.isText = false) := by
  refine .after fun found => .after fun next => ?_
  dsimp only
  split
  · exact .after fun _ => .after fun _ => .after fun _ => yields_done rfl
  · exact .after fun _ => .after fun _ => yields_done rfl
  · exact .after fun _ => .after fun _ => yields_done rfl

theorem yields_assignment_isText (inner : Nest) :
    Yields (assignment inner) fun nodes => ∃ n ∈ nodes, n.isText = false :=
  .after fun _ => .after fun _ => .after fun _ => .after fun _ =>
    yields_done ⟨_, List.mem_cons_self, rfl⟩

theorem yields_ifBlock_isText (inner : Nest) :
    Yields (ifBlock inner) fun nodes => ∃ n ∈ nodes, n.isText = false := by
  refine .after fun _ => .after fun _ => .after fun _ => .after fun _ => .after fun _ =>
    .after fun _ => .after fun otherwise => ?_
  cases otherwise with
  | true => exact .after fun _ => .after fun _ => yields_done ⟨_, List.mem_cons_self, rfl⟩
  | false => exact .after fun _ => yields_done ⟨_, List.mem_cons_self, rfl⟩

theorem yields_whileBlock_isText (inner : Nest) :
    Yields (whileBlock inner) fun nodes => ∃ n ∈ nodes, n.isText = false :=
  .after fun _ => .after fun _ => .after fun _ => .after fun _ => .after fun _ => .after fun _ =>
    .after fun _ => yields_done ⟨_, List.mem_cons_self, rfl⟩

theorem exists_taken_of_construct {d : Nat} {k : Construct}
    (h : construct (nest d) k ts = .ok nodes rest) : ∃ taken, ts = taken ++ rest := by
  obtain ⟨taken, htaken, -⟩ := foresees_nest (d + 1) k ts
  have hread : (nest (d + 1)).read k ts = .ok nodes rest := h
  rw [hread] at htaken
  exact ⟨taken, htaken⟩

section

variable {d : Nat} (ih : ReadsVain (nest d))

include ih

theorem exists_vain_of_leadingTag (h : leadingTag (nest d) ts = .ok (some nodes) rest) :
    ∃ taken, ts = taken ++ rest ∧ Vain taken nodes := by
  unfold leadingTag at h
  split at h
  · obtain ⟨nodes', hnodes, hread⟩ := of_answer h
    obtain rfl := Option.some.inj hnodes
    exact ih _ _ _ _ hread fun t ht => Option.some.inj ht ▸ rfl
  · cases h

/-- A reference is a text if there is nothing in it but such tags. -/
theorem exists_vain_of_reference (h : reference (nest d) ts = .ok nodes rest)
    (hmark : ∀ t ∈ ts.head?, t.isMark = true) :
    ∃ taken, ts = taken ++ rest ∧ Vain taken nodes := by
  obtain ⟨taken, htaken⟩ := exists_taken_of_construct (k := .rule) h
  obtain ⟨_, left, hfirst, h⟩ := bind_eq_ok h
  obtain ⟨tags, left', htags, h⟩ := bind_eq_ok h
  obtain ⟨closed, left'', hclosed, h⟩ := bind_eq_ok h
  cases closed with
  | false =>
    obtain ⟨n, left, hbody, h⟩ := bind_eq_ok h
    obtain ⟨rfl, rfl⟩ := Outcome.ok.inj h
    exact ⟨taken, htaken, vain_of_mem (n := n) (by simp)
      ((yields_referenceBody_isText _).of_ok hbody)⟩
  | true =>
    obtain ⟨rfl, rfl⟩ := Outcome.ok.inj h
    obtain ⟨first, rfl⟩ := exists_of_take hfirst
    obtain ⟨takens, rfl, hall⟩ := exists_taken_of_collect _
      (fun _ _ _ => exists_vain_of_leadingTag ih)
      (fun _ _ => eq_of_leadingTag_none) htags
    obtain ⟨last, rfl, hlast⟩ := exists_of_accept_true hclosed
    have hlast' : last.isMark = true := by
      rcases Bool.or_eq_true_iff.mp hlast with hlast | hlast
      · rw [beq_iff_eq.mp hlast]
        rfl
      · rw [beq_iff_eq.mp hlast]
        rfl
    refine ⟨first :: (takens.flatten ++ [last]), by simp, ?_⟩
    exact ((vain_flatten hall).between (hmark first rfl) hlast').concat

theorem exists_vain_of_tagPart (h : tagPart (nest d) ts = .ok (some nodes) rest) :
    ∃ taken, ts = taken ++ rest ∧ Vain taken nodes := by
  obtain ⟨⟨taken, htaken⟩, -⟩ :=
    ((meets_tagPart (grows_true.finds d)).of_ok List.suffix_rfl h).symm
  unfold tagPart at h
  split at h
  · cases h
  · cases h
  all_goals
    obtain ⟨nodes', hnodes, hread⟩ := of_answer h
    obtain rfl := Option.some.inj hnodes
  · exact ih _ _ _ _ hread fun t ht => Option.some.inj ht ▸ rfl
  · exact ih _ _ _ _ hread fun t ht => Option.some.inj ht ▸ rfl
  · exact ih _ _ _ _ hread fun t ht => Option.some.inj ht ▸ rfl
  · obtain ⟨n, hn, htext⟩ := (yields_assignment_isText _).of_ok hread
    exact ⟨taken, htaken.symm, vain_of_mem hn htext⟩

theorem exists_vain_of_tag (h : tag (nest d) ts = .ok nodes rest)
    (hmark : ∀ t ∈ ts.head?, t.isMark = true) :
    ∃ taken, ts = taken ++ rest ∧ Vain taken nodes := by
  obtain ⟨_, left, hfirst, h⟩ := bind_eq_ok h
  obtain ⟨parts, left', hparts, h⟩ := bind_eq_ok h
  obtain ⟨_, left'', hsome, h⟩ := bind_eq_ok h
  obtain ⟨_, left''', hlast, h⟩ := bind_eq_ok h
  obtain ⟨rfl, rfl⟩ := Outcome.ok.inj h
  obtain ⟨first, rfl⟩ := exists_of_take hfirst
  have hclose : left'.head? = some (.op ']') :=
    collect_stops _ (P := fun rest => rest.head? = some (.op ']'))
      (fun _ _ h => (of_tagPart_none h).2) hparts
  obtain ⟨takens, rfl, hall⟩ := exists_taken_of_collect _ (fun _ _ _ => exists_vain_of_tagPart ih)
    (fun _ _ h => (of_tagPart_none h).1) hparts
  obtain ⟨-, rfl⟩ := of_refuseIf hsome
  obtain ⟨last, rfl⟩ := exists_of_take hlast
  obtain rfl := Option.some.inj hclose
  exact ⟨first :: (takens.flatten ++ [.op ']']), by simp,
    (vain_flatten hall).between (hmark first rfl) rfl⟩

end

/-- **A construct that is nothing but texts is empty,** by induction on the levels that may be
opened. -/
theorem readsVain_nest (d : Nat) : ReadsVain (nest d) := by
  induction d with
  | zero =>
    intro k ts nodes rest h
    cases h
  | succ d ih =>
    intro k ts nodes rest h hmark
    cases k with
    | rule => exact exists_vain_of_reference ih h hmark
    | tag => exact exists_vain_of_tag ih h hmark
    | ifBlock =>
      obtain ⟨taken, htaken⟩ := exists_taken_of_construct (k := .ifBlock) h
      obtain ⟨n, hn, htext⟩ := (yields_ifBlock_isText _).of_ok h
      exact ⟨taken, htaken, vain_of_mem hn htext⟩
    | whileBlock =>
      obtain ⟨taken, htaken⟩ := exists_taken_of_construct (k := .whileBlock) h
      obtain ⟨n, hn, htext⟩ := (yields_whileBlock_isText _).of_ok h
      exact ⟨taken, htaken, vain_of_mem hn htext⟩

/-! ### What blanks are read of -/

/-- A token as text, or a construct that is in vain if it is nothing but texts. -/
def Renders (taken : List Token) (nodes : List (Node Unit)) : Prop :=
  (∃ t, taken = [t] ∧ nodes = [.text t.raw]) ∨ Vain taken nodes

theorem exists_renders_of_fragment {d : Nat} (h : fragment (nest d) ts = .ok (some nodes) rest) :
    ∃ taken, ts = taken ++ rest ∧ Renders taken nodes := by
  have hvain : ∀ k, (∀ t ∈ ts.head?, t.isMark = true) →
      (some <$> (nest d).read k) ts = .ok (some nodes) rest →
      ∃ taken, ts = taken ++ rest ∧ Renders taken nodes := by
    intro k hmark h
    obtain ⟨nodes', hnodes, hread⟩ := of_answer h
    obtain rfl := Option.some.inj hnodes
    obtain ⟨taken, htaken, hv⟩ := readsVain_nest d k ts _ rest hread hmark
    exact ⟨taken, htaken, .inr hv⟩
  unfold fragment at h
  split at h
  · exact hvain _ (of_head rfl) h
  · exact hvain _ (of_head rfl) h
  · cases h
  · exact hvain _ (of_head rfl) h
  · exact hvain _ (of_head rfl) h
  · exact hvain _ (of_head rfl) h
  · obtain ⟨hnodes, rfl⟩ := Outcome.ok.inj h
    obtain rfl := Option.some.inj hnodes
    exact ⟨[.op ':', .number _], rfl, .inr (vain_of_mem List.mem_cons_self rfl)⟩
  · obtain ⟨hnodes, rfl⟩ := Outcome.ok.inj h
    obtain rfl := Option.some.inj hnodes
    exact ⟨[.op ':'], rfl, .inl ⟨_, rfl, rfl⟩⟩
  · obtain ⟨hnodes, rfl⟩ := Outcome.ok.inj h
    obtain rfl := Option.some.inj hnodes
    exact ⟨[.text _], rfl, .inl ⟨_, rfl, rfl⟩⟩
  · obtain ⟨hnodes, rfl⟩ := Outcome.ok.inj h
    obtain rfl := Option.some.inj hnodes
    exact ⟨[.number _], rfl, .inl ⟨_, rfl, rfl⟩⟩
  · cases h

theorem exists_renders_of_piece {d : Nat} {stops : Token → Bool}
    (h : piece (nest d) stops ts = .ok (some nodes) rest) :
    ∃ taken, ts = taken ++ rest ∧ Renders taken nodes := by
  obtain ⟨found, left, hfound, h⟩ := bind_eq_ok h
  cases found with
  | some nodes' =>
    obtain ⟨hnodes, rfl⟩ := Outcome.ok.inj h
    obtain rfl := Option.some.inj hnodes
    exact exists_renders_of_fragment hfound
  | none =>
    rw [eq_of_fragment_none hfound] at h
    cases ts with
    | nil => cases h
    | cons t more =>
      dsimp only [stray] at h
      split at h
      · cases h
      · obtain ⟨hnodes, rfl⟩ := Outcome.ok.inj h
        obtain rfl := Option.some.inj hnodes
        exact ⟨[t], rfl, .inl ⟨t, rfl, rfl⟩⟩

end Parser

end TemplateGrammar
