import TemplateGrammar.Proofs.Template.Every
import TemplateGrammar.Proofs.Template.Reading

/-!
# What holds of every template

From what the readers do (`Parser.Grows`) it follows what every template is like.  No template nests
deeper than the parser goes (`nestsWithin_of_parseText`).  No list of values in it is empty
(`filled_of_parseText`), every node has the shape of one that is read (`parseText_shape`), and every
construct in it has been read from some place in the tokens on, however deep it lies
(`every_readIn`).
-/

namespace TemplateGrammar

namespace Node

variable {σ : Type} {d : Nat}

theorem nestsWithin_leaf {n : Node σ} (h : n.isLeaf = true) : NestsWithin d [n] := by
  cases d with
  | zero => exact fun m hm => List.mem_singleton.mp hm ▸ h
  | succ d =>
    intro m hm part hpart
    rw [List.mem_singleton.mp hm, parts_of_isLeaf h] at hpart
    cases hpart

theorem nestsWithin_construct {n : Node σ} (h : ∀ part ∈ n.parts, NestsWithin d part) :
    NestsWithin (d + 1) [n] := by
  intro m hm
  rwa [List.mem_singleton.mp hm]

theorem every_of_singletons {p : Node σ → Prop} {nodes : List (Node σ)}
    (h : ∀ n ∈ nodes, Every p [n]) : Every p nodes :=
  .of_mem fun n hn => ⟨[n], h n hn, List.mem_cons_self⟩

end Node

/-! ### How deep templates nest -/

theorem Parser.grows_nestsWithin (tokens : List Token) :
    Parser.Grows tokens fun d n => Node.NestsWithin d [n] where
  leaf _ _ h := Node.nestsWithin_leaf h
  keep _ _ h := h.succ
  construct _ _ _ _ h :=
    Node.nestsWithin_construct fun part hp => Node.nestsWithin_iff.mpr (h part hp)

theorem Parser.nestsWithin_of_block {tokens rest : List Token} {nodes : List (Node Unit)}
    (h : Parser.block (nest maxNesting) (fun _ => false) tokens = .ok nodes rest) :
    Node.NestsWithin maxNesting nodes :=
  Node.nestsWithin_iff.mpr ((Parser.grows_nestsWithin tokens).template.of_ok List.suffix_rfl h).1.2

/-- **No template nests deeper than the parser goes.** -/
theorem nestsWithin_of_parseText {text : String} {nodes : List (Node Unit)}
    (h : parseText text = .ok nodes) : Node.NestsWithin maxNesting nodes :=
  Node.nestsWithin_iff.mpr ((Parser.grows_nestsWithin _).parse h).2

/-! ### What every node is like -/

section

variable {tokens : List Token} {p : Node Unit → Prop}

theorem Parser.grows_every (hleaf : ∀ n, n.isLeaf = true → p n)
    (hshape : ∀ {d k ts nodes rest n}, ts <:+ tokens →
      Parser.construct (nest d) k ts = .ok nodes rest → n ∈ nodes → n.ReadAs tokens k → p n) :
    Parser.Grows tokens fun _ n => Node.Every p [n] where
  leaf _ n h := .node (hleaf n h) (by simp [Node.parts_of_isLeaf h])
  keep _ _ h := h
  construct hts hread hn hm hholds := .node (hshape hts hread hn hm) fun part hp =>
    Node.every_of_singletons (hholds part hp)

/-- **So it is true of every node of a template.** -/
theorem every_of_parse (hleaf : ∀ n, n.isLeaf = true → p n)
    (hshape : ∀ {d k ts nodes rest n}, ts <:+ tokens →
      Parser.construct (nest d) k ts = .ok nodes rest → n ∈ nodes → n.ReadAs tokens k → p n)
    {nodes : List (Node Unit)} (h : parse tokens = .ok nodes) : Node.Every p nodes :=
  Node.every_of_singletons ((Parser.grows_every hleaf hshape).parse h).2

/-- What can be found out about a text by going down three times in its nodes, if it is a
template. -/
theorem every_of_within {text : String} (h : ∀ nodes ∈ (parseText text).toOption,
    Node.ThroughoutWithin (fun nodes => ∀ n ∈ nodes, p n) 3 nodes) :
    ∀ nodes, parseText text = .ok nodes → Node.Every p nodes := by
  intro nodes hp
  rw [hp] at h
  exact (h nodes rfl).throughout

theorem exists_parsed {text : String} (hsome : (parseText text).toOption.isSome = true)
    (h : ∀ nodes ∈ (parseText text).toOption,
      Node.ThroughoutWithin (fun nodes => ∀ n ∈ nodes, p n) 3 nodes) :
    ∃ nodes, parseText text = .ok nodes ∧ Node.Every p nodes := by
  cases hp : parseText text with
  | error failure =>
    rw [hp] at hsome
    cases hsome
  | ok nodes => exact ⟨nodes, rfl, every_of_within h nodes hp⟩

end

/-- **No list of values in a template is empty.** -/
theorem filled_of_parseText {text : String} {nodes : List (Node Unit)}
    (h : parseText text = .ok nodes) :
    Node.Throughout (fun nodes => ∀ n ∈ nodes, n.Filled) nodes := by
  refine every_of_parse (fun n hn => ?_) (fun _ _ _ hshape => hshape.filled) h
  cases n with
  | text _ | weight _ => trivial
  | _ => cases hn

/-- **The shape of a template.**  No two texts stand side by side in it, and every node in it is
formed. -/
theorem parseText_shape {text : String} {nodes : List (Node Unit)}
    (h : parseText text = .ok nodes) :
    Node.Apart nodes ∧ Node.Every Node.Formed nodes := by
  refine ⟨(Parser.grows_true.parse h).1, every_of_parse (fun n hn => ?_)
    (fun _ _ _ hshape => hshape.formed (worded_tokenize text)) h⟩
  cases n with
  | text _ | weight _ => trivial
  | _ => cases hn

/-- A text around an empty reference, a reference of modifiers only, and lists whose first member is
empty. -/
theorem parseText_bareModifiers : ∃ nodes,
    parseText "a##b#.m(,x).n()#\x7bq(,y)\x7d" = .ok nodes ∧
      Node.template nodes = "\\a\\b#.\\m(,\\x).\\n#\x7b\\q(,\\y)\x7d" ∧
      Node.Apart nodes ∧ Node.Every Node.Formed nodes := by
  have hread : (parseText "a##b#.m(,x).n()#\x7bq(,y)\x7d").toOption.map Node.template =
      some "\\a\\b#.\\m(,\\x).\\n#\x7b\\q(,\\y)\x7d" := by
    decide +kernel
  cases h : parseText "a##b#.m(,x).n()#\x7bq(,y)\x7d" with
  | error failure =>
    rw [h] at hread
    cases hread
  | ok nodes =>
    rw [h] at hread
    exact ⟨nodes, rfl, Option.some.inj hread, parseText_shape h⟩

/-! ### Where constructs are read -/

/-- **A construct has been read as one,** by the reader of some level, from some place in the tokens
on. -/
def Node.ReadIn (tokens : List Token) (n : Node Unit) : Prop :=
  ∀ k ∈ n.construct?, ∃ d ts nodes rest,
    ts <:+ tokens ∧ Parser.construct (nest d) k ts = .ok nodes rest ∧ n ∈ nodes

/-- **Every construct of a template is read in its tokens,** however deep it lies. -/
theorem every_readIn {tokens : List Token} {nodes : List (Node Unit)}
    (h : parse tokens = .ok nodes) : Node.Every (Node.ReadIn tokens) nodes := by
  refine every_of_parse (fun n hn => ?_) (fun hts hread hn hshape k hk => ?_) h
  · cases n with
    | text _ | weight _ => nofun
    | _ => cases hn
  · obtain rfl := Option.some.inj (hshape.kind.symm.trans hk)
    exact ⟨_, _, _, _, hts, hread, hn⟩

end TemplateGrammar
