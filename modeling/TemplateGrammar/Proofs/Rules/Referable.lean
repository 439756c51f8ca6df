import TemplateGrammar.Proofs.Rules.Names
import TemplateGrammar.Proofs.Rules.Order
import TemplateGrammar.Proofs.Rules.Ranks
import TemplateGrammar.Proofs.Template.Parsed

/-!
# Names that can be referred to

A text between marks that is read as a reference to just this text is a valid name, and so is one
between braces.  A template that is a single reference has three tokens: what opens the reference,
one that stands for the name, and what closes it (`Parser.tokens_of_parse`).  The one in the middle
is read between the marks as it is read on its own, for a mark that ends it is reserved, and with an
escape in it the text would be shorter than what is written (`Lexer.lex_alone`).

So the valid names are those that can be referred to, and every rule of a table can be
(`isValidName_iff_reference`).
-/

namespace TemplateGrammar

/-! ### The tokens of a reference -/

namespace Parser

open Node

variable {α β : Type} {inner : Nest} {ts rest : List Token} {name : String}

/-- **A template of a single node** that is no text is one piece. -/
theorem piece_of_block {d : Nat} {n : Node Unit} (hn : n.isText = false)
    (h : block (nest d) (fun _ => false) ts = .ok [n] rest) :
    piece (nest d) (fun _ => false) ts = .ok (some [n]) [] := by
  obtain rfl := block_reads_all h
  obtain ⟨parts, left, hparts, hmerged⟩ := bind_eq_ok h
  obtain ⟨hone, rfl⟩ := Outcome.ok.inj hmerged
  have hflat : parts.flatten = [n] := eq_of_mergeTexts hn hone
  have hfound := ((reads_collect _ (reads_piece (grows_true.finds d) _)).of_ok
    List.suffix_rfl hparts).1
  rw [collect] at hparts
  split at hparts
  · cases hparts
  · obtain ⟨rfl, -⟩ := Outcome.ok.inj hparts
    cases hflat
  · rename_i part left' hpiece
    split at hparts
    · rename_i more left'' hmore
      obtain ⟨rfl, rfl⟩ := Outcome.ok.inj hparts
      obtain ⟨rfl, rfl⟩ := eq_of_flatten_singleton (fun nodes hn => (hfound nodes hn).1) hflat
      -- the loop has stopped behind the piece, at the end of the tokens
      obtain rfl := eq_of_collect_nil _ (fun _ _ h => (of_piece_none h).1) hmore
      exact hpiece
    · cases hparts

theorem of_rule_nil {found : String} {r : Fault} {left : List Token}
    (h : (modifiers inner found >>= fun chain => expect closesRule r >>= fun _ =>
      done (rule found chain : Node Unit)) left = .ok (rule name []) rest) :
    found = name ∧ ∃ u, left = u :: rest ∧ closesRule u = true := by
  obtain ⟨chain, behind, hchain, h⟩ := bind_eq_ok h
  obtain ⟨_, behind', hclose, h⟩ := bind_eq_ok h
  obtain ⟨hnode, rfl⟩ := Outcome.ok.inj h
  obtain ⟨rfl, rfl⟩ := Node.rule.inj hnode
  rw [eq_of_modifiers_nil hchain] at hclose
  exact ⟨rfl, exists_of_expect hclose⟩

/-- **What is read as a reference without modifiers** is a token that stands for its name, and one
that closes it. -/
theorem tokens_of_referenceBody (hunclosed : Unclosed ts)
    (h : referenceBody inner ts = .ok (.rule name []) rest) :
    ∃ t u, ts = [t, u] ++ rest ∧ Lexer.Names name t ∧ closesRule u = true := by
  obtain ⟨found, left, hfound, h⟩ := bind_eq_ok h
  obtain ⟨next, left', hnext, h⟩ := bind_eq_ok h
  obtain ⟨-, rfl⟩ := Outcome.ok.inj hnext
  dsimp only at h
  generalize (next == some (.op '(')) = opens at h
  cases opens with
  | true =>
    cases found with
    | none =>
      have hchoice : Yields (candidates inner .choices >>= fun values =>
          modifiers inner "inline rule" >>= fun chain =>
          expect closesRule .unclosedChoice >>= fun _ => done (choice () values chain))
              (· ≠ rule name []) :=
        .after fun _ => .after fun _ => .after fun _ => yields_done (by simp)
      exact absurd rfl (hchoice.of_ok h)
    | some n =>
      have hdefine : Yields (candidates inner .candidates >>= fun values =>
          expect closesRule .unclosedDefinition >>= fun _ => done (define n values : Node Unit))
              (· ≠ rule name []) :=
        .after fun _ => .after fun _ => yields_done (by simp)
      exact absurd rfl (hdefine.of_ok h)
  | false =>
    have hrule : (modifiers inner (found.getD "") >>= fun chain =>
        expect closesRule (.unclosedRule (found.getD "")) >>= fun _ =>
          done (rule (found.getD "") chain : Node Unit)) left = .ok (rule name []) rest := by
      cases found <;> exact h
    obtain ⟨hname, u, rfl, hu⟩ := of_rule_nil hrule
    unfold name? at hfound
    split at hfound
    · obtain ⟨rfl, rfl⟩ := Outcome.ok.inj hfound
      exact ⟨.text _, u, rfl, hname, hu⟩
    · obtain ⟨rfl, rfl⟩ := Outcome.ok.inj hfound
      exact ⟨.number _, u, rfl, hname, hu⟩
    · -- without a name, the closing mark would have come first
      obtain ⟨rfl, rfl⟩ := Outcome.ok.inj hfound
      rw [hunclosed u rfl] at hu
      cases hu

theorem tokens_of_reference {d : Nat} {opener : Token}
    (h : reference (nest d) (opener :: ts) = .ok [rule name []] rest) :
    ∃ t u, ts = [t, u] ++ rest ∧ Lexer.Names name t ∧ closesRule u = true := by
  obtain ⟨_, left, hopener, h⟩ := bind_eq_ok h
  obtain ⟨-, rfl⟩ := Outcome.ok.inj hopener
  obtain ⟨tags, left, htags, h⟩ := bind_eq_ok h
  obtain ⟨closed, left', hclosed, h⟩ := bind_eq_ok h
  cases closed with
  | true =>
    -- an empty reference is a text
    have hlast := congrArg List.getLast? (Outcome.ok.inj h).1
    simp at hlast
  | false =>
    obtain ⟨node, left'', hbody, h⟩ := bind_eq_ok h
    obtain ⟨hnodes, rfl⟩ := Outcome.ok.inj h
    have hnone : tags = [] := by
      cases tags with
      | nil => rfl
      | cons tag more =>
        have hfilled := (((reads_collect _ (reads_leadingTag (grows_true.finds d))).of_ok
          List.suffix_rfl htags).1 tag List.mem_cons_self).1
        have hlength := congrArg List.length hnodes
        have hpos := List.length_pos_of_ne_nil hfilled
        simp only [List.flatten_cons, List.length_append, List.length_cons,
          List.length_nil] at hlength
        omega
    subst hnone
    obtain rfl := eq_of_collect_nil _ (fun _ _ => eq_of_leadingTag_none) htags
    obtain ⟨rfl, -⟩ := List.cons.inj hnodes
    obtain ⟨rfl, hunclosed⟩ := of_accept_false hclosed
    exact tokens_of_referenceBody hunclosed hbody

/-- **The tokens of a template that is one reference.** -/
theorem tokens_of_parse {o : Char} (ho : o = '#' ∨ o = '{')
    (h : parse (.op o :: ts) = .ok [.rule name []]) :
    ∃ t u, ts = [t, u] ∧ Lexer.Names name t ∧ closesRule u = true := by
  have hblock : ∃ rest, block (nest maxNesting) (fun _ => false) (.op o :: ts) =
      .ok [.rule name []] rest := by
    unfold parse at h
    split at h
    · rename_i nodes rest hblock
      obtain rfl := Except.ok.inj h
      exact ⟨rest, hblock⟩
    · cases h
  obtain ⟨rest, hblock⟩ := hblock
  have hpiece := piece_of_block rfl hblock
  obtain ⟨found, left, hfound, hpiece⟩ := bind_eq_ok hpiece
  have hread : (some <$> (nest maxNesting).read .rule) (.op o :: ts) = .ok found left := by
    rcases ho with rfl | rfl <;> exact hfound
  obtain ⟨nodes, left', hreference, hsome⟩ := bind_eq_ok hread
  obtain ⟨rfl, rfl⟩ := Outcome.ok.inj hsome
  obtain ⟨hnodes, rfl⟩ := Outcome.ok.inj hpiece
  rw [Option.some.inj hnodes] at hreference
  exact tokens_of_reference (d := maxNesting - 1) hreference

end Parser

/-! ### Names and references -/

/-- **What is a reference to a name between two marks** is a valid name. -/
theorem isValidName_of_reference {name left right : String} {o m : Char} (hleft : left.toList = [o])
    (hright : right.toList = [m]) (ho : o = '#' ∨ o = '{') (hm : isReserved m = true)
    (h : parseText (left ++ name ++ right) = .ok [.rule name []]) : isValidName name = true := by
  have ho' : isReserved o = true := by rcases ho with rfl | rfl <;> rfl
  have hopened : Lexer.endsOpen [.op o] = false := by rcases ho with rfl | rfl <;> rfl
  have htokens : tokenize (left ++ name ++ right) = .op o ::
      Lexer.lex (some o) false (name.toList ++ [m]) := by
    rw [tokenize, String.toList_append, String.toList_append, hleft, hright, List.cons_append,
      List.cons_append, Lexer.lex, Lexer.cut_reserved ho', hopened]
    rfl
  rw [parseText, htokens] at h
  obtain ⟨t, u, hlex, ht, -⟩ := Parser.tokens_of_parse ho h
  have halone : tokenize name = [t] := Lexer.lex_alone ho' hm hlex ht
  rw [isValidName, halone]
  cases t with
  | text s => exact beq_iff_eq.mpr ht
  | number n => exact beq_iff_eq.mpr ht
  | _ => exact ht.elim

namespace RuleTable

theorem Built.registered {H : Type} {t : RuleTable H} (h : t.Built)
    (rules : List (String × Definition H)) :
    (t.registered rules).Built := by
  induction rules generalizing t with
  | nil => exact h
  | cons r more ih => exact ih (h.add r.1 r.2)

end RuleTable

/-- **The valid names are those that can be referred to,** be it between marks or between braces;
and so every rule that is in a table after whatever has been registered is referred to by its name
between marks. -/
theorem isValidName_iff_reference :
    (∀ name, isValidName name = true ↔ parseText ("#" ++ name ++ "#") = .ok [.rule name []]) ∧
      (∀ name, isValidName name = true ↔ parseText ("\x7b" ++ name ++ "\x7d") =
        .ok [.rule name []]) ∧
        ∀ (H : Type) (rules : List (String × Definition H)),
        ∀ name ∈ (RuleTable.empty.registered rules).names,
          parseText ("#" ++ name ++ "#") = .ok [.rule name []] := by
  refine ⟨fun name => ⟨parseText_mark, ?_⟩, fun name => ⟨parseText_brace, ?_⟩,
    fun H rules name hname => ?_⟩
  · exact isValidName_of_reference rfl rfl (.inl rfl) rfl
  · exact isValidName_of_reference rfl rfl (.inr rfl) rfl
  · obtain ⟨rule, hget⟩ := RuleTable.exists_get? (RuleTable.mem_names_iff.mp hname)
    exact parseText_mark ((RuleTable.Built.empty.registered rules).isValidName hget)

/-- A name with a keyword and a blank at its end is refused, and one with the keyword at its very
end is not. -/
def trickyNames : List (String × Definition Unit) :=
  [("turn in ", .text "x"), ("== ", .text "x"), ("turn in", .list ["[", "y"]), ("07", .text "z")]

theorem reference_trickyNames :
    (RuleTable.empty.registered trickyNames).names = ["07", "turn in"] ∧
      parseText ("#" ++ "turn in" ++ "#") = .ok [.rule "turn in" []] ∧
        parseText ("#" ++ "07" ++ "#") = .ok [.rule "07" []] := by
  have hnames : (RuleTable.empty.registered trickyNames).names = ["07", "turn in"] := by
    decide +kernel
  refine ⟨hnames, ?_, ?_⟩
  · exact isValidName_iff_reference.2.2 Unit trickyNames _ (by rw [hnames]; simp)
  · exact isValidName_iff_reference.2.2 Unit trickyNames _ (by rw [hnames]; simp)

end TemplateGrammar
