import TemplateGrammar.Proofs.Template.Lookahead
import TemplateGrammar.Proofs.Template.Reading
import TemplateGrammar.Proofs.Token.Neighbours

/-!
# No word wants for its space

A keyword is only read as one with a blank behind it, and the blank is then a text of its own
(`blanked_tokenize`).  The parser asks for a space in five places, and each of them is directly
behind a keyword, so where it misses one the tokens give it cause to (`Fault.Warranted`).  The
tokens of a text do not, and so no text is refused for want of a space.
-/

namespace TemplateGrammar

open Lexer (Blanked)

/-- The fault of a word with no space behind it. -/
def Fault.wantsSpace : Fault → Bool
  | .missingSpace _ => true
  | _ => false

theorem not_prefix_append {word other : List Char} (h : ¬ word <+: other ∧ ¬ other <+: word)
    (rest : List Char) : ¬ word <+: other ++ rest :=
  fun hprefix =>
    (List.prefix_or_prefix_of_prefix hprefix (List.prefix_append other rest)).elim h.1 h.2

/-- How the message of a missing space begins. -/
def spaceMessage : List Char :=
  ['e', 'x', 'p', 'e', 'c', 't', 'e', 'd', ' ', 's', 'p', 'a', 'c', 'e', ' ',
    'a', 'f', 't', 'e', 'r']

theorem toList_spaceMessage : "expected space after".toList = spaceMessage := by
  decide

/-- **The messages tell it apart.**  No other fault is worded like this. -/
theorem Fault.wantsSpace_of_message {r : Fault} (h : spaceMessage <+: r.message.toList) :
    r.wantsSpace = true := by
  have happart : ∀ head name tail : String, (¬ spaceMessage <+: head.toList ∧
      ¬ head.toList <+: spaceMessage) → ¬ spaceMessage <+: (head ++ name ++ tail).toList := by
    intro head name tail hhead
    rw [String.toList_append, String.toList_append, List.append_assoc]
    exact not_prefix_append hhead _
  cases r with
  | missingSpace word => rfl
  | missingMember listing => cases listing <;> exact absurd h (by decide)
  | nestingTooDeep => exact absurd h (happart _ _ _ (by decide))
  | unclosedListing listing => exact absurd h (happart _ _ _ (by decide))
  | emptyBlock word => exact absurd h (happart _ _ _ (by decide))
  | unclosedBlock word => exact absurd h (happart _ _ _ (by decide))
  | unclosedRule name => exact absurd h (happart _ _ _ (by decide))
  | missingModifierName rule => exact absurd h (happart _ _ _ (by decide))
  | missingColon tag => exact absurd h (happart _ _ _ (by decide))
  | missingOperand symbol => exact absurd h (happart _ _ _ (by decide))
  | _ => exact absurd h (by decide)

theorem Fault.Warranted.wantsSpace_eq_false {tokens : List Token} {r : Fault}
    (h : r.Warranted tokens) (htokens : Blanked tokens) : r.wantsSpace = false := by
  cases r with
  | missingSpace _ =>
    obtain ⟨word, ts, ⟨before, rfl⟩, hnone⟩ := h
    obtain ⟨v, rest, hv, rfl⟩ := htokens before word ts rfl
    have hspace : Token.isSpace (.text (String.singleton v)) = true := by simp [Token.isSpace, hv]
    rw [hnone _ rfl] at hspace
    cases hspace
  | _ => rfl

/-- **Every keyword has its space.**  Among the tokens of a text a keyword is directly in front of a
text that is a single blank, and so no text is refused for want of a space behind a word, by the
fault or by its message. -/
theorem parseText_blanked (s : String) :
    (∀ before k after, tokenize s = before ++ .keyword k :: after →
      ∃ v rest, isBlank v = true ∧ after = .text (String.singleton v) :: rest) ∧
    ∀ f, parseText s = .error f →
      (∀ word, f.fault ≠ .missingSpace word) ∧
      ¬ "expected space after".toList <+: f.reason.toList := by
  refine ⟨blanked_tokenize s, fun f hf => ?_⟩
  have hfault : f.fault.wantsSpace = false :=
    (warranted_of_parse hf).wantsSpace_eq_false (blanked_tokenize s)
  refine ⟨fun word hword => ?_, fun hprefix => ?_⟩
  · rw [hword] at hfault
    cases hfault
  · rw [toList_spaceMessage] at hprefix
    rw [Fault.wantsSpace_of_message hprefix] at hfault
    cases hfault

/-- A loop inside of a block, with a tab and a line break behind two of the words, and neither of
the two closed. -/
def unclosedBlocks : String :=
  "[if a == b then [while\tc do\nd"

/-- What is refused is the loop that is not closed. -/
theorem parseText_unclosedBlocks : ∃ f, parseText unclosedBlocks = .error f ∧
    f.fault = .unclosedBlock .whileWord ∧
    tokenize unclosedBlocks = [.op '[', .keyword .ifWord, .text " ", .text "a ", .equal,
      .text " ", .text "b ", .keyword .thenWord, .text " ", .op '['] ++ .keyword .whileWord ::
        [.text "\t", .text "c ", .keyword .doWord, .text "\n", .text "d"] ∧
    (∃ v rest, isBlank v = true ∧ [Token.text "\t", .text "c ", .keyword .doWord,
      .text "\n", .text "d"] = .text (String.singleton v) :: rest) ∧
    (∀ word, f.fault ≠ .missingSpace word) ∧
    ¬ "expected space after".toList <+: f.reason.toList := by
  have htokens : tokenize unclosedBlocks = [.op '[', .keyword .ifWord, .text " ", .text "a ",
      .equal, .text " ",
      .text "b ", .keyword .thenWord, .text " ", .op '['] ++ .keyword .whileWord ::
        [.text "\t", .text "c ", .keyword .doWord, .text "\n", .text "d"] := by decide +kernel
  have hread : (failure? (parseText unclosedBlocks)).map ParseFailure.fault =
      some (.unclosedBlock .whileWord) := by
    decide +kernel
  obtain ⟨f, hf, hfault⟩ := Option.map_eq_some_iff.mp hread
  have herror := failure?_eq_some.mp hf
  obtain ⟨hblanked, hspaces⟩ := parseText_blanked unclosedBlocks
  exact ⟨f, herror, hfault, htokens, hblanked _ _ _ htokens, hspaces f herror⟩

end TemplateGrammar
