import TemplateGrammar.Proofs.Engine.Calls
import TemplateGrammar.Proofs.Expansion.Limits
import TemplateGrammar.Proofs.Template.Literal

/-!
# Literal templates expand to themselves

A text that is written as a literal comes out of every engine as it was meant (`tryExpand_literal`):
it is read as one text, and a text is expanded without a look at rules, objects, tags or modifiers.
The root is the only frame, so there is room for it wherever there is a level and a frame at all.
-/

namespace TemplateGrammar

variable {H : Type}

namespace Direct

theorem expand_text {s : Setting H} (hlevel : 1 ≤ s.maxLevel) (hframes : 1 ≤ s.maxFrames)
    (text : String) (w : World H) :
    expand s (if text = "" then [] else [.text text]) w = (.ok text, w.leave 1) := by
  obtain ⟨free, hfree⟩ := Nat.exists_eq_add_of_le' hframes
  rw [expand_of_room hfree (by omega)]
  split
  · rename_i hempty
    rw [hempty]
    rfl
  · show (Except.ok (text ++ ""), w.leave 1) = _
    rw [String.append_empty]

end Direct

namespace Engine

theorem evaluated_literal {s : Setting H} (hlevel : 1 ≤ s.maxLevel) (hframes : 1 ≤ s.maxFrames)
    (text : String) (w : World H) : (evaluated s (literal text) w).1 = .ok text := by
  have htaken : ∀ w : World H, (w.takeUp (if text = "" then [] else [.text text])).1 =
      if text = "" then [] else [.text text] := by
    intro w
    split <;> rfl
  rw [evaluated, parseText_literal]
  dsimp only
  rw [htaken, Direct.expand_text hlevel hframes]
  rfl

/-- **Five characters need a backslash, and no others.**  Written so, every text is read as a
template that is this one text, or is nothing if the text is, and every engine with a level and a
frame expands it to the text, whatever its rules, objects, modifiers, tags and rules of the run are,
and whether these are kept or forgotten. -/
theorem tryExpand_literal (text : String) :
    parseText (literal text) = .ok (if text = "" then [] else [.text text]) ∧
      ∀ (H : Type) (e : Engine H) (keep : Bool), 1 ≤ e.options.maxLevel → 1 ≤ e.options.maxFrames →
        (e.tryExpand (literal text) keep).1 = .ok text := by
  refine ⟨parseText_literal text, fun H e keep hlevel hframes => ?_⟩
  cases keep with
  | true =>
    rw [congrArg Prod.fst (outcome_tryExpand e (literal text))]
    exact evaluated_literal hlevel hframes text _
  | false =>
    rw [congrArg Prod.fst (outcome_forgetting e (literal text))]
    exact evaluated_literal hlevel hframes text _

/-- An engine with a rule, and room for the root alone. -/
def narrow : Engine Unit :=
  let e : Engine Unit := .start { tagScoping := .layered, maxLevel := 1, maxFrames := 1 }
    (.ofSeed 0) ()
  (e.addRule "up" (.list ["x", "y"])).2

/-- Words of blocks between blanks, a comparison, digits with and without a leading zero, and what
would be a block, a reference, a definition and a weight. -/
def everyCharacter : String :=
  " not in 007 == 42 [if #up#] \x7bup(x)\x7d:7\\"

theorem tryExpand_everyCharacter :
    literal everyCharacter = " not in 007 == 42 \\[if \\#up\\#] \\\x7bup(x)\x7d\\:7\\\\" ∧
      (narrow.tryExpand (literal everyCharacter) true).1 = .ok everyCharacter ∧
      (narrow.tryExpand (literal everyCharacter) false).1 = .ok everyCharacter :=
  ⟨by decide, (tryExpand_literal everyCharacter).2 Unit narrow true (by decide) (by decide),
    (tryExpand_literal everyCharacter).2 Unit narrow false (by decide) (by decide)⟩

end Engine

end TemplateGrammar
