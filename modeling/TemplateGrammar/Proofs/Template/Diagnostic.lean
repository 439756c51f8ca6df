import TemplateGrammar.Proofs.Template.Lookahead

/-!
# Where the mark stands

A diagnostic shows the text of all tokens with a mark in it, and a caret in the line below.  The
mark stands between the text of the tokens that were taken and the text of the others, be it in
front of everything, inside, or behind everything (`ParseFailure.marked_eq`).  As a parser never
takes more than there is, there is always such a place: one mark is set, and no other character is
touched (`rendered_of_parse`).
-/

namespace TemplateGrammar

namespace Token

theorem toList_rawText_append (ts us : List Token) :
    (rawText (ts ++ us)).toList = (rawText ts).toList ++ (rawText us).toList := by
  simp only [rawText, String.toList_join, List.map_append, List.flatMap_append]

theorem length_toList_rawText (ts : List Token) :
    (rawText ts).toList.length = total (ts.map fun t => t.raw.length) := by
  induction ts with
  | nil => rfl
  | cons t ts ih =>
    rw [List.map_cons, total_cons, ← ih, ← List.singleton_append, toList_rawText_append,
      List.length_append]
    congr 1

end Token

namespace ParseFailure

/-! ### One mark in a text -/

theorem flatMap_mark_of_ne {column start : Nat} {text : List Char}
    (h : column < start ∨ start + text.length ≤ column) :
    ((text.zipIdx start).flatMap fun place => if place.2 = column then [mark, place.1]
      else [place.1]) = text := by
  induction text generalizing start with
  | nil => rfl
  | cons c rest ih =>
    rw [List.length_cons] at h
    rw [List.zipIdx_cons, List.flatMap_cons, ih (by omega), if_neg (by dsimp only; omega)]
    rfl

/-- Inside a text, the mark is set in front of a character. -/
theorem markedWithin_append (front : List Char) (c : Char) (back : List Char) :
    markedWithin front.length (front ++ c :: back) = front ++ mark :: c :: back := by
  rw [markedWithin, List.zipIdx_append, List.flatMap_append, List.zipIdx_cons, List.flatMap_cons,
    flatMap_mark_of_ne (by omega), flatMap_mark_of_ne (by omega), if_pos (Nat.zero_add _)]
  rfl

theorem markedWithin_length (text : List Char) : markedWithin text.length text = text :=
  flatMap_mark_of_ne (by omega)

/-- **The mark stands between what lies in front of the column and what lies behind it.** -/
theorem marked_eq {f : ParseFailure} {front back : List Char}
    (htext : (Token.rawText f.tokens).toList = front ++ back) (hcolumn : front.length = f.column) :
    f.marked = String.ofList (front ++ mark :: back) := by
  rw [marked, htext, ← hcolumn]
  cases back with
  | nil => rw [List.append_nil, markedWithin_length, if_pos rfl]
  | cons c back =>
    have hlonger : (front ++ mark :: c :: back).length ≠ front.length := by
      rw [List.length_append, List.length_cons]
      omega
    rw [markedWithin_append, if_neg hlonger]

theorem insertIdx_length_append (front : List Char) (c : Char) (back : List Char) :
    (front ++ back).insertIdx front.length c = front ++ c :: back := by
  induction front with
  | nil => rfl
  | cons d front ih =>
    rw [List.cons_append, List.length_cons, List.insertIdx_succ_cons, ih, List.cons_append]

end ParseFailure

/-- **The diagnostic of a fault.**  It is the reason, the text of all tokens with one mark in it,
and a caret below that mark, each on a line of its own.  In front of the mark stands the text of the
tokens that were taken and nothing else, and there are as many dots as that text has characters,
which are never more than there are in the whole text. -/
theorem rendered_of_parse {tokens : List Token} {f : ParseFailure} (h : parse tokens = .error f) :
    let text := (Token.rawText tokens).toList
    let column := total ((tokens.take f.taken).map fun t => t.raw.length)
    f.taken ≤ tokens.length ∧ column ≤ text.length ∧
      text.take column = (Token.rawText (tokens.take f.taken)).toList ∧
      f.rendered = f.reason ++ "\n" ++
        ("    " ++ String.ofList (text.insertIdx column '❌') ++ "\n") ++
        ("    " ++ String.ofList (List.replicate column '.') ++ "^" ++ "\n") := by
  obtain ⟨taken, rest, rfl, hf, -⟩ := parse_eq_error h
  have htaken : (taken ++ rest).take f.taken = taken := by
    rw [congrArg ParseFailure.taken hf, List.take_left]
  have htokens : f.tokens = taken ++ rest := congrArg ParseFailure.tokens hf
  have hcolumn : (Token.rawText taken).toList.length = f.column := by
    rw [Token.length_toList_rawText, ParseFailure.column, htokens, htaken]
  have htext : (Token.rawText (taken ++ rest)).toList = _ := Token.toList_rawText_append taken rest
  have hmarked : f.marked = _ := ParseFailure.marked_eq (htokens ▸ htext) hcolumn
  dsimp only
  rw [htaken, ← Token.length_toList_rawText, htext, ParseFailure.insertIdx_length_append,
    List.take_left]
  refine ⟨?_, ?_, rfl, ?_⟩
  · rw [congrArg ParseFailure.taken hf, List.length_append]
    exact Nat.le_add_right _ _
  · rw [List.length_append]
    exact Nat.le_add_right _ _
  · -- the line feeds and what begins a line are written together
    have hline : "\n    " = "\n" ++ "    " := by decide
    have hlast : "^\n" = "^" ++ "\n" := by decide
    rw [ParseFailure.rendered, hmarked, ← hcolumn, hline, hlast]
    simp only [String.append_assoc, ParseFailure.mark]

/-- A closing mark is missing in front of a text; one text is empty, and one has the mark in it
already. -/
def unclosedReference : List Token :=
  [.text "é❌", .text "", .op '#', .text "", .text "x"]

/-- The mark is set behind the tokens that were taken, and beside the one that was there. -/
theorem rendered_unclosedReference :
    parse unclosedReference = .error ⟨.unclosedRule "", unclosedReference, 4⟩ ∧
      ParseFailure.rendered ⟨.unclosedRule "", unclosedReference, 4⟩ =
        "closing # or \x7d not found for rule ''\n    é❌#❌x\n    ...^\n" := by
  have h : parse unclosedReference = .error ⟨.unclosedRule "", unclosedReference, 4⟩ :=
    failure?_eq_some.mp (by decide +kernel)
  refine ⟨h, (rendered_of_parse h).2.2.2.trans ?_⟩
  decide +kernel

end TemplateGrammar
