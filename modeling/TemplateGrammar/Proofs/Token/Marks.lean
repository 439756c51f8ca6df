import TemplateGrammar.Proofs.Token.Pieces

/-!
# Texts that are cut at a mark

A mark is a reserved character.  It is a token of its own whatever stands around it, unless a
backslash takes it; so a text that leaves no backslash over (`Escape.isComplete`) has the same
tokens in front of a mark as on its own, and from the mark on the tokens do not depend on what
stands before (`tokenize_append`).

The lexer looks beyond its place in three ways, and none of them gets past a mark: a comparison is
no mark in its second character (`comparison?_mark`), no mark is a digit (`takeWhile_mark`), and a
keyword has no mark in it and must have a blank behind it (`keywordHere_mark`).  So each of its
steps is the same in front of a mark (`cut_mark`), and leaves a text that is complete again
(`Step.isComplete`).
-/

namespace TemplateGrammar

namespace Escape

/-- **Every backslash has a character behind it to take,** and none is left over at the end. -/
def isComplete : List Char → Bool
  | [] => true
  | c :: rest =>
    if c = '\\' then
      match rest with
      | [] => false
      | _ :: more => isComplete more
    else isComplete rest

@[simp]
theorem isComplete_backslash (c : Char) (cs : List Char) :
    isComplete ('\\' :: c :: cs) = isComplete cs := by
  simp [isComplete]

theorem isComplete_cons {c : Char} (h : c ≠ '\\') (cs : List Char) :
    isComplete (c :: cs) = isComplete cs := by
  cases cs <;> simp [isComplete, h]

/-- What is written in full has no part in what comes behind it. -/
theorem Writes.isComplete_append {text cs : List Char} (h : Writes text cs) (rest : List Char) :
    isComplete (cs ++ rest) = isComplete rest := by
  induction h with
  | nil => rfl
  | plain hc _ ih => rw [List.cons_append, isComplete_cons hc, ih]
  | escaped c _ ih => rw [List.cons_append, List.cons_append, isComplete_backslash, ih]

theorem isComplete_of_not_mem {cs : List Char} (h : '\\' ∉ cs) : isComplete cs = true := by
  have hall := (writes_self h).isComplete_append []
  rwa [List.append_nil] at hall

/-! ### What escapes cost -/

theorem length_resolve_le (cs : List Char) : (resolve cs).length ≤ cs.length := by
  fun_induction resolve cs with
  | case1 => exact Nat.le_refl _
  | case2 => exact Nat.zero_le _
  | case3 => simp only [List.length_cons] at *; omega
  | case4 => simp only [List.length_cons] at *; omega

/-- **Nothing is escaped** in what is no longer than the text that it stands for. -/
theorem not_mem_of_length_le {cs : List Char} (h : cs.length ≤ (resolve cs).length) :
    '\\' ∉ cs := by
  fun_induction resolve cs with
  | case1 => exact List.not_mem_nil
  | case2 => simp at h
  | case3 d more =>
    have hle := length_resolve_le more
    simp only [List.length_cons] at h
    omega
  | case4 c rest hc ih =>
    rw [List.mem_cons, not_or]
    exact ⟨Ne.symm hc, ih (Nat.le_of_succ_le_succ h)⟩

end Escape

namespace Lexer

open Escape

variable {cs rest : List Char} {c m : Char}

/-! ### What is looked for in front of a mark -/

/-- A word without a mark in it, with a blank behind it, does not reach up to a mark. -/
theorem prefix_mark (hm : isReserved m = true) {word : List Char} (hw : m ∉ word)
    (cs rest : List Char) :
    (word.isPrefixOf (cs ++ m :: rest) && startsBlank ((cs ++ m :: rest).drop word.length)) =
      (word.isPrefixOf cs && startsBlank (cs.drop word.length)) := by
  induction word generalizing cs with
  | nil =>
    cases cs with
    | nil => exact isBlank_of_isReserved hm
    | cons c cs => rfl
  | cons a word ih =>
    rw [List.mem_cons, not_or] at hw
    cases cs with
    | nil =>
      have hne : (a == m) = false := by simpa using Ne.symm hw.1
      rw [List.nil_append, List.isPrefixOf_cons_cons, hne]
      rfl
    | cons c cs =>
      have hmore := ih hw.2 cs
      rw [List.cons_append, List.isPrefixOf_cons_cons, List.isPrefixOf_cons_cons, List.length_cons,
        List.drop_succ_cons, List.drop_succ_cons, Bool.and_assoc, hmore, Bool.and_assoc]

theorem keywordHere_mark (hm : isReserved m = true) (prev : Option Char) (opened : Bool)
    (cs rest : List Char) (k : Keyword) :
    keywordHere prev opened (cs ++ m :: rest) k = keywordHere prev opened cs k := by
  have hplain : (k.spelling.toList.any isReserved) = false := by cases k <;> decide
  have hword : m ∉ k.spelling.toList := fun hmem => List.any_eq_false.mp hplain m hmem hm
  rw [keywordHere, keywordHere, prefix_mark hm hword]

theorem keyword?_mark (hm : isReserved m = true) (prev : Option Char) (opened : Bool)
    (cs rest : List Char) : keyword? prev opened (cs ++ m :: rest) = keyword? prev opened cs := by
  unfold keyword?
  congr 1
  funext k
  exact keywordHere_mark hm prev opened cs rest k

theorem comparison?_mark (hm : isReserved m = true) (c : Char) (cs rest : List Char) :
    comparison? (c :: cs ++ m :: rest) =
      (comparison? (c :: cs)).map fun found => (found.1, found.2 ++ m :: rest) := by
  cases cs with
  | nil =>
    have hne : m ≠ '=' := ne_of_isReserved hm (by decide)
    unfold comparison?
    split <;> simp_all
  | cons d cs =>
    unfold comparison?
    split <;> split <;> simp_all

theorem takeWhile_mark (hm : isReserved m = true) (cs rest : List Char) :
    (cs ++ m :: rest).takeWhile Char.isDigit = cs.takeWhile Char.isDigit := by
  have hdigit : m.isDigit = false := (show Breaks (m :: rest) from hm).noDigit
  induction cs with
  | nil =>
    rw [List.nil_append, List.takeWhile_cons, hdigit, List.takeWhile_nil, if_neg Bool.false_ne_true]
  | cons c cs ih =>
    rw [List.cons_append, List.takeWhile_cons, List.takeWhile_cons, ih]

theorem dropWhile_mark (hm : isReserved m = true) (cs rest : List Char) :
    (cs ++ m :: rest).dropWhile Char.isDigit = cs.dropWhile Char.isDigit ++ m :: rest := by
  have hall := List.takeWhile_append_dropWhile (p := Char.isDigit) (l := cs ++ m :: rest)
  rw [takeWhile_mark hm] at hall
  refine List.append_cancel_left (hall.trans ?_)
  rw [← List.append_assoc, List.takeWhile_append_dropWhile]

/-! ### A step in front of a mark -/

/-- The same cut in front of more characters. -/
def Cut.before (cut : Cut) (more : List Char) : Cut :=
  { cut with rest := cut.rest ++ more }

theorem cutWithBlank_mark (hm : isReserved m = true) (t : Token) (last : Option Char)
    (cs rest : List Char) :
    cutWithBlank t last (cs ++ m :: rest) = (cutWithBlank t last cs).before (m :: rest) := by
  cases cs with
  | nil =>
    simp only [List.nil_append, cutWithBlank, isBlank_of_isReserved hm, Bool.false_eq_true,
      if_false, Cut.before]
  | cons c cs =>
    rw [List.cons_append, cutWithBlank, cutWithBlank]
    split <;> rfl

theorem stops_mark (hm : isReserved m = true) (opened : Bool) (prev : Option Char) (c : Char)
    (cs rest : List Char) : (isReserved c || (comparison? (c :: (cs ++ m :: rest))).isSome ||
        (keyword? prev opened (c :: (cs ++ m :: rest))).isSome) =
      (isReserved c || (comparison? (c :: cs)).isSome ||
        (keyword? prev opened (c :: cs)).isSome) := by
  rw [← List.cons_append, comparison?_mark hm, keyword?_mark hm, Option.isSome_map]

/-- **A text run ends in front of a mark** if it has not ended before. -/
theorem textRun_mark (hm : isReserved m = true) (opened : Bool) (prev : Option Char)
    (h : isComplete cs = true) (rest : List Char) : textRun opened prev (cs ++ m :: rest) =
      ((textRun opened prev cs).1, (textRun opened prev cs).2.1,
        (textRun opened prev cs).2.2 ++ m :: rest) := by
  fun_induction textRun opened prev cs with
  | case1 prev => exact textRun_stop (.inl hm)
  | case2 prev c cs hstop => exact textRun_stops ((stops_mark hm opened prev c cs rest).trans hstop)
  | case3 prev hstop => cases h
  | case4 prev d ds text last left hrun hstop ih =>
    rw [isComplete_backslash] at h
    rw [List.cons_append, List.cons_append, textRun_escape, ih h, hrun]
  | case5 prev c cs hstop hc text last left hrun ih =>
    rw [isComplete_cons hc] at h
    have hgo := (stops_mark hm opened prev c cs rest).trans (Bool.eq_false_iff.mpr hstop)
    rw [List.cons_append, textRun_go hgo hc, ih h, hrun]

theorem cutText_mark (hm : isReserved m = true) (opened : Bool) (first written : Char)
    (h : isComplete cs = true) (rest : List Char) :
    cutText opened first written (cs ++ m :: rest) =
      (cutText opened first written cs).before (m :: rest) := by
  rw [cutText, textRun_mark hm opened _ h]
  rfl

theorem drop_keyword_append {prev : Option Char} {opened : Bool} {k : Keyword}
    (h : keyword? prev opened cs = some k) (more : List Char) :
    (cs ++ more).drop k.spelling.toList.length = cs.drop k.spelling.toList.length ++ more := by
  have hle : k.spelling.toList.length ≤ cs.length := by
    have hall := congrArg List.length (spelling_append_drop h)
    rw [List.length_append] at hall
    omega
  rw [List.drop_append_of_le_length hle]

/-- **A step of the lexer is the same in front of a mark.** -/
theorem cut_mark (hm : isReserved m = true) (prev : Option Char) (opened : Bool)
    (h : isComplete (c :: cs) = true) (rest : List Char) :
    cut prev opened c (cs ++ m :: rest) = (cut prev opened c cs).before (m :: rest) := by
  have hcomparison := comparison?_mark hm c cs rest
  have hkeyword := keyword?_mark hm prev opened (c :: cs) rest
  rw [List.cons_append] at hcomparison hkeyword
  cases hfound : comparison? (c :: cs) with
  | some found =>
    rw [hfound, Option.map_some] at hcomparison
    simp only [cut, hcomparison, hfound]
    exact cutWithBlank_mark hm _ _ _ _
  | none =>
    rw [hfound, Option.map_none] at hcomparison
    simp only [cut, hcomparison, hfound, hkeyword]
    split
    · rfl
    · split
      · rename_i k hk
        rw [← List.cons_append, drop_keyword_append hk]
        exact cutWithBlank_mark hm _ _ _ _
      · rw [← List.cons_append, takeWhile_mark hm, dropWhile_mark hm]
        split
        · rfl
        · split
          · rename_i hback
            subst hback
            cases cs with
            | nil => cases h
            | cons d ds =>
              rw [isComplete_backslash] at h
              exact cutText_mark hm _ _ _ h _
          · rename_i hback
            rw [isComplete_cons hback] at h
            exact cutText_mark hm _ _ _ h _

/-! ### What a step leaves -/

theorem isComplete_textRun (opened : Bool) (prev : Option Char) (h : isComplete cs = true) :
    isComplete (textRun opened prev cs).2.2 = true := by
  fun_induction textRun opened prev cs with
  | case1 prev => rfl
  | case2 prev c cs hstop => exact h
  | case3 prev hstop => rfl
  | case4 prev d ds text last left hrun hstop ih =>
    rw [hrun] at ih
    exact ih (by rwa [isComplete_backslash] at h)
  | case5 prev c cs hstop hc text last left hrun ih =>
    rw [hrun] at ih
    exact ih (by rwa [isComplete_cons hc] at h)

/-- **A step leaves no part of an escape.** -/
theorem Step.isComplete {opened : Bool} {taken : Cut} (hstep : Step opened cs taken)
    (h : isComplete cs = true) : isComplete taken.rest = true := by
  cases hstep with
  | backslash => rfl
  | single ht _ _ => rwa [ht.writes.isComplete_append] at h
  | split ht _ hv =>
    rwa [ht.writes.isComplete_append, isComplete_cons (ne_of_isBlank hv (by decide))] at h
  | plain _ hback => exact isComplete_textRun _ _ (by rwa [isComplete_cons hback] at h)
  | escaped => exact isComplete_textRun _ _ (by rwa [isComplete_backslash] at h)

/-! ### The tokens on both sides -/

/-- From a mark on it does not matter what stands before. -/
theorem lex_reserved (hm : isReserved m = true) (prev : Option Char) (opened : Bool)
    (rest : List Char) : lex prev opened (m :: rest) = lex none false (m :: rest) := by
  rw [lex, lex, cut_reserved hm, cut_reserved hm]

/-- **The tokens up to a mark,** and from the mark on. -/
theorem lex_mark (hm : isReserved m = true) (prev : Option Char) (opened : Bool)
    (h : isComplete cs = true) (rest : List Char) :
    lex prev opened (cs ++ m :: rest) = lex prev opened cs ++ lex none false (m :: rest) := by
  fun_induction lex prev opened cs with
  | case1 prev opened => exact lex_reserved hm prev opened rest
  | case2 prev opened c cs ih =>
    rw [List.cons_append, lex, cut_mark hm prev opened h, List.append_assoc,
      ← ih ((step_cut prev opened c cs).isComplete h)]
    rfl

end Lexer

/-- **At a mark a text falls apart.**  If no backslash is left over at the end of a text, and what
comes behind it begins with a reserved character, the tokens of both are those of the one and then
those of the other. -/
theorem tokenize_append {s t : String} (hs : Escape.isComplete s.toList = true)
    (ht : ∃ m ∈ t.toList.head?, isReserved m = true) :
    tokenize (s ++ t) = tokenize s ++ tokenize t := by
  obtain ⟨m, hhead, hm⟩ := ht
  obtain ⟨rest, hrest⟩ := List.head?_eq_some_iff.mp hhead
  rw [tokenize, String.toList_append, hrest, Lexer.lex_mark hm none false hs, tokenize,
    tokenize, hrest]

/-- A word that wants its blank, behind escapes and a number, and a bracket with a keyword behind
it. -/
theorem tokenize_append_wordAtBracket :
    Escape.isComplete "[if \\#\\\\ =12==0 then".toList = true ∧
      (∃ m ∈ "[while 3".toList.head?, isReserved m = true) ∧
        tokenize ("[if \\#\\\\ =12==0 then" ++ "[while 3") =
          [.op '[', .keyword .ifWord, .text " ", .text "#\\ =12", .equal, .number 0,
            .text " then"] ++ [.op '[', .keyword .whileWord, .text " ", .number 3] := by
  have hs : Escape.isComplete "[if \\#\\\\ =12==0 then".toList = true := by decide +kernel
  have ht : ∃ m ∈ "[while 3".toList.head?, isReserved m = true := ⟨'[', by simp, rfl⟩
  have hfront : tokenize "[if \\#\\\\ =12==0 then" =
      [.op '[', .keyword .ifWord, .text " ", .text "#\\ =12", .equal, .number 0,
        .text " then"] := by decide +kernel
  have hback : tokenize "[while 3" = [.op '[', .keyword .whileWord, .text " ", .number 3] := by
    decide +kernel
  exact ⟨hs, ht, (tokenize_append hs ht).trans (congrArg₂ (· ++ ·) hfront hback)⟩

end TemplateGrammar
