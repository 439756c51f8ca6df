import TemplateGrammar.Proofs.Template.RoundTrip

/-!
# Blanks around words

Any blank makes a word of a block one, but the two sides of a word are not treated alike.  The blank
behind it is split off and thrown away, whatever blank it is.  The one in front of it is read as the
end of the text before, and of that only a space is taken off again (`stripTrailingSpace`): any
other blank stays a part of the text (`Blank.kept`).

So a block that is written with other blanks than spaces has the same conditions and parts if and
only if there are spaces in front of its words (`parseText_blanks`).
-/

namespace TemplateGrammar

/-- A character that counts as a blank. -/
abbrev Blank := { c : Char // isBlank c = true }

namespace Blank

def space : Blank :=
  ⟨' ', rfl⟩

def tab : Blank :=
  ⟨'\t', rfl⟩

/-- A blank as it is written. -/
def written (w : Blank) : String :=
  String.singleton w.1

/-- What is kept of a blank in front of a word: a space is taken off, and any other blank is not. -/
def kept (w : Blank) : String :=
  if w = space then "" else w.written

theorem kept_space : space.kept = "" :=
  rfl

@[simp]
theorem kept_eq_kept_space {w : Blank} : w.kept = space.kept ↔ w = space := by
  rw [kept_space, kept]
  split <;> simp_all [written]

theorem isSpace_written (w : Blank) : Token.isSpace (.text w.written) = true := by
  simp [Token.isSpace, written, w.2]

end Blank

/-- What a comparison with a text is, where a membership test is none. -/
def Comparison.withText : Comparison → Comparison
  | among => equal
  | notAmong => unequal
  | op => op

theorem Parser.against_text (op : Comparison) (s : String) :
    against op [.text s] = op.withText := by
  cases op <;> rfl

/-! ### How they are written -/

/-- A block in which two texts are compared, and two more are its parts, with these blanks around
its words. -/
def ifTemplate (op : Comparison) (v : Fin 7 → Blank) (a b c d : String) : String :=
  String.ofList ('[' :: (Keyword.ifWord.spelling.toList ++ (v 0).1 ::
    (Node.writtenText a ++ (v 1).1 ::
    (op.symbol.toList ++ (v 2).1 :: (Node.writtenText b ++ (v 3).1 ::
      (Keyword.thenWord.spelling.toList ++ (v 4).1 ::
      (Node.writtenText c ++ (v 5).1 :: (Keyword.elseWord.spelling.toList ++ (v 6).1 ::
        (Node.writtenText d ++ [']'])))))))))

/-- A loop in which two texts are compared, and another one is its part, with these blanks around
its words. -/
def whileTemplate (op : Comparison) (v : Fin 5 → Blank) (a b c : String) : String :=
  String.ofList ('[' :: (Keyword.whileWord.spelling.toList ++ (v 0).1 ::
    (Node.writtenText a ++ (v 1).1 ::
    (op.symbol.toList ++ (v 2).1 :: (Node.writtenText b ++ (v 3).1 ::
      (Keyword.doWord.spelling.toList ++ (v 4).1 ::
      (Node.writtenText c ++ [']'])))))))

namespace Lexer

/-- **A text in front of a word** takes the blank between them in, and the blank behind the word is
a text of its own. -/
theorem Reads.textWord {cs word : List Char} {ts : List Token} {t : Token} (h : Reads cs ts)
    (hw : Between word t) (u v : Blank) {s : String} (hs : s ≠ "") :
    Reads (Node.writtenText s ++ u.1 :: (word ++ v.1 :: cs))
      (.text (s ++ u.written) :: t :: .text v.written :: ts) :=
  (hw.continues_blank u.2 v.2 h).text hs

theorem reads_closing : Reads [']'] [.op ']'] :=
  reads_nil.reserved rfl

end Lexer

namespace Parser

theorem partRead_text (inner : Nest) {s : String} (hs : s ≠ "") : PartRead inner [.text s] := by
  refine ⟨⟨?_, List.isChain_singleton _, ?_⟩, List.cons_ne_nil _ _⟩
  · intro n hn
    obtain rfl := List.mem_singleton.mp hn
    exact parses_text inner s
  · intro u hu
    obtain rfl := Node.text.inj (List.mem_singleton.mp hu)
    exact hs

/-- **In front of a word** a space is taken off, and no other blank. -/
theorem stripTrailingSpace_blank {s : String} (hs : s ≠ "") (w : Blank) :
    stripTrailingSpace [.text (s ++ w.written)] = [.text (s ++ w.kept)] := by
  have hlong : s ++ w.written ≠ " " := by
    intro h
    have hlength := congrArg String.length h
    have hspace : " ".length = 1 := rfl
    rw [String.length_append, Blank.written, String.length_singleton, hspace] at hlength
    exact hs (String.length_eq_zero_iff.mp (by omega))
  have htext : (s ++ w.written).toList = s.toList ++ [w.1] := by
    rw [String.toList_append, Blank.written, String.toList_singleton]
  have hstrip : stripTrailingSpace [.text (s ++ w.written)] =
      if w.1 = ' ' then [.text s] else [.text (s ++ w.written)] := by
    simp only [stripTrailingSpace, List.getLast?_singleton, hlong, htext, List.getLast?_concat,
      List.dropLast_concat, String.ofList_toList, if_false, Option.some.injEq]
    rfl
  rw [hstrip, Blank.kept]
  by_cases hw : w.1 = ' '
  · rw [if_pos hw, if_pos (Subtype.ext hw), String.append_empty]
  · rw [if_neg hw, if_neg fun h => hw (congrArg Subtype.val h)]

variable (inner : Nest) {a b : String} (ha : a ≠ "") (hb : b ≠ "")

include ha hb

theorem condition_texts (op : Comparison) (u v w : Blank) :
    ReadsCondition inner [.text (a ++ u.written), op.token, .text v.written, .text (b ++ w.written)]
      ⟨[.text (a ++ u.kept)], op.withText, [.text (b ++ w.kept)]⟩ := by
  have hwords := condition_words v.isSpace_written op
    (partRead_text inner (s := a ++ u.written) (by simp [ha]))
    (partRead_text inner (s := b ++ w.written) (by simp [hb]))
  rwa [stripTrailingSpace_blank ha, stripTrailingSpace_blank hb, against_text] at hwords

omit ha hb

theorem parse_whileBlock {rest : List Token} {nodes : List (Node Unit)}
    (h : whileBlock (nest (maxNesting - 1)) (.op '[' :: .keyword .whileWord :: rest) =
      .ok nodes []) :
    parse (.op '[' :: .keyword .whileWord :: rest) = .ok (mergeTexts nodes) := by
  have hread : (nest maxNesting).read .whileBlock (.op '[' :: .keyword .whileWord :: rest) =
      .ok nodes [] := h
  have hfragment : fragment (nest maxNesting) (.op '[' :: .keyword .whileWord :: rest) =
      .ok (some nodes) [] :=
    map_ok hread some
  rw [parse, block_alone hfragment]

theorem parse_ifBlock {rest : List Token} {nodes : List (Node Unit)}
    (h : ifBlock (nest (maxNesting - 1)) (.op '[' :: .keyword .ifWord :: rest) = .ok nodes []) :
    parse (.op '[' :: .keyword .ifWord :: rest) = .ok (mergeTexts nodes) := by
  have hread : (nest maxNesting).read .ifBlock (.op '[' :: .keyword .ifWord :: rest) =
      .ok nodes [] := h
  have hfragment : fragment (nest maxNesting) (.op '[' :: .keyword .ifWord :: rest) =
      .ok (some nodes) [] :=
    map_ok hread some
  rw [parse, block_alone hfragment]

end Parser

open Lexer

variable {a b c d : String} (ha : a ≠ "") (hb : b ≠ "") (hc : c ≠ "") (hd : d ≠ "")

include ha hb hc

theorem tokenize_whileTemplate (op : Comparison) (v : Fin 5 → Blank) :
    tokenize (whileTemplate op v a b c) =
    [.op '[', .keyword .whileWord, .text (v 0).written, .text (a ++ (v 1).written), op.token,
      .text (v 2).written,
      .text (b ++ (v 3).written), .keyword .doWord, .text (v 4).written, .text c, .op ']'] := by
  have hpart : Reads (Node.writtenText c ++ [']']) [.text c, .op ']'] := reads_closing.text rfl hc
  have hright := hpart.textWord (.keyword .doWord) (v 3) (v 4) hb
  have hleft := hright.textWord (Node.between_symbol op) (v 1) (v 2) ha
  have hall := hleft.opening_blank (v 0).2 (k := .whileWord) rfl
  rw [tokenize, whileTemplate, String.toList_ofList]
  exact hall none false

theorem parseText_whileTemplate (op : Comparison) (v : Fin 5 → Blank) :
    parseText (whileTemplate op v a b c) =
    .ok [.whileBlock ⟨[.text (a ++ (v 1).kept)], op.withText, [.text (b ++ (v 3).kept)]⟩
      [.text c]] := by
  have hcondition := Parser.condition_texts (nest (maxNesting - 1)) ha hb op (v 1) (v 2) (v 3)
  have hread := Parser.whileBlock_words (v 0).isSpace_written (v 4).isSpace_written hcondition
    (Parser.partRead_text _ hc) []
  rw [parseText, tokenize_whileTemplate ha hb hc]
  exact Parser.parse_whileBlock hread

include hd

theorem tokenize_ifTemplate (op : Comparison) (v : Fin 7 → Blank) :
    tokenize (ifTemplate op v a b c d) =
    [.op '[', .keyword .ifWord, .text (v 0).written, .text (a ++ (v 1).written), op.token,
      .text (v 2).written,
      .text (b ++ (v 3).written), .keyword .thenWord, .text (v 4).written,
      .text (c ++ (v 5).written),
      .keyword .elseWord, .text (v 6).written, .text d, .op ']'] := by
  have hno : Reads (Node.writtenText d ++ [']']) [.text d, .op ']'] := reads_closing.text rfl hd
  have hyes := hno.textWord (.keyword .elseWord) (v 5) (v 6) hc
  have hright := hyes.textWord (.keyword .thenWord) (v 3) (v 4) hb
  have hleft := hright.textWord (Node.between_symbol op) (v 1) (v 2) ha
  have hall := hleft.opening_blank (v 0).2 (k := .ifWord) rfl
  rw [tokenize, ifTemplate, String.toList_ofList]
  exact hall none false

theorem parseText_ifTemplate (op : Comparison) (v : Fin 7 → Blank) :
    parseText (ifTemplate op v a b c d) =
    .ok [.ifBlock ⟨[.text (a ++ (v 1).kept)], op.withText, [.text (b ++ (v 3).kept)]⟩
      [.text (c ++ (v 5).kept)] (some [.text d])] := by
  have hcondition := Parser.condition_texts (nest (maxNesting - 1)) ha hb op (v 1) (v 2) (v 3)
  have hread := Parser.ifBlock_words_some (v 0).isSpace_written (v 4).isSpace_written
    (v 6).isSpace_written hcondition
    (Parser.partRead_text _ (s := c ++ (v 5).written) (by simp [hc])) (Parser.partRead_text _ hd) []
  rw [Parser.stripTrailingSpace_blank hc] at hread
  rw [parseText, tokenize_ifTemplate ha hb hc hd]
  exact Parser.parse_ifBlock hread

/-- **Blanks around words.**  Whatever the blanks are, a block and a loop of texts are read, and the
blanks behind the words are no part of them; those in front of the words are, unless they are
spaces.  So it is read as with spaces everywhere if and only if there are spaces in front of the
words. -/
theorem parseText_blanks (op : Comparison) (v : Fin 7 → Blank) (w : Fin 5 → Blank) :
    parseText (ifTemplate op v a b c d) =
      .ok [.ifBlock ⟨[.text (a ++ (v 1).kept)], op.withText, [.text (b ++ (v 3).kept)]⟩
        [.text (c ++ (v 5).kept)] (some [.text d])] ∧
    parseText (whileTemplate op w a b c) =
      .ok [.whileBlock ⟨[.text (a ++ (w 1).kept)], op.withText,
        [.text (b ++ (w 3).kept)]⟩ [.text c]] ∧
    (parseText (ifTemplate op v a b c d) = parseText (ifTemplate op (fun _ => .space) a b c d) ↔
      v 1 = .space ∧ v 3 = .space ∧ v 5 = .space) ∧
    (parseText (whileTemplate op w a b c) = parseText (whileTemplate op (fun _ => .space) a b c) ↔
      w 1 = .space ∧ w 3 = .space) := by
  refine ⟨parseText_ifTemplate ha hb hc hd op v, parseText_whileTemplate ha hb hc op w, ?_, ?_⟩
  · rw [parseText_ifTemplate ha hb hc hd, parseText_ifTemplate ha hb hc hd]
    simp [and_assoc]
  · rw [parseText_whileTemplate ha hb hc, parseText_whileTemplate ha hb hc]
    simp

omit ha hb hc hd

/-- Line breaks behind the words, and spaces in front of them. -/
def brokenLines : Fin 7 → Blank :=
  fun i => if i.val % 2 = 0 then ⟨'\n', rfl⟩ else .space

/-- A block over several lines, and a loop with tabs around its words. -/
theorem parseText_blanks_brokenLines :
    "x" ≠ "" ∧ "y " ≠ "" ∧ "]" ≠ "" ∧ "then" ≠ "" ∧
      parseText (ifTemplate .equal brokenLines "x" "y " "]" "then") =
        .ok [.ifBlock ⟨[.text "x"], .equal, [.text "y "]⟩ [.text "]"] (some [.text "then"])] ∧
      parseText (whileTemplate .unequal (fun _ => .tab) "x" "y " "]") =
        .ok [.whileBlock ⟨[.text "x\t"], .unequal, [.text "y \t"]⟩ [.text "]"]] := by
  have hx : "x" ≠ "" := by decide
  have hy : "y " ≠ "" := by decide
  have hbracket : "]" ≠ "" := by decide
  have hthen : "then" ≠ "" := by decide
  have hspaces : ∀ i : Fin 7, i.val % 2 = 1 → (brokenLines i).kept = "" := by decide
  have htab : Blank.tab.kept = "\t" := by decide
  obtain ⟨hif, -, -, -⟩ := parseText_blanks hx hy hbracket hthen .equal brokenLines fun _ => .tab
  obtain ⟨-, hwhile, -, -⟩ := parseText_blanks hx hy hbracket hthen .unequal brokenLines fun _ =>
    .tab
  rw [hspaces 1 rfl, hspaces 3 rfl, hspaces 5 rfl, String.append_empty, String.append_empty,
    String.append_empty] at hif
  rw [htab] at hwhile
  exact ⟨hx, hy, hbracket, hthen, hif, hwhile⟩

/-- **A tab in front of a comparison** is read as a part of what is compared, where a space is
not. -/
theorem parseText_tabbed :
    ifTemplate .equal (fun i => if i = 1 then .tab else .space) "a" "b" "c" "d" =
      "[if \\a\t== \\b then \\c else \\d]" ∧
      ¬ ∀ (v : Fin 7 → Blank) (a b c d : String), a ≠ "" → b ≠ "" → c ≠ "" → d ≠ "" →
        parseText (ifTemplate .equal v a b c d) =
          parseText (ifTemplate .equal (fun _ => .space) a b c d) := by
  refine ⟨by decide +kernel, fun h => ?_⟩
  have hsame := h (fun i => if i = 1 then .tab else .space) "a" "b" "c" "d" (by decide) (by decide)
    (by decide) (by decide)
  rw [parseText_ifTemplate (by decide) (by decide) (by decide) (by decide),
    parseText_ifTemplate (by decide) (by decide) (by decide) (by decide)] at hsame
  have htab : Blank.tab = Blank.space := by simpa using hsame
  exact absurd htab (by decide)

end TemplateGrammar
