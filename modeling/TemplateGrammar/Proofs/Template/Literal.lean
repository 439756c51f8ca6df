import TemplateGrammar.Proofs.Template.Lists
import TemplateGrammar.Proofs.Token.Pieces

/-!
# Literal texts

A text that is written with a backslash before the five special characters alone reads back as
itself (`parseText_literal`), whatever else stands in it: blanks and words that look like keywords,
comparisons, digits, closers, commas and dots.

What the lexer makes of such a text is not one token.  Keywords, numbers, comparisons and reserved
characters are cut out of it as anywhere, each with its text.  But none of them is a special
character (`Token.isLiteral`), and their texts end to end are the text that was meant (`Spells`): a
character that is a token of its own stands in what is written without a backslash in front of it
(`InPieces.literal`).  The parser then finds nothing that starts a construct, takes every token as
its text, and makes one text of them.
-/

namespace TemplateGrammar

/-- The token is not one of the special characters. -/
def Token.isLiteral : Token → Bool
  | .op c => !Escape.special.contains c
  | _ => true

namespace Escape

variable {cs rest xs : List Char} {c : Char}

theorem sparingly_special (h : special.contains c = true) (xs : List Char) :
    sparingly (c :: xs) = '\\' :: c :: sparingly xs := by
  rw [sparingly, List.flatMap_cons, if_pos h]
  rfl

theorem sparingly_plain (h : special.contains c = false) (xs : List Char) :
    sparingly (c :: xs) = c :: sparingly xs := by
  rw [sparingly, List.flatMap_cons, h]
  rfl

theorem exists_of_sparingly_eq_cons (hc : c ≠ '\\') (h : sparingly xs = c :: cs) :
    ∃ left, xs = c :: left ∧ cs = sparingly left ∧ special.contains c = false := by
  cases xs with
  | nil => cases h
  | cons x left =>
    cases hx : special.contains x with
    | true =>
      rw [sparingly_special hx] at h
      exact absurd (List.cons.inj h).1.symm hc
    | false =>
      rw [sparingly_plain hx] at h
      obtain ⟨rfl, rfl⟩ := List.cons.inj h
      exact ⟨left, rfl, rfl, hx⟩

theorem exists_of_sparingly_eq_backslash (h : sparingly xs = '\\' :: cs) :
    ∃ x left, xs = x :: left ∧ cs = x :: sparingly left ∧ special.contains x = true := by
  cases xs with
  | nil => cases h
  | cons x left =>
    cases hx : special.contains x with
    | true =>
      rw [sparingly_special hx] at h
      exact ⟨x, left, rfl, (List.cons.inj h).2.symm, hx⟩
    | false =>
      rw [sparingly_plain hx] at h
      rw [(List.cons.inj h).1] at hx
      cases hx

theorem Writes.exists_of_sparingly_eq_append {text : List Char} (hw : Writes text cs)
    (h : sparingly xs = cs ++ rest) : ∃ left, xs = text ++ left ∧ rest = sparingly left := by
  induction hw generalizing xs with
  | nil => exact ⟨xs, rfl, h.symm⟩
  | plain hc _ ih =>
    obtain ⟨more, rfl, hmore, -⟩ := exists_of_sparingly_eq_cons hc h
    obtain ⟨left, rfl, hleft⟩ := ih hmore.symm
    exact ⟨left, rfl, hleft⟩
  | escaped c _ ih =>
    obtain ⟨x, more, rfl, hmore, -⟩ := exists_of_sparingly_eq_backslash h
    obtain ⟨rfl, hsame⟩ := List.cons.inj hmore
    obtain ⟨left, rfl, hleft⟩ := ih hsame.symm
    exact ⟨left, rfl, hleft⟩

end Escape

/-! ### What the lexer makes of it -/

namespace Lexer

open Escape

/-- **Literal tokens whose texts, end to end, are these characters.** -/
structure Spells (ts : List Token) (cs : List Char) : Prop where
  literal : ∀ t ∈ ts, t.isLiteral = true
  texts : (ts.flatMap fun t => t.raw.toList) = cs

theorem InPieces.literal {ts : List Token} {cs xs : List Char} (h : InPieces ts cs)
    (hs : sparingly xs = cs) : ∀ t ∈ ts, t.isLiteral = true := by
  induction h generalizing xs with
  | nil => exact fun t ht => by cases ht
  | backslash => exact fun t ht => by cases ht
  | @cons t ts piece rest hcut _ ih =>
    obtain ⟨left, -, hleft⟩ := hcut.writes.exists_of_sparingly_eq_append hs
    have hfirst : t.isLiteral = true := by
      cases hcut with
      | op hreserved =>
        obtain ⟨-, -, -, hspecial⟩ := exists_of_sparingly_eq_cons
          (ne_of_isReserved hreserved (by decide)) hs
        rw [Token.isLiteral, hspecial]
        rfl
      | _ => rfl
    intro other hother
    rcases List.mem_cons.mp hother with rfl | hother
    · exact hfirst
    · exact ih hleft.symm other hother

/-- **The tokens of a text that is written sparingly** are literal, and their texts are the text. -/
theorem spells_lex (xs : List Char) (prev : Option Char) (opened : Bool) :
    Spells (lex prev opened (sparingly xs)) xs := by
  have hpieces := inPieces_lex prev opened (sparingly xs)
  exact ⟨hpieces.literal rfl, hpieces.texts.trans (resolve_sparingly xs)⟩

end Lexer

/-! ### What the parser makes of it -/

namespace Parser

variable {inner : Nest} {rest : List Token}

theorem piece_literal {t : Token} (h : t.isLiteral = true) (ts : List Token) :
    piece inner (fun _ => false) (t :: ts) = .ok (some [.text t.raw]) ts := by
  cases hstarts : startsNode t with
  | true =>
    refine piece_some ?_
    cases t with
    | text s => rfl
    | number n => rfl
    | op c =>
      -- whatever could start a node is special
      simp only [startsNode, Bool.or_eq_true, beq_iff_eq] at hstarts
      rcases hstarts with ((rfl | rfl) | rfl) | rfl <;> cases h
    | _ => cases hstarts
  | false =>
    have hnone : fragment inner (t :: ts) = .ok none (t :: ts) := fragment_none (of_head hstarts)
    rw [piece, bind_ok hnone]
    rfl

/-- **Neighbouring texts are made one.** -/
theorem mergeTexts_texts {texts : List String} (h : texts ≠ []) :
    mergeTexts (texts.map fun s => .text s) =
      [.text (String.ofList (texts.flatMap String.toList))] := by
  induction texts with
  | nil => exact absurd rfl h
  | cons first more ih =>
    rw [List.map_cons, mergeTexts, List.flatMap_cons, String.ofList_append, String.ofList_toList]
    by_cases hmore : more = []
    · subst hmore
      rw [List.flatMap_nil, String.ofList_nil, String.append_empty]
      rfl
    · rw [ih hmore]

theorem piece_nil (stops : Token → Bool) : piece inner stops [] = .ok none [] :=
  piece_none fun t ht => by cases ht

theorem block_nil (stops : Token → Bool) : block inner stops [] = .ok [] [] := by
  rw [block, bind_ok (collect_none _ (piece_nil stops))]
  rfl

/-- **Literal tokens are one text.** -/
theorem block_literal {ts : List Token} {cs : List Char} (h : Lexer.Spells ts cs) (hne : ts ≠ []) :
    block inner (fun _ => false) ts = .ok [.text (String.ofList cs)] [] := by
  have hall := collect_all (takes_piece inner fun _ => false) (fun t => [t])
    (fun t => [.text t.raw])
    (fun _ => True) (fun t ht rest _ => piece_literal (h.literal t ht) rest)
      (fun _ _ _ => trivial) trivial
    (piece_nil _)
  have htokens : (ts.flatMap fun t => [t]) ++ [] = ts := by simp
  have htexts : (ts.map fun t => [(.text t.raw : Node Unit)]).flatten = (ts.map Token.raw).map
      fun s => .text s := by
    rw [← flatten_singletons ((ts.map Token.raw).map fun s => .text s), List.map_map, List.map_map]
    rfl
  have hjoined : (ts.map Token.raw).flatMap String.toList = cs := by
    rw [List.flatMap_map, h.texts]
  rw [htokens] at hall
  rw [block, bind_ok hall, htexts, mergeTexts_texts (by simpa using hne), hjoined]
  rfl

end Parser

/-- A text as a template that means it: the five special characters have a backslash in front of
them. -/
def literal (s : String) : String :=
  String.ofList (Escape.sparingly s.toList)

/-- **What is written as a literal is read as one text,** the one that was meant; and nothing is
read as nothing. -/
theorem parseText_literal (s : String) :
    parseText (literal s) = .ok (if s = "" then [] else [.text s]) := by
  have hspells := Lexer.spells_lex s.toList none false
  by_cases hs : s = ""
  · subst hs
    have hnil : Lexer.lex none false (Escape.sparingly "".toList) = [] := Lexer.reads_nil none false
    rw [if_pos rfl, literal, parseText, tokenize, String.toList_ofList, hnil, parse,
      Parser.block_nil]
  · have hne : Lexer.lex none false (Escape.sparingly s.toList) ≠ [] := by
      intro hnil
      rw [hnil] at hspells
      exact hs (String.toList_eq_nil_iff.mp hspells.texts.symm)
    rw [if_neg hs, literal, parseText, tokenize, String.toList_ofList, parse,
      Parser.block_literal hspells hne, String.ofList_toList]

end TemplateGrammar
