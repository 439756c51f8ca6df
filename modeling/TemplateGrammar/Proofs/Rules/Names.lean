import TemplateGrammar.Proofs.Rules.Built
import TemplateGrammar.Proofs.Template.Literal
import TemplateGrammar.Proofs.Template.RoundTrip
import TemplateGrammar.Proofs.Token.Marks

/-!
# Names between marks

A name is valid if it reads, on its own, as one token that stands for it.  Between the marks of a
reference it reads as the same token (`lex_between`), for no keyword begins behind a mark and in
front of one a text is cut off; and what reads as a name there reads as it on its own (`lex_alone`).
Nothing is escaped in it either time, or it would be longer than what it stands for.  So what is
written as a reference to a rule of a table that a host made is one (`parseText_mark`,
`parseText_brace`).
-/

namespace TemplateGrammar

namespace Lexer

variable {cs rest : List Char} {c m : Char}

/-! ### Behind a mark -/

theorem mayPrecede_of_isReserved (h : isReserved m = true) (k : Keyword) :
    mayPrecede (some m) false k = false := by
  simp [mayPrecede, isBlank_of_isReserved h]

/-- **Behind a mark** characters read as they read on their own. -/
theorem lex_behind_mark (h : isReserved m = true) (cs : List Char) :
    lex (some m) false cs = lex none false cs := by
  have hnone : ∀ cs, keyword? (some m) false cs = none :=
    keyword?_of_not_mayPrecede (mayPrecede_of_isReserved h)
  have hnone' : ∀ cs, keyword? none false cs = none := keyword?_of_not_mayPrecede fun _ => rfl
  cases cs with
  | nil => rw [lex, lex]
  | cons c cs =>
    have hcut : cut (some m) false c cs = cut none false c cs := by simp only [cut, hnone, hnone']
    rw [lex, lex, hcut]

/-! ### Names -/

/-- The token is a text or a number that stands for the name. -/
def Names (name : String) : Token → Prop
  | .text s => s = name
  | .number n => toString n = name
  | _ => False

theorem Names.raw_eq {name : String} {t : Token} (h : Names name t) : t.raw = name := by
  cases t with
  | text s => exact h
  | number n => exact h
  | _ => exact h.elim

/-- **Between marks a name reads as it reads on its own.** -/
theorem lex_between {name : String} {t : Token} (h : lex none false name.toList = [t])
    (ht : Names name t) {o : Char} (ho : isReserved o = true) (hm : isReserved m = true)
    {rest : List Char} {ts : List Token} (hrest : Reads (m :: rest) ts) :
    lex (some o) false (name.toList ++ m :: rest) = t :: ts := by
  have hraw := (inPieces_lex none false name.toList).texts
  rw [h, List.flatMap_singleton, ht.raw_eq] at hraw
  have hcomplete := Escape.isComplete_of_not_mem
    (Escape.not_mem_of_length_le (Nat.le_of_eq (congrArg List.length hraw)))
  rw [lex_mark hm _ _ hcomplete, lex_behind_mark ho, h, hrest]
  rfl

/-- **What is read as a name between marks** is read as this name on its own. -/
theorem lex_alone {name : String} {o : Char} (ho : isReserved o = true)
    (hm : isReserved m = true) {t u : Token} (h : lex (some o) false (name.toList ++ [m]) = [t, u])
    (ht : Names name t) : lex none false name.toList = [t] := by
  -- the two tokens are as long as what is written, so nothing in it is escaped, and least of all
  -- the mark
  have hpieces := inPieces_lex (some o) false (name.toList ++ [m])
  rw [h] at hpieces
  obtain ⟨piece, hcut, -⟩ := hpieces.exists_piece (t := u) (by simp)
  have hpos : 0 < u.raw.toList.length := by
    refine List.length_pos_of_ne_nil fun hnil => ?_
    exact hcut.raw_ne_empty (String.toList_eq_nil_iff.mp hnil)
  have hlength := congrArg List.length hpieces.texts
  have hplain : '\\' ∉ name.toList ++ [m] := by
    refine Escape.not_mem_of_length_le ?_
    rw [← hlength, List.flatMap_cons, List.flatMap_singleton, ht.raw_eq, List.length_append,
      List.length_append]
    exact Nat.add_le_add_left hpos _
  have hcomplete := Escape.isComplete_of_not_mem (fun hmem => hplain (List.mem_append_left _ hmem))
  have hmark : lex none false [m] = [.op m] := reads_nil.reserved hm none false
  rw [lex_mark hm _ _ hcomplete, hmark] at h
  have hsame := List.append_inj' (h.trans (show [t, u] = [t] ++ [u] from rfl)) rfl
  rw [← lex_behind_mark ho, hsame.1]

end Lexer

/-! ### References -/

namespace Parser

variable {inner : Nest} {name : String} {t u : Token}

theorem op_of_closesRule (h : closesRule u = true) : u = .op '#' ∨ u = .op '}' := by
  simpa [closesRule] using h

theorem referenceBody_name (s : String) (hu : closesRule u = true) :
    referenceBody inner [.text s, u] = .ok (.rule s []) [] := by
  have hchain : modifiers inner s [u] = .ok [] [u] := by
    rcases op_of_closesRule hu with rfl | rfl
    · exact collect_none _ rfl
    · exact collect_none _ rfl
  have hopens : ([u].head? == some (.op '(')) = false := by
    rcases op_of_closesRule hu with rfl | rfl <;> rfl
  have hname : name? [.text s, u] = .ok (some s) [u] := rfl
  have hpeek : peek [u] = .ok [u].head? [u] := rfl
  rw [referenceBody, bind_ok hname, bind_ok hpeek]
  simp only [hopens]
  rw [show (some s).getD "" = s from rfl, bind_ok hchain, bind_ok (expect_head hu _)]
  rfl

theorem reference_mark (ht : Lexer.Names name t) (o : Char) (hu : closesRule u = true) :
    reference inner [.op o, t, u] = .ok [.rule name []] [] := by
  cases t with
  | text s =>
    obtain rfl : s = name := ht
    exact reference_tokens _ _ (by simp) rfl (referenceBody_name s hu)
  | number n =>
    obtain rfl : toString n = name := ht
    -- a number is as good as the text that it stands for
    exact reference_tokens _ _ (by simp) rfl (referenceBody_name (toString n) hu)
  | _ => exact ht.elim

theorem parse_mark (ht : Lexer.Names name t) {o : Char} (ho : o = '#' ∨ o = '{')
    (hu : closesRule u = true) : parse [.op o, t, u] = .ok [.rule name []] := by
  have hread : (nest maxNesting).read .rule [.op o, t, u] = .ok [.rule name []] [] :=
    reference_mark ht o hu
  have hfragment : fragment (nest maxNesting) [.op o, t, u] = .ok (some [.rule name []]) [] := by
    rcases ho with rfl | rfl
    · exact map_ok hread some
    · exact map_ok hread some
  rw [parse, block_alone hfragment]
  rfl

end Parser

theorem names_of_isValidName {name : String} (h : isValidName name = true) :
    ∃ t, tokenize name = [t] ∧ Lexer.Names name t := by
  unfold isValidName at h
  split at h
  · rename_i s hs
    exact ⟨_, hs, show s = name by simpa using h⟩
  · rename_i n hn
    exact ⟨_, hn, show toString n = name by simpa using h⟩
  · cases h

theorem tokenize_marks {name : String} {t : Token} (h : tokenize name = [t])
    (ht : Lexer.Names name t) {o m : Char} {left right : String} (hleft : left.toList = [o])
    (hright : right.toList = [m]) (ho : o = '#' ∨ o = '{') (hm : isReserved m = true) :
    tokenize (left ++ name ++ right) = [.op o, t, .op m] := by
  have ho' : isReserved o = true := by rcases ho with rfl | rfl <;> rfl
  have hopened : Lexer.endsOpen [.op o] = false := by rcases ho with rfl | rfl <;> rfl
  have hmark : Lexer.Reads [m] [.op m] := Lexer.reads_nil.reserved hm
  rw [tokenize, String.toList_append, String.toList_append, hleft, hright, List.cons_append,
    List.cons_append, Lexer.lex, Lexer.cut_reserved ho', hopened]
  exact congrArg (Token.op o :: ·) (Lexer.lex_between h ht ho' hm hmark)

/-- **A valid name between marks** is a reference to it, and nothing else. -/
theorem parseText_mark {name : String} (h : isValidName name = true) :
    parseText ("#" ++ name ++ "#") = .ok [.rule name []] := by
  obtain ⟨t, hlex, ht⟩ := names_of_isValidName h
  rw [parseText, tokenize_marks hlex ht rfl rfl (.inl rfl) rfl, Parser.parse_mark ht (.inl rfl) rfl]

/-- **A valid name between braces** is a reference to it, too. -/
theorem parseText_brace {name : String} (h : isValidName name = true) :
    parseText ("\x7b" ++ name ++ "\x7d") = .ok [.rule name []] := by
  obtain ⟨t, hlex, ht⟩ := names_of_isValidName h
  rw [parseText, tokenize_marks hlex ht rfl rfl (.inr rfl) rfl, Parser.parse_mark ht (.inr rfl) rfl]

/-! ### The names of a table -/

namespace RuleTable

variable {H : Type} {t : RuleTable H}

/-- **The rules of a table a host made** have valid names. -/
theorem Built.isValidName (h : t.Built) {name : String} {rule : Rule H}
    (hget : t.get? name = some rule) :
    isValidName name = true := by
  induction h generalizing rule with
  | empty => simp [get?, RuleTable.empty] at hget
  | add _ name' d ih =>
    unfold RuleTable.add at hget
    split at hget
    · rename_i hvalid
      dsimp only at hget
      split at hget
      · exact ih hget
      · rcases get?_insert hget with ⟨rfl, -⟩ | ⟨-, hget⟩
        · exact hvalid
        · exact ih hget
    · exact ih hget
  | remove _ name' ih => exact ih (get?_remove hget)
  | setSelector _ name' s done ih =>
    unfold RuleTable.setSelector at done
    split at done
    · rename_i rule' hrule
      obtain rfl := Except.ok.inj done
      rcases get?_insert hget with ⟨rfl, -⟩ | ⟨-, hget⟩
      · exact ih hrule
      · exact ih hget
    · cases done

end RuleTable

end TemplateGrammar
