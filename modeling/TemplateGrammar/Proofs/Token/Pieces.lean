import Mathlib.Data.List.Induction
import TemplateGrammar.Proofs.Token.Reads

/-!
# What a text is cut into

The lexer cuts a text into pieces and makes a token of each: nothing stands between two pieces, none
is used twice, and none is left over but a backslash at the very end (`InPieces`).  The piece of a
number, a keyword, a comparison or a reserved character is what the token stands for, and the piece
of a text is the text with some of its characters escaped (`Token.CutFrom`).

So the raw texts of the tokens, end to end, are the text with its escapes resolved
(`InPieces.texts`), whatever the lexer goes by when it looks for the end of a piece.  What a step
can do is said once (`Step`), and each step keeps this: what it takes, in front of what is in
pieces, is in pieces (`Step.takesPieces`).
-/

namespace TemplateGrammar

namespace Escape

/-- **A text as it may be written:** any of its characters behind a backslash, and a backslash
always so. -/
inductive Writes : List Char → List Char → Prop
  | nil : Writes [] []
  | plain {c : Char} {text cs : List Char} (hc : c ≠ '\\') (h : Writes text cs) :
    Writes (c :: text) (c :: cs)
  | escaped {text cs : List Char} (c : Char) (h : Writes text cs) : Writes (c :: text)
    ('\\' :: c :: cs)

theorem Writes.resolve_append {text cs : List Char} (h : Writes text cs) (rest : List Char) :
    resolve (cs ++ rest) = text ++ resolve rest := by
  induction h with
  | nil => rfl
  | plain hc _ ih => rw [List.cons_append, resolve_cons hc, ih, List.cons_append]
  | escaped c _ ih =>
    rw [List.cons_append, List.cons_append, resolve_backslash, ih, List.cons_append]

theorem writes_self {cs : List Char} (h : '\\' ∉ cs) : Writes cs cs := by
  induction cs with
  | nil => exact .nil
  | cons c cs ih =>
    rw [List.mem_cons, not_or] at h
    exact .plain (Ne.symm h.1) (ih h.2)

end Escape

/-- A text. -/
def Token.isText : Token → Bool
  | .text _ => true
  | _ => false

/-- A blank behind this token is a token of its own. -/
def Token.splitsBlank : Token → Bool
  | .equal | .unequal | .keyword _ => true
  | _ => false

/-- **The piece a token is cut from.** -/
inductive Token.CutFrom : Token → List Char → Prop
  | text {s : String} {cs : List Char} (hs : s ≠ "") (h : Escape.Writes s.toList cs) :
    CutFrom (.text s) cs
  | op {c : Char} (hc : isReserved c = true) : CutFrom (.op c) [c]
  | equal : CutFrom .equal ['=', '=']
  | unequal : CutFrom .unequal ['!', '=']
  | keyword (k : Keyword) : CutFrom (.keyword k) k.spelling.toList
  | number {n : Nat} (hn : n < UInt32.size) : CutFrom (.number n) (Nat.toDigits 10 n)

namespace Token.CutFrom

variable {t : Token} {piece : List Char}

/-- **A piece writes the raw text of its token.** -/
theorem writes (h : t.CutFrom piece) : Escape.Writes t.raw.toList piece := by
  cases h with
  | text hs h => exact h
  | @op c hc =>
    have hne : '\\' ∉ [c] := by
      rw [List.mem_singleton]
      rintro rfl
      cases hc
    simpa [raw] using Escape.writes_self hne
  | equal => exact Escape.writes_self (by decide)
  | unequal => exact Escape.writes_self (by decide)
  | keyword k => exact Escape.writes_self (by cases k <;> decide)
  | @number n hn =>
    have hplain : '\\' ∉ Nat.toDigits 10 n := fun hmem => by
      cases Nat.isDigit_of_mem_toDigits (by decide) (by decide) hmem
    rw [raw, Nat.toString_eq_repr, Nat.toList_repr]
    exact Escape.writes_self hplain

theorem ne_nil (h : t.CutFrom piece) : piece ≠ [] := by
  cases h with
  | @text s cs hs h =>
    rintro rfl
    generalize htext : s.toList = text at h
    cases h
    exact hs (String.toList_eq_nil_iff.mp htext)
  | op hc => exact List.cons_ne_nil _ _
  | equal => exact List.cons_ne_nil _ _
  | unequal => exact List.cons_ne_nil _ _
  | keyword k => cases k <;> decide
  | number hn => exact Nat.toDigits_ne_nil

theorem raw_ne_empty (h : t.CutFrom piece) : t.raw ≠ "" := by
  cases h with
  | text hs _ => exact hs
  | op _ => simp [raw]
  | equal => simp [raw]
  | unequal => simp [raw]
  | keyword k => cases k <;> simp [raw, Keyword.spelling]
  | number _ => simp [raw]

theorem eq_text_of_raw (h : t.CutFrom piece) (hraw : t.raw = " ") : t = .text " " := by
  cases h with
  | text hs _ => exact congrArg _ hraw
  | @op c hc =>
    have hchar := congrArg String.toList hraw
    rw [raw, String.toList_singleton] at hchar
    obtain rfl := (List.cons.inj hchar).1
    cases hc
  | equal => exact absurd hraw (by decide)
  | unequal => exact absurd hraw (by decide)
  | keyword k => cases k <;> exact absurd hraw (by decide)
  | @number n _ =>
    have hdigits := congrArg String.toList hraw
    rw [raw, Nat.toString_eq_repr, Nat.toList_repr] at hdigits
    have hblank : ' ' ∈ Nat.toDigits 10 n := hdigits ▸ List.mem_cons_self
    cases Nat.isDigit_of_mem_toDigits (by decide) (by decide) hblank

end Token.CutFrom

namespace Lexer

open Escape (Writes)

/-- **The tokens of characters in pieces,** one piece behind the other.  A backslash at the very end
is no token's. -/
inductive InPieces : List Token → List Char → Prop
  | nil : InPieces [] []
  | backslash : InPieces [] ['\\']
  | cons {t : Token} {ts : List Token} {piece rest : List Char} (ht : t.CutFrom piece)
    (h : InPieces ts rest) : InPieces (t :: ts) (piece ++ rest)

/-! ### Digits -/

/-- The number a digit stands for. -/
def digitValue (d : Char) : Nat :=
  d.toNat - '0'.toNat

theorem digitsValue_append (ds : List Char) (d : Char) :
    digitsValue (ds ++ [d]) = 10 * digitsValue ds + digitValue d := by
  rw [digitsValue, List.foldl_append]
  rfl

theorem digitValue_lt {d : Char} (h : d.isDigit = true) : digitValue d < 10 := by
  simp only [Char.isDigit, Bool.and_eq_true, decide_eq_true_eq, UInt32.le_iff_toNat_le] at h
  have hmost : d.toNat ≤ 57 := h.2
  have hzero : '0'.toNat = 48 := rfl
  rw [digitValue]
  omega

theorem digitChar_digitValue {d : Char} (h : d.isDigit = true) : (digitValue d).digitChar = d := by
  have hlt := digitValue_lt h
  simp only [Char.isDigit, Bool.and_eq_true, decide_eq_true_eq, UInt32.le_iff_toNat_le] at h
  have hleast : 48 ≤ d.toNat := h.1
  have hzero : '0'.toNat = 48 := rfl
  rw [← Char.toNat_inj, Nat.toNat_digitChar_of_lt_ten hlt, digitValue]
  omega

theorem digitsValue_pos {ds : List Char} (hd : ∀ d ∈ ds, d.isDigit = true) (hne : ds ≠ [])
    (hzero : ds.head? ≠ some '0') : 0 < digitsValue ds := by
  induction ds using List.reverseRecOn with
  | nil => exact absurd rfl hne
  | append_singleton ds d ih =>
    rw [digitsValue_append]
    by_cases hds : ds = []
    · subst hds
      -- the only digit that stands for nought is the zero
      have hdigit : digitValue d ≠ 0 := by
        intro h0
        have hd0 := digitChar_digitValue (hd d (by simp))
        rw [h0] at hd0
        exact hzero (congrArg some hd0.symm)
      omega
    · have hbefore : ∀ e ∈ ds, e.isDigit = true := fun e he => hd e (List.mem_append_left _ he)
      rw [List.head?_append_of_ne_nil _ hds] at hzero
      have hpos := ih hbefore hds hzero
      omega

/-- **A run of digits without a needless leading zero** is how its value is written. -/
theorem toDigits_digitsValue {ds : List Char} (hd : ∀ d ∈ ds, d.isDigit = true) (hne : ds ≠ [])
    (hzero : ds.length = 1 ∨ ds.head? ≠ some '0') : Nat.toDigits 10 (digitsValue ds) = ds := by
  induction ds using List.reverseRecOn with
  | nil => exact absurd rfl hne
  | append_singleton ds d ih =>
    have hlast : Nat.toDigits 10 (digitValue d) = [d] := by
      have hdigit := hd d (by simp)
      rw [Nat.toDigits_of_lt_base (digitValue_lt hdigit), digitChar_digitValue hdigit]
    have hlt := digitValue_lt (hd d (by simp))
    by_cases hds : ds = []
    · subst hds
      rw [digitsValue_append, show digitsValue [] = 0 from rfl, Nat.mul_zero, Nat.zero_add]
      exact hlast
    · have hbefore : ∀ e ∈ ds, e.isDigit = true := fun e he => hd e (List.mem_append_left _ he)
      have hhead : ds.head? ≠ some '0' := by
        rcases hzero with hlength | hhead
        · have hpos := List.length_pos_iff.mpr hds
          rw [List.length_append, List.length_singleton] at hlength
          omega
        · rwa [List.head?_append_of_ne_nil _ hds] at hhead
      rw [digitsValue_append, ← Nat.toDigits_append_toDigits (by decide)
        (digitsValue_pos hbefore hds hhead) hlt,
        ih hbefore hds (.inr hhead), hlast]

/-! ### The pieces of a cut -/

theorem cutFrom_number {ds : List Char} (hd : ∀ d ∈ ds, d.isDigit = true) (h : isNumber ds = true) :
    (Token.number (digitsValue ds)).CutFrom ds := by
  simp only [isNumber, Bool.and_eq_true, Bool.not_eq_true', List.isEmpty_eq_false_iff,
    Bool.or_eq_true, beq_iff_eq, bne_iff_ne, decide_eq_true_eq] at h
  obtain ⟨⟨hne, hzero⟩, hsize⟩ := h
  have hcut := Token.CutFrom.number hsize
  rwa [toDigits_digitsValue hd hne hzero] at hcut

theorem cutFrom_comparison {cs rest : List Char} {t : Token} (h : comparison? cs = some (t, rest)) :
    (t = .equal ∨ t = .unequal) ∧ ∃ piece, piece ++ rest = cs ∧ t.CutFrom piece := by
  unfold comparison? at h
  split at h
  · obtain ⟨rfl, rfl⟩ := Prod.mk.inj (Option.some.inj h)
    exact ⟨.inl rfl, ['=', '='], rfl, .equal⟩
  · obtain ⟨rfl, rfl⟩ := Prod.mk.inj (Option.some.inj h)
    exact ⟨.inr rfl, ['!', '='], rfl, .unequal⟩
  · cases h

theorem spelling_append_drop {prev : Option Char} {opened : Bool} {cs : List Char} {k : Keyword}
    (h : keyword? prev opened cs = some k) :
    k.spelling.toList ++ cs.drop k.spelling.toList.length = cs := by
  have hhere : keywordHere prev opened cs k = true := List.find?_some h
  simp only [keywordHere, Bool.and_eq_true, List.isPrefixOf_iff_prefix] at hhere
  obtain ⟨⟨⟨rest, rfl⟩, -⟩, -⟩ := hhere
  rw [List.drop_left]

theorem startsBlank_drop {prev : Option Char} {opened : Bool} {cs : List Char} {k : Keyword}
    (h : keyword? prev opened cs = some k) :
    startsBlank (cs.drop k.spelling.toList.length) = true := by
  have hhere : keywordHere prev opened cs k = true := List.find?_some h
  simp only [keywordHere, Bool.and_eq_true] at hhere
  exact hhere.1.2

theorem cutFrom_blank {c : Char} (h : isBlank c = true) :
    (Token.text (String.singleton c)).CutFrom [c] := by
  refine .text (by simp) ?_
  rw [String.toList_singleton]
  refine Escape.writes_self ?_
  rw [List.mem_singleton]
  rintro rfl
  cases h

/-! ### What a step can do -/

/-- **What a step of the lexer can do** with the characters it is given. -/
inductive Step (opened : Bool) : List Char → Cut → Prop
  | backslash {last : Option Char} : Step opened ['\\'] ⟨[], last, []⟩
  | single {t : Token} {last : Option Char} {piece rest : List Char} (ht : t.CutFrom piece)
    (htext : t.isText = false)
      (hword : ∀ k, t ≠ .keyword k) : Step opened (piece ++ rest) ⟨[t], last, rest⟩
  | split {t : Token} {v : Char} {piece rest : List Char} (ht : t.CutFrom piece)
    (hsplits : t.splitsBlank = true)
      (hv : isBlank v = true) :
      Step opened (piece ++ v :: rest) ⟨[t, .text (String.singleton v)], some v, rest⟩
  | plain {c : Char} {cs : List Char} (hc : isReserved c = false) (hback : c ≠ '\\') :
    Step opened (c :: cs) (cutText opened c c cs)
  | escaped {c : Char} {cs : List Char} : Step opened ('\\' :: c :: cs) (cutText opened c c cs)

/-- A token is cut off with the blank behind it, which a keyword always has. -/
theorem step_cutWithBlank {opened : Bool} {t : Token} {piece : List Char} (ht : t.CutFrom piece)
    (hsplits : t.splitsBlank = true) (last : Option Char) {rest : List Char}
    (hword : ∀ k, t = .keyword k → startsBlank rest = true) : Step opened (piece ++ rest)
      (cutWithBlank t last rest) := by
  have htext : t.isText = false := by cases t <;> first | rfl | cases hsplits
  cases rest with
  | nil => exact .single ht htext fun k hk => Bool.false_ne_true (hword k hk)
  | cons v rest =>
    rw [cutWithBlank]
    split
    · rename_i hv
      exact .split ht hsplits hv
    · rename_i hv
      exact .single ht htext fun k hk => hv (hword k hk)

/-- **Every step is one of these.** -/
theorem step_cut (prev : Option Char) (opened : Bool) (c : Char) (cs : List Char) :
    Step opened (c :: cs) (cut prev opened c cs) := by
  unfold cut
  split
  · rename_i t rest hcomparison
    obtain ⟨hsymbol, piece, hpiece, ht⟩ := cutFrom_comparison hcomparison
    rw [← hpiece]
    rcases hsymbol with rfl | rfl
    · exact step_cutWithBlank ht rfl _ fun k hk => by cases hk
    · exact step_cutWithBlank ht rfl _ fun k hk => by cases hk
  · split
    · rename_i hreserved
      exact .single (.op hreserved) rfl fun k hk => by cases hk
    · rename_i hreserved
      split
      · rename_i k hkeyword
        rw [← spelling_append_drop hkeyword, List.drop_left]
        exact step_cutWithBlank (.keyword k) rfl _ fun _ _ => startsBlank_drop hkeyword
      · split
        · rename_i hnumber
          have hdigits : ∀ d ∈ (c :: cs).takeWhile Char.isDigit, d.isDigit = true := fun d hd =>
            List.all_eq_true.mp List.all_takeWhile d hd
          have hstep : Step opened (_ ++ (c :: cs).dropWhile Char.isDigit)
              ⟨[.number _], some c, _⟩ :=
            .single (cutFrom_number hdigits hnumber) rfl fun k hk => by cases hk
          rwa [List.takeWhile_append_dropWhile] at hstep
        · split
          · rename_i hback
            subst hback
            cases cs with
            | nil => exact .backslash
            | cons d ds => exact .escaped
          · rename_i hback
            exact .plain (Bool.eq_false_iff.mpr hreserved) hback

/-! ### The pieces of a step -/

variable {ts : List Token}

/-- **A cut takes pieces off:** it puts tokens in front of those of the pieces that it leaves. -/
def Cut.TakesPieces (cut : Cut) (cs : List Char) : Prop :=
  ∀ ts, InPieces ts cut.rest → InPieces (cut.tokens ++ ts) cs

theorem InPieces.eq_nil (h : InPieces ts []) : ts = [] := by
  generalize hcs : ([] : List Char) = cs at h
  cases h with
  | nil => rfl
  | backslash => rfl
  | cons ht h => exact absurd (List.append_eq_nil_iff.mp hcs.symm).1 ht.ne_nil

/-- **A text run writes its text,** and leaves the rest in pieces.  A backslash that it drops is the
last character. -/
theorem InPieces.exists_textRun {opened : Bool} {prev : Option Char} {cs : List Char}
    (h : InPieces ts (textRun opened prev cs).2.2) :
    ∃ front rest, cs = front ++ rest ∧ Writes (textRun opened prev cs).1 front ∧
    InPieces ts rest := by
  fun_induction textRun opened prev cs with
  | case1 prev => exact ⟨[], [], rfl, .nil, h⟩
  | case2 prev c cs hstop => exact ⟨[], c :: cs, rfl, .nil, h⟩
  | case3 prev hstop =>
    obtain rfl := h.eq_nil
    exact ⟨[], ['\\'], rfl, .nil, .backslash⟩
  | case4 prev d ds text last rest hrun hstop ih =>
    rw [hrun] at ih
    obtain ⟨front, left, rfl, hwrites, hleft⟩ := ih h
    exact ⟨'\\' :: d :: front, left, rfl, .escaped d hwrites, hleft⟩
  | case5 prev c cs hstop hc text last rest hrun ih =>
    rw [hrun] at ih
    obtain ⟨front, left, rfl, hwrites, hleft⟩ := ih h
    exact ⟨c :: front, left, rfl, .plain hc hwrites, hleft⟩

/-- A text run, with the character that it begins with as that is written. -/
theorem takesPieces_cutText (opened : Bool) {first : Char} (written : Char) (opening : List Char)
    (hfirst : ∀ text front, Writes text front → Writes (first :: text) (opening ++ front))
    (cs : List Char) :
    (cutText opened first written cs).TakesPieces (opening ++ cs) := by
  intro ts h
  obtain ⟨front, rest, rfl, hwrites, hrest⟩ := h.exists_textRun
  rw [← List.append_assoc]
  refine .cons (.text ?_ ?_) hrest
  · rw [Ne, String.ofList_eq_empty_iff]
    exact List.cons_ne_nil _ _
  · rw [String.toList_ofList]
    exact hfirst _ front hwrites

/-- **A step of the lexer takes pieces off.** -/
theorem Step.takesPieces {opened : Bool} {cs : List Char} {taken : Cut} (h : Step opened cs taken) :
    taken.TakesPieces cs := by
  intro ts hts
  cases h with
  | backslash =>
    obtain rfl := hts.eq_nil
    exact .backslash
  | single ht _ _ => exact .cons ht hts
  | split ht _ hv => exact .cons ht (.cons (cutFrom_blank hv) hts)
  | @plain c cs _ hback =>
    exact takesPieces_cutText opened c [c] (fun _ _ h => .plain hback h) cs ts hts
  | @escaped c cs =>
    exact takesPieces_cutText opened c ['\\', c] (fun _ _ h => .escaped c h) cs ts hts

/-- **Every text is cut into pieces.** -/
theorem inPieces_lex (prev : Option Char) (opened : Bool) (cs : List Char) :
    InPieces (lex prev opened cs) cs := by
  fun_induction lex prev opened cs with
  | case1 prev opened => exact .nil
  | case2 prev opened c cs ih => exact (step_cut prev opened c cs).takesPieces _ ih

/-- **The raw texts of pieces,** end to end, are the text with its escapes resolved. -/
theorem InPieces.texts {cs : List Char} (h : InPieces ts cs) :
    (ts.flatMap fun t => t.raw.toList) = Escape.resolve cs := by
  induction h with
  | nil => rfl
  | backslash => rfl
  | cons ht _ ih => rw [List.flatMap_cons, ih, ht.writes.resolve_append]

theorem InPieces.exists_piece {cs : List Char} (h : InPieces ts cs) {t : Token} (ht : t ∈ ts) :
    ∃ piece, t.CutFrom piece ∧ piece <:+: cs := by
  induction h with
  | nil => cases ht
  | backslash => cases ht
  | @cons first ts piece rest hfirst _ ih =>
    rcases List.mem_cons.mp ht with rfl | ht
    · exact ⟨piece, hfirst, (List.prefix_append piece rest).isInfix⟩
    · obtain ⟨other, hother, hin⟩ := ih ht
      exact ⟨other, hother, hin.trans (List.suffix_append piece rest).isInfix⟩

end Lexer

/-- Every token is cut from some piece of a text. -/
def Pieced (tokens : List Token) : Prop :=
  ∀ t ∈ tokens, ∃ piece, t.CutFrom piece

theorem pieced_tokenize (text : String) : Pieced (tokenize text) := by
  intro t ht
  obtain ⟨piece, hpiece, -⟩ := (Lexer.inPieces_lex none false text.toList).exists_piece ht
  exact ⟨piece, hpiece⟩

theorem Pieced.of_suffix {tokens ts : List Token} (h : Pieced tokens)
    (hts : ts <:+ tokens) : Pieced ts :=
  fun t ht => h t (hts.subset ht)

/-- **Nothing is lost by the lexer.**  Every text is in pieces, one for each token, and the raw
texts of the tokens, end to end, are the text with its escapes resolved.  What is made a token of
its own is one of the reserved characters, no text is empty, and a number is one of 32 bits, which
stands in the text as it is written in decimal. -/
theorem tokenize_keeps (s : String) :
    Lexer.InPieces (tokenize s) s.toList ∧ Token.rawText (tokenize s) =
      String.ofList (Escape.resolve s.toList) ∧
      (∀ c, .op c ∈ tokenize s → isReserved c = true) ∧
      (∀ text, .text text ∈ tokenize s → text ≠ "") ∧
      ∀ n, .number n ∈ tokenize s → n < UInt32.size ∧ Nat.toDigits 10 n <:+: s.toList := by
  have hpieces : Lexer.InPieces (tokenize s) s.toList := Lexer.inPieces_lex none false s.toList
  have hraw : (Token.rawText (tokenize s)).toList = Escape.resolve s.toList := by
    rw [Token.rawText, String.toList_join, List.flatMap_map, hpieces.texts]
  refine ⟨hpieces, ?_, fun c hc => ?_, fun text htext => ?_, fun n hn => ?_⟩
  · rw [← hraw, String.ofList_toList]
  · obtain ⟨_, hcut, -⟩ := hpieces.exists_piece hc
    cases hcut with
    | op hc => exact hc
  · obtain ⟨_, hcut, -⟩ := hpieces.exists_piece htext
    cases hcut with
    | text hs _ => exact hs
  · obtain ⟨_, hcut, hin⟩ := hpieces.exists_piece hn
    cases hcut with
    | number hn => exact ⟨hn, hin⟩

/-- Escapes inside of a text and at its end, a needless zero, and a keyword of two words. -/
def trickyPieces : String :=
  "[if \\ax\\#== 007 not in 42:0,\\"

theorem tokenize_trickyPieces :
    tokenize trickyPieces = [.op '[', .keyword .ifWord, .text " ", .text "ax#", .equal,
      .text " ", .text "007 ",
        .keyword .notInWord, .text " ", .number 42, .op ':', .number 0, .op ','] ∧
      String.ofList (Escape.resolve trickyPieces.toList) = "[if ax#== 007 not in 42:0," ∧
      isReserved ',' = true ∧ "007 " ≠ "" ∧ 42 < UInt32.size ∧
      Nat.toDigits 10 42 <:+: trickyPieces.toList := by
  have htokens : tokenize trickyPieces = [.op '[', .keyword .ifWord, .text " ", .text "ax#",
      .equal, .text " ",
      .text "007 ", .keyword .notInWord, .text " ", .number 42, .op ':', .number 0, .op ','] := by
    decide +kernel
  obtain ⟨-, hraw, hop, htext, hnumber⟩ := tokenize_keeps trickyPieces
  rw [htokens] at hraw hop htext hnumber
  exact ⟨htokens, hraw.symm, hop ',' (by simp), htext "007 " (by simp), hnumber 42 (by simp)⟩

end TemplateGrammar
