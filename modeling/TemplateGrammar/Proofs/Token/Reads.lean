import Mathlib.Data.List.Basic
import TemplateGrammar.Template.Written
import TemplateGrammar.Token.Lexer

/-!
# How written pieces read as tokens

`Reads cs ts`: the characters `cs` are the tokens `ts` whatever stands before them.  It composes
from the right: a piece in front of characters that read as `ts` reads as its own tokens in front of
`ts`.

A text is the one piece whose end is not its own: the run goes on into what follows.  `Continues cs
pad ts` says how far, namely that a run which has come up to `cs` takes `pad` from it and leaves
characters that read as `ts`.  In a template as it is written, it goes on into nothing or into the
space before the next word of a block.
-/

namespace TemplateGrammar.Lexer

/-- The characters are these tokens whatever stands before them. -/
def Reads (cs : List Char) (ts : List Token) : Prop :=
  ∀ prev opened, lex prev opened cs = ts

/-- A text run that has come up to `cs` takes `pad` from it, and the rest is the tokens `ts`. -/
def Continues (cs pad : List Char) (ts : List Token) : Prop :=
  ∀ prev opened, (textRun opened prev cs).1 = pad ∧
    lex (textRun opened prev cs).2.1 false (textRun opened prev cs).2.2 = ts

/-- There is nothing here, or a reserved character. -/
def Breaks : List Char → Prop
  | [] => True
  | c :: _ => isReserved c = true

/-- No digit stands here. -/
def NoDigit : List Char → Prop
  | [] => True
  | c :: _ => c.isDigit = false

theorem Breaks.noDigit {cs : List Char} (h : Breaks cs) : NoDigit cs := by
  cases cs with
  | nil => exact h
  | cons c rest =>
    simp only [Breaks, isReserved, List.mem_cons, List.not_mem_nil, or_false,
      decide_eq_true_eq] at h
    rcases h with rfl | rfl | rfl | rfl | rfl | rfl | rfl | rfl | rfl | rfl <;> rfl

/-! ### What cannot begin here -/

theorem comparison?_cons {c : Char} (he : c ≠ '=') (hb : c ≠ '!') (cs : List Char) :
    comparison? (c :: cs) = none := by
  unfold comparison?
  split
  · rename_i h
    exact absurd (List.cons.inj h).1 he
  · rename_i h
    exact absurd (List.cons.inj h).1 hb
  · rfl

theorem keyword?_cons {c : Char} (h : ∀ k ∈ Keyword.all, k.spelling.toList.head? ≠ some c)
    (prev : Option Char) (opened : Bool) (cs : List Char) :
    keyword? prev opened (c :: cs) = none := by
  refine List.find?_eq_none.mpr fun k hk hhere => ?_
  simp only [keywordHere, Bool.and_eq_true, List.isPrefixOf_iff_prefix] at hhere
  obtain ⟨⟨⟨rest, hrest⟩, -⟩, -⟩ := hhere
  have hpos : 0 < k.spelling.toList.length := by cases k <;> decide
  apply h k hk
  cases hs : k.spelling.toList with
  | nil => simp [hs] at hpos
  | cons d ds =>
    rw [hs, List.cons_append] at hrest
    rw [List.head?_cons, (List.cons.inj hrest).1]

theorem ne_of_isReserved {c d : Char} (h : isReserved c = true)
    (hd : isReserved d = false) : c ≠ d := by
  rintro rfl
  rw [h] at hd
  cases hd

theorem keyword?_backslash (prev : Option Char) (opened : Bool) (cs : List Char) :
    keyword? prev opened ('\\' :: cs) = none :=
  keyword?_cons (by decide) prev opened cs

theorem ne_of_isBlank {c d : Char} (h : isBlank c = true) (hd : isBlank d = false) : c ≠ d := by
  rintro rfl
  rw [h] at hd
  cases hd

theorem isBlank_of_isReserved {c : Char} (h : isReserved c = true) : isBlank c = false := by
  simp only [isReserved, List.mem_cons, List.not_mem_nil, or_false, decide_eq_true_eq] at h
  rcases h with rfl | rfl | rfl | rfl | rfl | rfl | rfl | rfl | rfl | rfl <;> decide

theorem isReserved_of_isBlank {c : Char} (h : isBlank c = true) : isReserved c = false := by
  cases hr : isReserved c with
  | false => rfl
  | true => exact absurd h (Bool.eq_false_iff.mp (isBlank_of_isReserved hr))

theorem comparison?_blank {c : Char} (h : isBlank c = true) (cs : List Char) :
    comparison? (c :: cs) = none :=
  comparison?_cons (ne_of_isBlank h (by decide)) (ne_of_isBlank h (by decide)) cs

theorem keyword?_blank {c : Char} (h : isBlank c = true) (prev : Option Char) (opened : Bool)
    (cs : List Char) : keyword? prev opened (c :: cs) = none := by
  refine keyword?_cons (fun k _ hk => ?_) prev opened cs
  have hfirst : (k.spelling.toList.head?.any isBlank) = false := by cases k <;> decide
  rw [hk, Option.any_some, h] at hfirst
  cases hfirst

theorem keyword?_of_not_mayPrecede {prev : Option Char} {opened : Bool}
    (h : ∀ k, mayPrecede prev opened k = false) (cs : List Char) :
    keyword? prev opened cs = none := by
  refine List.find?_eq_none.mpr ?_
  intro k _ hk
  rw [keywordHere, h k, Bool.and_false] at hk
  cases hk

theorem keyword?_spelling {u v : Char} (hu : isBlank u = true) (hv : isBlank v = true) (k : Keyword)
    (opened : Bool) (cs : List Char) :
    keyword? (some u) opened (k.spelling.toList ++ v :: cs) = some k := by
  cases k <;>
    simp [keyword?, Keyword.all, keywordHere, Keyword.spelling, startsBlank, mayPrecede,
      List.isPrefixOf, hu, hv]

theorem keyword?_opening {v : Char} (hv : isBlank v = true) {k : Keyword} (hk : k.opensBlock = true)
    (cs : List Char) : keyword? (some '[') true (k.spelling.toList ++ v :: cs) = some k := by
  cases k <;> simp only [Keyword.opensBlock, Bool.false_eq_true] at hk <;>
    simp [keyword?, Keyword.all, keywordHere, Keyword.spelling, startsBlank, mayPrecede,
      List.isPrefixOf, Keyword.opensBlock, hv]

/-! ### Steps of the lexer -/

theorem cut_reserved {c : Char} (h : isReserved c = true) (prev : Option Char) (opened : Bool)
    (cs : List Char) : cut prev opened c cs = ⟨[.op c], some c, cs⟩ := by
  have hc : comparison? (c :: cs) = none :=
    comparison?_cons (ne_of_isReserved h (by decide)) (ne_of_isReserved h (by decide)) cs
  simp only [cut, hc]
  rw [if_pos h]

theorem cut_keyword {prev : Option Char} {opened : Bool} {v : Char} (hv : isBlank v = true)
    {cs rest : List Char} {k : Keyword} {c : Char} (hs : k.spelling.toList ++ v :: rest = c :: cs)
    (hk : keyword? prev opened (c :: cs) = some k) :
    cut prev opened c cs = ⟨[.keyword k, .text (String.singleton v)], some v, rest⟩ := by
  have hfirst : k.spelling.toList.head? = some c := by
    have hpos : k.spelling.toList ≠ [] := by cases k <;> decide
    rw [← List.head?_append_of_ne_nil _ hpos, hs, List.head?_cons]
  have hplain : ∀ k : Keyword, ∀ c ∈ k.spelling.toList.head?, isReserved c = false ∧
      c ≠ '=' ∧ c ≠ '!' := by
    intro k
    cases k <;> simp [Keyword.spelling, isReserved]
  obtain ⟨hr, he, hb⟩ := hplain k c hfirst
  have hdrop : (c :: cs).drop k.spelling.toList.length = v :: rest := by rw [← hs, List.drop_left]
  have hc := comparison?_cons he hb cs
  simp only [cut, hc, hk, hr, hdrop, cutWithBlank, hv, Bool.false_eq_true, if_false, if_true]

theorem cut_escape (prev : Option Char) (opened : Bool) (d : Char) (ds : List Char) :
    cut prev opened '\\' (d :: ds) = cutText opened d d ds := by
  have hc : comparison? ('\\' :: d :: ds) = none := comparison?_cons (by decide) (by decide) _
  have hk := keyword?_backslash prev opened (d :: ds)
  have hn : isNumber (('\\' :: d :: ds).takeWhile Char.isDigit) = false := rfl
  have hr : isReserved '\\' = false := rfl
  simp only [cut, hc, hk, hn, hr, Bool.false_eq_true, if_false, if_true]

theorem cut_blank {c : Char} (h : isBlank c = true) (prev : Option Char) (opened : Bool)
    (cs : List Char) : cut prev opened c cs = cutText opened c c cs := by
  have hd : c.isDigit = false := by
    cases hd : c.isDigit with
    | false => rfl
    | true =>
      simp only [isBlank, Char.isDigit, Char.toNat, Bool.and_eq_true, Bool.or_eq_true,
        decide_eq_true_eq, beq_iff_eq, UInt32.le_iff_toNat_le] at h hd
      have hleast : 48 ≤ c.val.toNat := hd.1
      have hmost : c.val.toNat ≤ 57 := hd.2
      omega
  have hn : isNumber ((c :: cs).takeWhile Char.isDigit) = false := by
    rw [List.takeWhile_cons, hd]
    rfl
  have hback : c ≠ '\\' := ne_of_isBlank h (by decide)
  simp only [cut, comparison?_blank h, keyword?_blank h, isReserved_of_isBlank h, hn, hback,
    Bool.false_eq_true, if_false]

theorem textRun_stops {opened : Bool} {prev : Option Char} {c : Char} {cs : List Char}
    (h : (isReserved c || (comparison? (c :: cs)).isSome ||
      (keyword? prev opened (c :: cs)).isSome) = true) :
    textRun opened prev (c :: cs) = ([], prev, c :: cs) := by
  rw [textRun.eq_def]
  simp only [h, if_true]

theorem textRun_stop {opened : Bool} {prev : Option Char} {c : Char} {cs : List Char}
    (h : isReserved c = true ∨ (keyword? prev opened (c :: cs)).isSome = true) :
    textRun opened prev (c :: cs) = ([], prev, c :: cs) := by
  refine textRun_stops ?_
  rcases h with h | h <;> simp [h]

/-- Where nothing stops it, a text run takes a character that is no backslash. -/
theorem textRun_go {opened : Bool} {prev : Option Char} {c : Char} {cs : List Char}
    (h : (isReserved c || (comparison? (c :: cs)).isSome ||
      (keyword? prev opened (c :: cs)).isSome) = false)
    (hc : c ≠ '\\') : textRun opened prev (c :: cs) =
      (c :: (textRun opened (some c) cs).1, (textRun opened (some c) cs).2.1,
        (textRun opened (some c) cs).2.2) := by
  rw [textRun.eq_def]
  simp only [h, hc, Bool.false_eq_true, if_false]

theorem textRun_escape (opened : Bool) (prev : Option Char) (d : Char) (ds : List Char) :
    textRun opened prev ('\\' :: d :: ds) =
      (d :: (textRun opened (some d) ds).1, (textRun opened (some d) ds).2.1,
        (textRun opened (some d) ds).2.2) := by
  have hc : comparison? ('\\' :: d :: ds) = none := comparison?_cons (by decide) (by decide) _
  have hgo : (isReserved '\\' || (comparison? ('\\' :: d :: ds)).isSome ||
      (keyword? prev opened ('\\' :: d :: ds)).isSome) = false := by
    rw [hc, keyword?_backslash]
    rfl
  rw [textRun.eq_def]
  simp only [hgo, Bool.false_eq_true, if_false, if_true]

theorem textRun_blank {c : Char} (h : isBlank c = true) (opened : Bool) (prev : Option Char)
    (cs : List Char) : textRun opened prev (c :: cs) =
      (c :: (textRun opened (some c) cs).1, (textRun opened (some c) cs).2.1,
        (textRun opened (some c) cs).2.2) := by
  refine textRun_go ?_ (ne_of_isBlank h (by decide))
  rw [isReserved_of_isBlank h, comparison?_blank h, keyword?_blank h]
  rfl

/-! ### Reserved characters and texts -/

theorem reads_nil : Reads [] [] := by
  intro prev opened
  rw [lex]

theorem Reads.reserved {cs : List Char} {ts : List Token} (h : Reads cs ts) {c : Char}
    (hc : isReserved c = true) : Reads (c :: cs) (.op c :: ts) := by
  intro prev opened
  rw [lex, cut_reserved hc, h]
  rfl

theorem Reads.continues {cs : List Char} {ts : List Token} (h : Reads cs ts) (hb : Breaks cs) :
    Continues cs [] ts := by
  intro prev opened
  cases cs with
  | nil => exact ⟨rfl, h _ _⟩
  | cons c rest =>
    rw [textRun_stop (.inl hb)]
    exact ⟨rfl, h _ _⟩

theorem Continues.written {cs pad : List Char} {ts : List Token} (h : Continues cs pad ts)
    (s : List Char) : Continues (Escape.everywhere s ++ cs) (s ++ pad) ts := by
  induction s with
  | nil => exact h
  | cons c rest ih =>
    intro prev opened
    have hw : Escape.everywhere (c :: rest) ++ cs = '\\' :: c :: (Escape.everywhere rest ++ cs) :=
      rfl
    obtain ⟨hpad, hrest⟩ := ih (some c) opened
    rw [hw, textRun_escape]
    exact ⟨by rw [hpad, List.cons_append], hrest⟩

/-- **A text that is not empty** is one token, with what the run takes of what follows. -/
theorem Continues.text {cs pad : List Char} {ts : List Token} (h : Continues cs pad ts) {s : String}
    (hs : s ≠ "") : Reads (Node.writtenText s ++ cs) (.text (s ++ String.ofList pad) :: ts) := by
  intro prev opened
  obtain ⟨c, rest, hc⟩ : ∃ c rest, s.toList = c :: rest := by
    cases hl : s.toList with
    | nil => exact absurd (String.toList_eq_nil_iff.mp hl) hs
    | cons c rest => exact ⟨c, rest, rfl⟩
  obtain ⟨hpad, hrest⟩ := h.written rest (some c) opened
  have hw : Node.writtenText s ++ cs = '\\' :: c :: (Escape.everywhere rest ++ cs) := by
    rw [Node.writtenText, hc]
    rfl
  have hjoin : String.ofList (c :: (rest ++ pad)) = s ++ String.ofList pad := by
    rw [← List.cons_append, ← hc, String.ofList_append, String.ofList_toList]
  rw [hw, lex, cut_escape]
  simp only [cutText]
  rw [hpad, hjoin]
  have hopen : endsOpen [.text (s ++ String.ofList pad)] = false := rfl
  rw [hopen, hrest]
  rfl

theorem Reads.text {cs : List Char} {ts : List Token} (h : Reads cs ts) (hb : Breaks cs)
    {s : String} (hs : s ≠ "") : Reads (Node.writtenText s ++ cs) (.text s :: ts) := by
  have := (h.continues hb).text hs
  rwa [String.ofList_nil, String.append_empty] at this

/-! ### Numbers -/

theorem head?_toDigits_ne {n : Nat} (h : n ≠ 0) : (Nat.toDigits 10 n).head? ≠ some '0' := by
  induction n using Nat.strongRecOn with
  | _ n ih =>
    by_cases hn : n < 10
    · rw [Nat.toDigits_of_lt_base hn]
      have hall : ∀ m < 10, m ≠ 0 → [m.digitChar].head? ≠ some '0' := by decide
      exact hall n hn h
    · have hq : n / 10 < n := by omega
      have hq0 : n / 10 ≠ 0 := by omega
      rw [Nat.toDigits_of_base_le (by decide) (by omega),
        List.head?_append_of_ne_nil _ Nat.toDigits_ne_nil]
      exact ih (n / 10) hq hq0

theorem isNumber_toDigits {n : Nat} (h : n < UInt32.size) :
    isNumber (Nat.toDigits 10 n) = true := by
  have hne : (Nat.toDigits 10 n).isEmpty = false := by simp
  have hvalue : digitsValue (Nat.toDigits 10 n) = n := Nat.ofDigitChars_ten_toDigits
  have hzero : (Nat.toDigits 10 n).length = 1 ∨ (Nat.toDigits 10 n).head? ≠ some '0' := by
    by_cases h0 : n = 0
    · left
      rw [h0]
      rfl
    · exact .inr (head?_toDigits_ne h0)
  simp only [isNumber, hne, hvalue, Bool.not_false, Bool.true_and, Bool.and_eq_true,
    Bool.or_eq_true, beq_iff_eq, bne_iff_ne, decide_eq_true_eq]
  exact ⟨hzero, h⟩

theorem takeWhile_append_of_noDigit {ds cs : List Char} (hd : ∀ d ∈ ds, d.isDigit = true)
    (hc : NoDigit cs) :
    (ds ++ cs).takeWhile Char.isDigit = ds ∧ (ds ++ cs).dropWhile Char.isDigit = cs := by
  rw [List.takeWhile_append_of_pos hd, List.dropWhile_append_of_pos hd]
  cases cs with
  | nil => simp
  | cons c rest =>
    have hc' : c.isDigit = false := hc
    simp [hc']

theorem plain_of_isDigit {c : Char} (h : c.isDigit = true) :
    c ≠ '=' ∧ c ≠ '!' ∧ isReserved c = false ∧ ∀ k ∈ Keyword.all,
    k.spelling.toList.head? ≠ some c := by
  have hne : ∀ d : Char, d.isDigit = false → c ≠ d := by
    rintro d hd rfl
    rw [h] at hd
    cases hd
  refine ⟨hne _ (by decide), hne _ (by decide), ?_, ?_⟩
  · cases hr : isReserved c with
    | false => rfl
    | true =>
      have hb : Breaks [c] := hr
      have hd : c.isDigit = false := hb.noDigit
      rw [hd] at h
      cases h
  · intro k _ hk
    have hword : (k.spelling.toList.head?.all fun d => !d.isDigit) = true := by
      cases k <;> decide
    rw [hk, Option.all_some, h] at hword
    cases hword

/-- **A number of 32 bits** with no digit behind it is one token. -/
theorem Reads.number {cs : List Char} {ts : List Token} (h : Reads cs ts)
    (hc : NoDigit cs) {n : Nat} (hn : n < UInt32.size) : Reads ((toString n).toList ++ cs)
    (.number n :: ts) := by
  intro prev opened
  have hdigits : ∀ d ∈ Nat.toDigits 10 n, d.isDigit = true := fun d hd =>
    Nat.isDigit_of_mem_toDigits (by decide) (by decide) hd
  obtain ⟨htake, hdrop⟩ := takeWhile_append_of_noDigit hdigits hc
  have hvalue : digitsValue (Nat.toDigits 10 n) = n := Nat.ofDigitChars_ten_toDigits
  have hnum := isNumber_toDigits hn
  rw [Nat.toString_eq_repr, Nat.toList_repr]
  cases hl : Nat.toDigits 10 n with
  | nil => exact absurd hl Nat.toDigits_ne_nil
  | cons d ds =>
    rw [hl] at htake hdrop hvalue hnum
    rw [List.cons_append] at htake hdrop ⊢
    obtain ⟨he, hb, hr, hk⟩ := plain_of_isDigit (hdigits d (by rw [hl]; exact List.mem_cons_self))
    have hc' := comparison?_cons he hb (ds ++ cs)
    have hk' := keyword?_cons hk prev opened (ds ++ cs)
    rw [lex]
    simp only [cut, hc', hk', hr, htake, hdrop, hvalue, hnum, Bool.false_eq_true, if_false, if_true]
    rw [h]
    rfl

/-! ### The words of blocks -/

/-- The words that stand between the parts of a block, with the tokens they are. -/
inductive Between : List Char → Token → Prop
  | equal : Between ['=', '='] .equal
  | unequal : Between ['!', '='] .unequal
  | keyword (k : Keyword) : Between k.spelling.toList (.keyword k)

section Blanks

variable {u v : Char} (hu : isBlank u = true) (hv : isBlank v = true) {word : List Char} {t : Token}
  {cs : List Char} {ts : List Token}

include hu hv

/-- Behind a blank a word with a blank after it is a token, and the blank one of its own. -/
theorem Between.lex_blank (hw : Between word t) (h : Reads cs ts) (opened : Bool) :
    lex (some u) opened (word ++ v :: cs) = t :: .text (String.singleton v) :: ts := by
  cases hw with
  | equal =>
    have hcut : cut (some u) opened '=' ('=' :: v :: cs) =
        ⟨[.equal, .text (String.singleton v)], some v, cs⟩ := by
      simp only [cut, comparison?, cutWithBlank, hv, if_true]
    rw [List.cons_append, Lexer.lex, List.cons_append, List.nil_append, hcut, h]
    rfl
  | unequal =>
    have hcut : cut (some u) opened '!' ('=' :: v :: cs) =
        ⟨[.unequal, .text (String.singleton v)], some v, cs⟩ := by
      simp only [cut, comparison?, cutWithBlank, hv, if_true]
    rw [List.cons_append, Lexer.lex, List.cons_append, List.nil_append, hcut, h]
    rfl
  | keyword k =>
    have hk := keyword?_spelling hu hv k opened cs
    generalize hs : k.spelling.toList ++ v :: cs = all at hk
    cases all with
    | nil => simp at hs
    | cons c rest =>
      rw [Lexer.lex, cut_keyword hv hs hk, h]
      rfl

theorem Between.textRun (hw : Between word t) (cs : List Char) (opened : Bool) :
    textRun opened (some u) (word ++ v :: cs) = ([], some u, word ++ v :: cs) := by
  cases hw with
  | equal => rfl
  | unequal => rfl
  | keyword k =>
    have hk := keyword?_spelling hu hv k opened cs
    generalize hs : k.spelling.toList ++ v :: cs = all at hk ⊢
    cases all with
    | nil => rfl
    | cons c rest => exact textRun_stop (.inr (by rw [hk]; rfl))

/-- **A text run goes on into the blank before a word** and no further. -/
theorem Between.continues_blank (hw : Between word t) (h : Reads cs ts) :
    Continues (u :: (word ++ v :: cs)) [u] (t :: .text (String.singleton v) :: ts) := by
  intro prev opened
  rw [textRun_blank hu, hw.textRun hu hv]
  exact ⟨rfl, hw.lex_blank hu hv h false⟩

end Blanks

section Spaces

variable {word : List Char} {t : Token} (hw : Between word t) {cs : List Char} {ts : List Token}
    (h : Reads cs ts)

include hw h

/-- A text run goes on into the space before a word and no further. -/
theorem Between.continues : Continues (' ' :: (word ++ ' ' :: cs)) [' '] (t :: .text " " :: ts) :=
  hw.continues_blank rfl rfl h

/-- Where no text run has come up to it, the space before a word is a text of its own. -/
theorem Between.reads : Reads (' ' :: (word ++ ' ' :: cs)) (.text " " :: t :: .text " " :: ts) := by
  intro prev opened
  have hcut : cutText opened ' ' ' ' (word ++ ' ' :: cs) =
      ⟨[.text " "], some ' ', word ++ ' ' :: cs⟩ := by
    rw [cutText, hw.textRun rfl rfl]
  rw [Lexer.lex, cut_blank rfl, hcut]
  have hopen : endsOpen [.text " "] = false := rfl
  rw [hopen, hw.lex_blank rfl rfl h]
  rfl

end Spaces

/-- **The opening of a block,** with a blank behind its word. -/
theorem Reads.opening_blank {v : Char} (hv : isBlank v = true) {cs : List Char} {ts : List Token}
    (h : Reads cs ts) {k : Keyword} (hk : k.opensBlock = true) :
    Reads ('[' :: (k.spelling.toList ++ v :: cs))
      (.op '[' :: .keyword k :: .text (String.singleton v) :: ts) := by
  intro prev opened
  have hopen : endsOpen [.op '['] = true := rfl
  have hfound := keyword?_opening hv hk cs
  rw [lex, cut_reserved rfl, hopen]
  generalize hs : k.spelling.toList ++ v :: cs = all at hfound ⊢
  cases all with
  | nil => simp at hs
  | cons c rest =>
    rw [lex, cut_keyword hv hs hfound, h]
    rfl

theorem Reads.opening {cs : List Char} {ts : List Token} (h : Reads cs ts) {k : Keyword}
    (hk : k.opensBlock = true) :
    Reads ('[' :: (k.spelling.toList ++ ' ' :: cs)) (.op '[' :: .keyword k :: .text " " :: ts) :=
  h.opening_blank rfl hk

end TemplateGrammar.Lexer
