import TemplateGrammar.Token.Basic

/-!
# From characters to tokens

`tokenize` cuts a text into tokens and never fails: what is neither a comparison, a reserved
character, a keyword nor a number is literal text.

Keywords depend on what stands around them.  A keyword must be followed by a blank, and the
character before it must be a blank too, or, for `if` and `while` alone, a `[` that was itself read
as a token.  So every reader below is told the character before its place (`prev`) and whether the
last token is a `[` (`opened`).  The character before is the one written there, whether or not it
was escaped.

Inside a text run a backslash takes the next character as it is, and a backslash at the very end is
dropped.
-/

namespace TemplateGrammar

/-- The characters that are always a token of their own. -/
def isReserved (c : Char) : Bool :=
  c ∈ ['[', ']', ':', '#', ',', '.', '(', ')', '{', '}']

namespace Lexer

/-- The comparison at the head of the input. -/
def comparison? : List Char → Option (Token × List Char)
  | '=' :: '=' :: rest => some (.equal, rest)
  | '!' :: '=' :: rest => some (.unequal, rest)
  | _ => none

/-- The first character is a blank. -/
def startsBlank : List Char → Bool
  | c :: _ => isBlank c
  | [] => false

/-- What stands before a keyword lets it be one. -/
def mayPrecede (prev : Option Char) (opened : Bool) (k : Keyword) : Bool :=
  match prev with
  | none => false
  | some c => isBlank c || (c == '[' && k.opensBlock && opened)

/-- The keyword `k` stands at the head of the input. -/
def keywordHere (prev : Option Char) (opened : Bool) (cs : List Char) (k : Keyword) : Bool :=
  k.spelling.toList.isPrefixOf cs && startsBlank (cs.drop k.spelling.toList.length) &&
    mayPrecede prev opened k

/-- The keyword at the head of the input. -/
def keyword? (prev : Option Char) (opened : Bool) (cs : List Char) : Option Keyword :=
  Keyword.all.find? (keywordHere prev opened cs)

/-- The value of a run of decimal digits. -/
def digitsValue (ds : List Char) : Nat :=
  ds.foldl (fun n d => 10 * n + (d.toNat - '0'.toNat)) 0

/-- **Numbers keep every character.**  A digit run is a number if it has no needless leading zero
and its value fits 32 bits; any other digit run stays text. -/
def isNumber (ds : List Char) : Bool :=
  !ds.isEmpty && (ds.length == 1 || ds.head? != some '0') && decide (digitsValue ds < UInt32.size)

/-- The rest of a text run, with the escapes resolved, the last character read and what follows. -/
def textRun (opened : Bool) : Option Char → List Char → List Char × Option Char × List Char
  | prev, [] => ([], prev, [])
  | prev, c :: cs =>
    if isReserved c || (comparison? (c :: cs)).isSome ||
      (keyword? prev opened (c :: cs)).isSome then
      ([], prev, c :: cs)
    else if c = '\\' then
      match cs with
      | [] => ([], some c, [])
      | d :: ds =>
        let (text, last, rest) := textRun opened (some d) ds
        (d :: text, last, rest)
    else
      let (text, last, rest) := textRun opened (some c) cs
      (c :: text, last, rest)

/-- What one step of the lexer takes off the input: the tokens it makes, the last character it read
and the characters it leaves. -/
structure Cut where
  tokens : List Token
  last : Option Char
  rest : List Char

/-- A token, with the blank directly after it split off as a token of its own. -/
def cutWithBlank (t : Token) (last : Option Char) : List Char → Cut
  | [] => ⟨[t], last, []⟩
  | c :: cs => if isBlank c then ⟨[t, .text (String.singleton c)], some c, cs⟩
    else ⟨[t], last, c :: cs⟩

/-- A text run whose first character, escape resolved, is `first`. -/
def cutText (opened : Bool) (first written : Char) (cs : List Char) : Cut :=
  ⟨[.text (String.ofList (first :: (textRun opened (some written) cs).1))],
    (textRun opened (some written) cs).2.1, (textRun opened (some written) cs).2.2⟩

/-- **One step.**  A comparison is looked for first, then a reserved character, a keyword and a
number; what is left is a text run, which takes at least its first character. -/
def cut (prev : Option Char) (opened : Bool) (c : Char) (cs : List Char) : Cut :=
  match comparison? (c :: cs) with
  | some (t, rest) => cutWithBlank t (some '=') rest
  | none =>
    if isReserved c then
      ⟨[.op c], some c, cs⟩
    else
      match keyword? prev opened (c :: cs) with
      | some k =>
        cutWithBlank (.keyword k) k.spelling.toList.getLast?
          ((c :: cs).drop k.spelling.toList.length)
      | none =>
        if isNumber ((c :: cs).takeWhile Char.isDigit) then
          ⟨[.number (digitsValue ((c :: cs).takeWhile Char.isDigit))], some c,
            (c :: cs).dropWhile Char.isDigit⟩
        else if c = '\\' then
          match cs with
          | [] => ⟨[], some c, []⟩
          | d :: ds => cutText opened d d ds
        else
          cutText opened c c cs

/-! ### A step shortens the input -/

theorem length_textRun_le (opened : Bool) (prev : Option Char) (cs : List Char) :
    (textRun opened prev cs).2.2.length ≤ cs.length := by
  fun_induction textRun opened prev cs <;> simp_all <;> omega

theorem length_comparison?_lt {cs rest : List Char} {t : Token}
    (h : comparison? cs = some (t, rest)) :
    rest.length < cs.length := by
  unfold comparison? at h
  split at h
  · obtain ⟨-, rfl⟩ := Prod.mk.inj (Option.some.inj h)
    exact Nat.lt_add_of_pos_right (by decide : 0 < 2)
  · obtain ⟨-, rfl⟩ := Prod.mk.inj (Option.some.inj h)
    exact Nat.lt_add_of_pos_right (by decide : 0 < 2)
  · nomatch h

theorem length_cutWithBlank_le (t : Token) (last : Option Char) (cs : List Char) :
    (cutWithBlank t last cs).rest.length ≤ cs.length := by
  unfold cutWithBlank
  split
  · simp
  · split <;> simp

theorem length_dropWhile_lt {p : Char → Bool} {c : Char} {cs : List Char}
    (h : ((c :: cs).takeWhile p).isEmpty = false) :
    ((c :: cs).dropWhile p).length < (c :: cs).length := by
  have hc : p c = true := by
    cases hp : p c
    · simp [hp] at h
    · rfl
  rw [List.dropWhile_cons, if_pos hc, List.length_cons]
  exact Nat.lt_succ_of_le (List.dropWhile_sublist p).length_le

theorem length_cut_le (prev : Option Char) (opened : Bool) (c : Char) (cs : List Char) :
    (cut prev opened c cs).rest.length ≤ cs.length := by
  unfold cut
  split
  · rename_i t rest h
    have := length_comparison?_lt h
    have := length_cutWithBlank_le t (some '=') rest
    simp only [List.length_cons] at *
    omega
  · split
    · exact Nat.le_refl _
    · split
      · rename_i k _
        refine Nat.le_trans (length_cutWithBlank_le _ _ _) ?_
        have hpos : 0 < k.spelling.toList.length := by cases k <;> decide
        rw [List.length_drop, List.length_cons]
        omega
      · split
        · rename_i h
          simp only [isNumber, Bool.and_eq_true, Bool.not_eq_true'] at h
          exact Nat.le_of_lt_succ (length_dropWhile_lt h.1.1)
        · split
          · split
            · simp
            · exact Nat.le_succ_of_le (length_textRun_le opened _ _)
          · exact length_textRun_le opened (some c) cs

/-- The last token made is an opening bracket. -/
def endsOpen (tokens : List Token) : Bool :=
  tokens.getLast? == some (.op '[')

/-- The token list from a place in the text on. -/
def lex (prev : Option Char) (opened : Bool) : List Char → List Token
  | [] => []
  | c :: cs =>
    (cut prev opened c cs).tokens ++
      lex (cut prev opened c cs).last (endsOpen (cut prev opened c cs).tokens)
        (cut prev opened c cs).rest
termination_by cs => cs.length
decreasing_by exact Nat.lt_succ_of_le (length_cut_le prev opened c cs)

end Lexer

/-- The tokens of a template text. -/
def tokenize (s : String) : List Token :=
  Lexer.lex none false s.toList

end TemplateGrammar
