import TemplateGrammar.Proofs.Token.Pieces

/-!
# What stands behind a token

A step of the lexer makes one token, or a keyword or comparison with the blank behind it as a text
of its own, and what it leaves is an end of what it was given (`Step`).  So a keyword always has its
blank behind it (`blanked_tokenize`).

A text run goes on until a mark, a comparison or a keyword comes, and those are no texts.  The run
and the step after it have to agree on the keyword, though, and they do not always: the run asks
while the last token is still what stood in front of it, and by the next step the run is a token
itself.  So behind a bracket that is a token an escaped bracket counts as one while the run is read,
and no more afterwards: the run stops in front of a word that opens a block, and the word begins the
next text.  Apart from this, a text stands in front of another one only if it is the blank that is
split off (`tokenize_neighbours`).
-/

namespace TemplateGrammar

namespace Lexer

/-! ### What is left -/

theorem suffix_textRun (opened : Bool) (prev : Option Char) (cs : List Char) :
    (textRun opened prev cs).2.2 <:+ cs := by
  fun_induction textRun opened prev cs with
  | case1 prev => exact List.suffix_rfl
  | case2 prev c cs hstop => exact List.suffix_rfl
  | case3 prev hstop => exact List.nil_suffix
  | case4 prev d ds text last rest hrun hstop ih =>
    rw [hrun] at ih
    exact ih.trans ((List.suffix_cons d ds).trans (List.suffix_cons '\\' (d :: ds)))
  | case5 prev c cs hstop hc text last rest hrun ih =>
    rw [hrun] at ih
    exact ih.trans (List.suffix_cons c cs)

theorem Step.suffix {opened : Bool} {cs : List Char} {taken : Cut} (h : Step opened cs taken) :
    taken.rest <:+ cs := by
  cases h with
  | backslash => exact List.nil_suffix
  | single _ _ _ => exact List.suffix_append _ _
  | split _ _ _ => exact (List.suffix_cons _ _).trans (List.suffix_append _ _)
  | plain _ _ => exact (suffix_textRun _ _ _).trans (List.suffix_cons _ _)
  | escaped =>
    exact (suffix_textRun _ _ _).trans ((List.suffix_cons _ _).trans (List.suffix_cons _ _))

/-! ### The blank behind a keyword -/

/-- **Behind every keyword among the tokens there is a blank** as a text of its own. -/
def Blanked (ts : List Token) : Prop :=
  ∀ before k after, ts = before ++ .keyword k :: after →
    ∃ v rest, isBlank v = true ∧ after = .text (String.singleton v) :: rest

theorem blanked_nil : Blanked [] := by
  intro before k after h
  simp at h

theorem Blanked.cons {t : Token} {ts : List Token} (h : Blanked ts)
    (ht : ∀ k, t = .keyword k → ∃ v rest, isBlank v = true ∧
      ts = .text (String.singleton v) :: rest) :
    Blanked (t :: ts) := by
  intro before k after hsplit
  cases before with
  | nil =>
    obtain ⟨rfl, rfl⟩ := List.cons.inj hsplit
    exact ht k rfl
  | cons first before => exact h before k after (List.cons.inj hsplit).2

theorem Step.blanked {opened : Bool} {cs : List Char} {taken : Cut} (h : Step opened cs taken)
    {ts : List Token} (hts : Blanked ts) : Blanked (taken.tokens ++ ts) := by
  have htext : ∀ s, Blanked (.text s :: ts) := fun s => hts.cons fun k hk => by cases hk
  cases h with
  | backslash => exact hts
  | single _ _ hword => exact hts.cons fun k hk => absurd hk (hword k)
  | @split t v _ _ _ _ hv => exact (htext _).cons fun k _ => ⟨v, ts, hv, rfl⟩
  | plain _ _ => exact htext _
  | escaped => exact htext _

theorem blanked_lex (prev : Option Char) (opened : Bool) (cs : List Char) :
    Blanked (lex prev opened cs) := by
  fun_induction lex prev opened cs with
  | case1 prev opened => exact blanked_nil
  | case2 prev opened c cs ih => exact (step_cut prev opened c cs).blanked ih

/-! ### Where a text run ends -/

/-- A text run goes on to the end, or to where something else begins. -/
theorem textRun_ends (opened : Bool) (prev : Option Char) (cs : List Char) :
    (textRun opened prev cs).2.2 = [] ∨
    ∃ c rest, (textRun opened prev cs).2.2 = c :: rest ∧
    (isReserved c || (comparison? (c :: rest)).isSome ||
      (keyword? (textRun opened prev cs).2.1 opened (c :: rest)).isSome) = true := by
  fun_induction textRun opened prev cs with
  | case1 prev => exact .inl rfl
  | case2 prev c cs hstop => exact .inr ⟨c, cs, rfl, hstop⟩
  | case3 prev hstop => exact .inl rfl
  | case4 prev d ds text last rest hrun hstop ih =>
    rw [hrun] at ih
    exact ih
  | case5 prev c cs hstop hc text last rest hrun ih =>
    rw [hrun] at ih
    exact ih

/-- **A run that has read a bracket last** has taken none, or an escaped one as its last
character. -/
theorem textRun_bracket {opened : Bool} {prev : Option Char} {cs : List Char}
    (h : (textRun opened prev cs).2.1 = some '[') :
    (prev = some '[' ∧ (textRun opened prev cs).1 = [] ∧ (textRun opened prev cs).2.2 = cs) ∨
      ((textRun opened prev cs).1.getLast? = some '[' ∧
        '\\' :: '[' :: (textRun opened prev cs).2.2 <:+ cs) := by
  fun_induction textRun opened prev cs with
  | case1 prev => exact .inl ⟨h, rfl, rfl⟩
  | case2 prev c cs hstop => exact .inl ⟨h, rfl, rfl⟩
  | case3 prev hstop => exact absurd h (by simp)
  | case4 prev d ds text last rest hrun hstop ih =>
    rw [hrun] at ih
    right
    rcases ih h with ⟨hd, htext, hrest⟩ | ⟨hlast, hsuffix⟩
    · obtain rfl := Option.some.inj hd
      dsimp only at htext hrest
      rw [htext, hrest]
      exact ⟨rfl, List.suffix_rfl⟩
    · refine ⟨?_, hsuffix.trans ((List.suffix_cons d ds).trans (List.suffix_cons '\\' (d :: ds)))⟩
      rw [List.getLast?_cons, hlast]
      rfl
  | case5 prev c cs hstop hc text last rest hrun ih =>
    rw [hrun] at ih
    right
    rcases ih h with ⟨hc', -, -⟩ | ⟨hlast, hsuffix⟩
    · -- a bracket that is not escaped stops the run
      obtain rfl := Option.some.inj hc'
      exact absurd rfl hstop
    · refine ⟨?_, hsuffix.trans (List.suffix_cons c cs)⟩
      rw [List.getLast?_cons, hlast]
      rfl

/-! ### The word behind an escaped bracket -/

/-- No mark, no blank, and nothing that begins an escape or a comparison. -/
def isLetter (c : Char) : Bool :=
  !isReserved c && !isBlank c && c ∉ ['\\', '=', '!']

theorem isLetter_iff {c : Char} : isLetter c = true ↔
    isReserved c = false ∧ isBlank c = false ∧ c ≠ '\\' ∧ c ≠ '=' ∧ c ≠ '!' := by
  simp [isLetter, and_assoc]

/-- Behind what is no blank no keyword begins, unless it is a bracket that is a token. -/
theorem keyword?_behind {u : Char} (hu : isBlank u = false) (cs : List Char) :
    keyword? (some u) false cs = none :=
  keyword?_of_not_mayPrecede (fun k => by simp [mayPrecede, hu]) cs

theorem textRun_letters {word : List Char} (hw : word.all isLetter = true) {u : Char}
    (hu : isLetter u = true) (cs : List Char) :
    ∃ last, (textRun false (some u) (word ++ cs)).1 = word ++ (textRun false last cs).1 := by
  induction word generalizing u with
  | nil => exact ⟨some u, rfl⟩
  | cons c word ih =>
    rw [List.all_cons, Bool.and_eq_true] at hw
    obtain ⟨last, hlast⟩ := ih hw.2 hw.1
    obtain ⟨hreserved, -, hback, hequal, hbang⟩ := isLetter_iff.mp hw.1
    refine ⟨last, ?_⟩
    have hgo : (isReserved c || (comparison? (c :: (word ++ cs))).isSome ||
        (keyword? (some u) false (c :: (word ++ cs))).isSome) = false := by
      rw [hreserved, comparison?_cons hequal hbang, keyword?_behind (isLetter_iff.mp hu).2.1]
      rfl
    rw [List.cons_append, textRun_go hgo hback, hlast]
    rfl

/-- **The word behind a bracket that is no token** begins a text. -/
theorem lex_opening {k : Keyword} (hk : k.opensBlock = true) {v : Char} (hv : isBlank v = true)
    (cs : List Char) : ∃ rest after, lex (some '[') false (k.spelling.toList ++ v :: cs) =
      .text (String.ofList (k.spelling.toList ++ v :: rest)) :: after := by
  obtain ⟨c, word, hspelling, hc, hdigit, hword⟩ : ∃ c word, k.spelling.toList = c :: word ∧
    isLetter c = true ∧ c.isDigit = false ∧ word.all isLetter = true := by
    cases k <;> first | exact ⟨_, _, rfl, by decide, by decide, by decide⟩ | cases hk
  obtain ⟨last, hrun⟩ := textRun_letters hword hc (v :: cs)
  rw [textRun_blank hv] at hrun
  obtain ⟨hreserved, -, hback, hequal, hbang⟩ := isLetter_iff.mp hc
  have hkeyword := keyword?_behind (isBlank_of_isReserved (c := '[') rfl) (c :: (word ++ v :: cs))
  have hnumber : isNumber ((c :: (word ++ v :: cs)).takeWhile Char.isDigit) = false := by
    rw [List.takeWhile_cons, hdigit]
    rfl
  have hcut : cut (some '[') false c (word ++ v :: cs) = cutText false c c (word ++ v :: cs) := by
    simp only [cut, comparison?_cons hequal hbang, hreserved, hkeyword, hnumber, hback,
      Bool.false_eq_true, if_false]
  rw [hspelling, List.cons_append, lex, hcut]
  simp only [cutText]
  rw [hrun]
  exact ⟨_, _, rfl⟩

/-- What the run takes for a keyword, and the step after it does not, is a word that opens a
block. -/
theorem opens_of_keyword? {prev : Option Char} {opened : Bool} {cs : List Char} {k : Keyword}
    (h : keyword? prev opened cs = some k) (hnone : keyword? prev false cs = none) :
    opened = true ∧ prev = some '[' ∧ k.opensBlock = true ∧
      ∃ v rest, isBlank v = true ∧ cs = k.spelling.toList ++ v :: rest := by
  have hhere : keywordHere prev opened cs k = true := List.find?_some h
  have hnot := List.find?_eq_none.mp hnone k k.mem_all
  obtain ⟨v, rest, hdrop, hv⟩ : ∃ v rest, cs.drop k.spelling.toList.length = v :: rest ∧
      isBlank v = true := by
    have hblank := startsBlank_drop h
    cases hd : cs.drop k.spelling.toList.length with
    | nil => rw [hd] at hblank; cases hblank
    | cons v rest =>
      rw [hd] at hblank
      exact ⟨v, rest, rfl, hblank⟩
  have hcs := spelling_append_drop h
  rw [hdrop] at hcs
  simp only [keywordHere, Bool.and_eq_true] at hhere hnot
  obtain ⟨hword, hbefore⟩ := hhere
  have hnone : mayPrecede prev false k = false := Bool.eq_false_iff.mpr fun hmay =>
    hnot ⟨hword, hmay⟩
  cases prev with
  | none => cases hbefore
  | some c =>
    simp only [mayPrecede, Bool.or_eq_true, Bool.and_eq_true, Bool.or_eq_false_iff,
      beq_iff_eq] at hbefore hnone
    rcases hbefore with hblank | ⟨⟨rfl, hopens⟩, hopened⟩
    · rw [hnone.1] at hblank
      cases hblank
    · exact ⟨hopened, rfl, hopens, v, rest, hv, hcs.symm⟩

/-! ### Texts next to each other -/

/-- The text is the blank that is split off behind the last of these tokens. -/
def SplitOff (before : List Token) (s : String) : Prop :=
  (∃ v, isBlank v = true ∧ s = String.singleton v) ∧ ∃ t ∈ before.getLast?, t.splitsBlank = true

/-- **A run cut in two:** the one text ends in a bracket and the other begins with a word that opens
a block and a blank, and so they are written, with the bracket escaped. -/
def CutAtBracket (cs : List Char) (s t : String) : Prop :=
  ∃ k v rest, Keyword.opensBlock k = true ∧ isBlank v = true ∧ s.toList.getLast? = some '[' ∧
    t.toList = k.spelling.toList ++ v :: rest ∧ '\\' :: '[' :: (k.spelling.toList ++ [v]) <:+: cs

theorem CutAtBracket.of_suffix {cs ds : List Char} {s t : String} (h : CutAtBracket ds s t)
    (hds : ds <:+ cs) : CutAtBracket cs s t := by
  obtain ⟨k, v, rest, hk, hv, hs, ht, hin⟩ := h
  exact ⟨k, v, rest, hk, hv, hs, ht, hin.trans hds.isInfix⟩

theorem SplitOff.append_left {before : List Token} {s : String} (h : SplitOff before s)
    (front : List Token) : SplitOff (front ++ before) s := by
  obtain ⟨hs, t, ht, hsplits⟩ := h
  refine ⟨hs, t, ?_, hsplits⟩
  rw [Option.mem_def] at ht ⊢
  rw [List.getLast?_append, ht]
  rfl

/-- The last token is an opening bracket, where `opened` says so of what stands in front of all of
them. -/
def opensBehind (opened : Bool) (before : List Token) : Bool :=
  if before.isEmpty then opened else endsOpen before

theorem opensBehind_append {front : List Token} (hne : front ≠ []) (opened : Bool)
    (before : List Token) :
    opensBehind opened (front ++ before) = opensBehind (endsOpen front) before := by
  cases before with
  | nil => simp [opensBehind, hne]
  | cons t before => simp [opensBehind, endsOpen, List.getLast?_append]

/-- **Where a text stands in front of another one,** it is a blank split off or a run was cut in
two. -/
def Parted (opened : Bool) (cs : List Char) (ts : List Token) : Prop :=
  ∀ before s t after, ts = before ++ .text s :: .text t :: after →
    SplitOff before s ∨ (opensBehind opened before = true ∧ CutAtBracket cs s t)

variable {opened : Bool} {cs ds : List Char} {t : Token} {ts : List Token} {taken : Cut}

theorem parted_nil : Parted opened cs [] := by
  intro before s t after h
  simp at h

/-- A token in front that is no text, or has none behind it but where a run was cut in two. -/
theorem Parted.cons (h : Parted (endsOpen [t]) ds ts) (hds : ds <:+ cs)
    (ht : ∀ s u after, t = .text s → ts = .text u :: after → opened = true ∧ CutAtBracket cs s u) :
    Parted opened cs (t :: ts) := by
  intro before s u after hsplit
  cases before with
  | nil =>
    obtain ⟨rfl, hrest⟩ := List.cons.inj hsplit
    exact .inr (ht s u after rfl hrest)
  | cons first before =>
    obtain ⟨rfl, hrest⟩ := List.cons.inj hsplit
    rcases h before s u after hrest with hblank | ⟨hopens, hcut⟩
    · exact .inl (hblank.append_left [t])
    · refine .inr ⟨?_, hcut.of_suffix hds⟩
      rwa [← List.singleton_append, opensBehind_append (List.cons_ne_nil t [])]

/-- A token with its blank in front. -/
theorem Parted.split (h : Parted false ds ts) (hds : ds <:+ cs)
    (ht : t.splitsBlank = true) {v : Char} (hv : isBlank v = true) :
    Parted opened cs (t :: .text (String.singleton v) :: ts) := by
  intro before s u after hsplit
  rcases before with _ | ⟨first, _ | ⟨second, before⟩⟩
  · obtain ⟨rfl, -⟩ := List.cons.inj hsplit
    cases ht
  · simp only [List.cons_append, List.nil_append, List.cons.injEq, Token.text.injEq] at hsplit
    obtain ⟨rfl, rfl, -⟩ := hsplit
    exact .inl ⟨⟨v, hv, rfl⟩, t, rfl, ht⟩
  · simp only [List.cons_append, List.cons.injEq] at hsplit
    obtain ⟨rfl, rfl, hrest⟩ := hsplit
    rcases h before s u after hrest with hblank | ⟨hopens, hcut⟩
    · exact .inl (hblank.append_left [t, .text (String.singleton v)])
    · refine .inr ⟨?_, hcut.of_suffix hds⟩
      exact (opensBehind_append (List.cons_ne_nil t [.text (String.singleton v)]) opened
        before).trans hopens

theorem not_found_of_lex {prev : Option Char} {c : Char} {s : String} {after : List Token}
    (h : lex prev opened (c :: cs) = .text s :: after) :
    isReserved c = false ∧ comparison? (c :: cs) = none ∧
    keyword? prev opened (c :: cs) = none := by
  rw [lex] at h
  have hhead : ∀ t more, (cut prev opened c cs).tokens = t :: more → t = .text s := by
    intro t more ht
    rw [ht] at h
    exact (List.cons.inj h).1
  have hsplit : ∀ t last rest, cut prev opened c cs = cutWithBlank t last rest → t = .text s := by
    intro t last rest hcut
    cases rest with
    | nil => exact hhead t [] (by rw [hcut]; rfl)
    | cons v rest =>
      rw [cutWithBlank] at hcut
      split at hcut
      · exact hhead t _ (by rw [hcut])
      · exact hhead t _ (by rw [hcut])
  have hreserved : isReserved c = false := Bool.eq_false_iff.mpr fun hr => by
    cases hhead (.op c) [] (by rw [cut_reserved hr])
  have hcomparison : comparison? (c :: cs) = none := by
    cases hfound : comparison? (c :: cs) with
    | none => rfl
    | some found =>
      have htext := hsplit found.1 (some '=') found.2 (by simp only [cut, hfound])
      rcases (cutFrom_comparison hfound).1 with hsymbol | hsymbol <;> cases hsymbol.symm.trans htext
  refine ⟨hreserved, hcomparison, ?_⟩
  cases hfound : keyword? prev opened (c :: cs) with
  | none => rfl
  | some k =>
    cases hsplit (.keyword k) k.spelling.toList.getLast? ((c :: cs).drop k.spelling.toList.length)
      (by simp only [cut, hcomparison, hreserved, hfound, Bool.false_eq_true, if_false])

/-- **A text behind a text run** is there only if the run was cut in two. -/
theorem cutAtBracket_of_run {first : Char} {s : String} {after : List Token}
    (h : lex (textRun opened (some first) ds).2.1 false (textRun opened (some first) ds).2.2 =
      .text s :: after)
    (hds : ds <:+ cs) (hfirst : first = '[' → '\\' :: '[' :: ds <:+ cs) :
    opened = true ∧ CutAtBracket cs (String.ofList (first :: (textRun opened (some first) ds).1))
      s := by
  rcases textRun_ends opened (some first) ds with hend | ⟨c, rest, hrest, hstop⟩
  · rw [hend, lex] at h
    cases h
  rw [hrest] at h
  obtain ⟨hreserved, hcomparison, hnone⟩ := not_found_of_lex h
  rw [hreserved, hcomparison] at hstop
  obtain ⟨k, hk⟩ := Option.isSome_iff_exists.mp hstop
  obtain ⟨hopened, hlast, hopens, v, left, hv, hword⟩ := opens_of_keyword? hk hnone
  rw [hlast, hword] at h
  obtain ⟨more, others, hlex⟩ := lex_opening hopens hv left
  have hs : String.ofList (k.spelling.toList ++ v :: more) = s :=
    Token.text.inj (List.cons.inj (hlex.symm.trans h)).1
  -- the bracket that the run has read last is escaped, be it the first of its characters or a later
  -- one
  have hbracket : (String.ofList (first :: (textRun opened (some first) ds).1)).toList.getLast? =
      some '[' ∧ '\\' :: '[' :: (k.spelling.toList ++ v :: left) <:+ cs := by
    rw [String.toList_ofList, List.getLast?_cons, ← hword, ← hrest]
    rcases textRun_bracket hlast with ⟨hprev, htext, hleft⟩ | ⟨htext, hsuffix⟩
    · obtain rfl := Option.some.inj hprev
      rw [htext, hleft]
      exact ⟨rfl, hfirst rfl⟩
    · rw [htext]
      exact ⟨rfl, hsuffix.trans hds⟩
  refine ⟨hopened, k, v, more, hopens, hv, hbracket.1, by rw [← hs, String.toList_ofList], ?_⟩
  refine List.IsInfix.trans ⟨[], left, ?_⟩ hbracket.2.isInfix
  simp

theorem Step.parted (h : Step opened cs taken) (hts : Parted (endsOpen taken.tokens) taken.rest ts)
    (hnext : ts = lex taken.last (endsOpen taken.tokens) taken.rest) :
    Parted opened cs (taken.tokens ++ ts) := by
  have hsuffix := h.suffix
  cases h with
  | backslash =>
    rw [hnext, lex]
    exact parted_nil
  | single _ htext _ => exact hts.cons hsuffix fun s u after hs _ => by cases hs; cases htext
  | split _ hsplits hv => exact Parted.split hts hsuffix hsplits hv
  | plain hc _ =>
    refine hts.cons hsuffix fun s u after hs hu => ?_
    obtain rfl := Token.text.inj hs
    refine cutAtBracket_of_run (hnext.symm.trans hu) (List.suffix_cons _ _) fun hbracket => ?_
    rw [hbracket] at hc
    cases hc
  | escaped =>
    refine hts.cons hsuffix fun s u after hs hu => ?_
    obtain rfl := Token.text.inj hs
    refine cutAtBracket_of_run (hnext.symm.trans hu)
      ((List.suffix_cons _ _).trans (List.suffix_cons _ _)) ?_
    rintro rfl
    exact List.suffix_rfl

theorem parted_lex (prev : Option Char) (opened : Bool) (cs : List Char) :
    Parted opened cs (lex prev opened cs) := by
  fun_induction lex prev opened cs with
  | case1 prev opened => exact parted_nil
  | case2 prev opened c cs ih => exact (step_cut prev opened c cs).parted ih rfl

end Lexer

theorem blanked_tokenize (s : String) : Lexer.Blanked (tokenize s) :=
  Lexer.blanked_lex none false s.toList

/-- **Texts next to each other.**  Among the tokens of a text, a text stands in front of another one
only if it is the blank that is split off behind a keyword or a comparison, or if a run was cut in
two behind an opening bracket: with an escaped bracket, a word that opens a block and a blank in a
row.  So where nothing but texts is read, it is one text. -/
theorem tokenize_neighbours (s : String) :
    (∀ before a b after, tokenize s = before ++ .text a :: .text b :: after →
      Lexer.SplitOff before a ∨ (Lexer.endsOpen before = true ∧ Lexer.CutAtBracket s.toList a b)) ∧
    ((∀ t ∈ tokenize s, t.isText = true) → (tokenize s).length ≤ 1) := by
  have hapart : ∀ before a b after, tokenize s = before ++ .text a :: .text b :: after →
      Lexer.SplitOff before a ∨ (Lexer.endsOpen before = true ∧
        Lexer.CutAtBracket s.toList a b) := by
    intro before a b after h
    rcases Lexer.parted_lex none false s.toList before a b after h with hblank | ⟨hopens, hcut⟩
    · exact .inl hblank
    · cases before with
      | nil => cases hopens
      | cons first before => exact .inr ⟨hopens, hcut⟩
  refine ⟨hapart, fun htexts => ?_⟩
  rcases htokens : tokenize s with _ | ⟨t, _ | ⟨u, after⟩⟩
  · exact Nat.zero_le 1
  · exact Nat.le_refl 1
  · -- in front of the second text there is nothing that its first could be split off from
    rw [htokens] at htexts hapart
    obtain ⟨a, rfl⟩ : ∃ a, t = .text a := by
      have ht := htexts t List.mem_cons_self
      cases t <;> first | exact ⟨_, rfl⟩ | cases ht
    obtain ⟨b, rfl⟩ : ∃ b, u = .text b := by
      have hu := htexts u (by simp)
      cases u <;> first | exact ⟨_, rfl⟩ | cases hu
    rcases hapart [] a b after rfl with ⟨-, _, hlast, -⟩ | ⟨hopens, -⟩
    · cases hlast
    · cases hopens

/-- A blank behind a keyword, one behind a comparison, and a text in which a bracket, a word and
blanks are escaped. -/
theorem tokenize_neighbours_blanks :
    tokenize "[if \\ \\then == b" = [.op '[', .keyword .ifWord, .text " ", .text " then ", .equal,
      .text " ", .text "b"] ∧ Lexer.SplitOff [.op '[', .keyword .ifWord] " " ∧
      Lexer.SplitOff [.op '[', .keyword .ifWord, .text " ", .text " then ", .equal] " " ∧
      tokenize "\\[if a \\then \\#b" = [.text "[if a then #b"] ∧
      (tokenize "\\[if a \\then \\#b").length ≤ 1 := by
  have hblanks : tokenize "[if \\ \\then == b" =
      [.op '[', .keyword .ifWord, .text " ", .text " then ", .equal, .text " ", .text "b"] := by
    decide +kernel
  have hsingle : tokenize "\\[if a \\then \\#b" = [.text "[if a then #b"] := by decide +kernel
  have happart := (tokenize_neighbours "[if \\ \\then == b").1
  refine ⟨hblanks, ?_, ?_, hsingle, (tokenize_neighbours "\\[if a \\then \\#b").2 ?_⟩
  · rcases happart [.op '[', .keyword .ifWord] " " " then " _ hblanks with h | ⟨hopens, -⟩
    · exact h
    · cases hopens
  · rcases happart [.op '[', .keyword .ifWord, .text " ", .text " then ", .equal] " " "b" _ hblanks
      with h | ⟨hopens, -⟩
    · exact h
    · cases hopens
  · rw [hsingle]
    simp [Token.isText]

/-- Behind a bracket an escaped one and a word are read as two texts, neither of them a blank. -/
theorem tokenize_escapedBracket : ¬ ∀ before a b after,
    tokenize "[\\[if x" = before ++ .text a :: .text b :: after → Lexer.SplitOff before a := by
  intro h
  have htokens : tokenize "[\\[if x" = [.op '[', .text "[", .text "if x"] := by decide +kernel
  obtain ⟨-, t, ht, hsplits⟩ := h [.op '['] "[" "if x" [] htokens
  obtain rfl := Option.some.inj ht
  cases hsplits

end TemplateGrammar
