import Mathlib.Data.List.DropRight
import Mathlib.Data.List.Induction
import Mathlib.Data.List.Nodup
import TemplateGrammar.Log.Notice
import TemplateGrammar.RuleFile.Block

/-!
# The blocks of a rule file

What a rule file in blocks stands for is said here of its lines.  The lines of a text stand between
its line feeds, and carriage returns at the end of a line are no part of it (`lines`).  `Cuts` says
which blocks lie in some lines: a header opens a block where none is open, the lines behind it are
its own whatever they look like, and an empty line or the end closes it.  There is one way to cut
lines into blocks (`Cuts.unique`), and it is the reader's (`exists_cuts`).

Of the blocks with one name the last counts, and stands where the first one stood; each but the
first is complained of.  This is put together in `read_blocks`.
-/

namespace TemplateGrammar.Block

/-- A line as it is looked at: without the carriage returns at its end. -/
def trimmed (line : List Char) : String :=
  String.ofList (line.rdropWhile (· == '\r'))

/-- **The lines of a text:** what stands between its line feeds, without the carriage returns at the
end.  The line behind a line feed at the very end is empty. -/
def lines (text : String) : List String :=
  (text.toList.splitOn '\n').map trimmed

/-- The line is the header of a block with this name. -/
def Heads (name line : String) : Prop :=
  name ≠ "" ∧ line = "[" ++ name ++ "]"

/-- **The blocks in some lines,** each with its name and its own lines. -/
inductive Cuts : List String → List RuleEntry → Prop
  | done : Cuts [] []
  /-- outside of blocks, what is no header says nothing -/
  | outside {line : String} {rest : List String} {blocks : List RuleEntry}
    (h : ∀ name, ¬ Heads name line) (more : Cuts rest blocks) : Cuts (line :: rest) blocks
  /-- an empty line closes a block -/
  | closed {name line : String} {body rest : List String} {blocks : List RuleEntry}
    (h : Heads name line) (full : ∀ l ∈ body, l ≠ "") (more : Cuts rest blocks) :
      Cuts (line :: (body ++ "" :: rest)) ((name, body) :: blocks)
  /-- and so does the end -/
  | ended {name line : String} {body : List String} (h : Heads name line)
    (full : ∀ l ∈ body, l ≠ "") : Cuts (line :: body) [(name, body)]

/-- A block as an entry: without lines it stands for one empty text. -/
def entryOf (block : RuleEntry) : RuleEntry :=
  (block.1, if block.2 = [] then [""] else block.2)

/-- The names in a list that have come before in it, each as often as it comes again. -/
def repeated (names : List String) : List String :=
  (names.zipIdx.filter fun n => (names.take n.2).contains n.1).map Prod.fst

/-! ### Headers -/

variable {name name' line : String}

theorem Heads.unique (h : Heads name line) (h' : Heads name' line) : name' = name := by
  have hlists := congrArg String.toList (h'.2.symm.trans h.2)
  simp only [String.toList_append, List.append_cancel_right_eq,
    List.append_cancel_left_eq] at hlists
  exact String.toList_inj.mp hlists

theorem header?_eq_some_iff {cs : List Char} : header? cs = some name ↔
    Heads name (String.ofList cs) := by
  have hlist : String.ofList cs = "[" ++ name ++ "]" ↔ cs = '[' :: (name.toList ++ [']']) := by
    rw [← String.toList_inj]
    simp
  rw [Heads, hlist]
  constructor
  · intro h
    unfold header? at h
    split at h
    · rename_i rest
      split at h
      · rename_i hrest
        obtain rfl := Option.some.inj h
        simp only [Bool.and_eq_true, decide_eq_true_eq, beq_iff_eq] at hrest
        obtain ⟨front, rfl⟩ := List.getLast?_eq_some_iff.mp hrest.2
        rw [List.dropLast_concat, String.toList_ofList]
        refine ⟨?_, rfl⟩
        rintro hempty
        obtain rfl := String.ofList_eq_empty_iff.mp hempty
        exact absurd hrest.1 (by decide)
      · cases h
    · cases h
  · rintro ⟨hname, rfl⟩
    simpa [header?] using hname

theorem header?_eq_none_iff {cs : List Char} : header? cs = none ↔
    ∀ name, ¬ Heads name (String.ofList cs) := by
  simp only [← header?_eq_some_iff]
  exact Option.eq_none_iff_forall_not_mem

/-! ### One way to cut -/

section Cuts

variable {rest : List String} {blocks blocks' : List RuleEntry}

theorem takeWhile_ne_append {body : List String} (full : ∀ l ∈ body, l ≠ "") (rest : List String) :
    (body ++ "" :: rest).takeWhile (· != "") = body ∧
    (body ++ "" :: rest).dropWhile (· != "") = "" :: rest := by
  have hbody : ∀ l ∈ body, (l != "") = true := fun l hl => bne_iff_ne.mpr (full l hl)
  rw [List.takeWhile_append_of_pos hbody, List.dropWhile_append_of_pos hbody]
  simp

/-- **Outside of blocks, what is no header says nothing.** -/
theorem Cuts.of_outside (h : Cuts (line :: rest) blocks) (hline : ∀ name, ¬ Heads name line) :
    Cuts rest blocks := by
  cases h with
  | outside _ more => exact more
  | closed hheads => exact absurd hheads (hline _)
  | ended hheads => exact absurd hheads (hline _)

/-- **A header opens a block,** which goes on to the next empty line, or to the end. -/
theorem Cuts.of_header (h : Cuts (line :: rest) blocks) (hline : Heads name line) :
    ∃ more, blocks = (name, rest.takeWhile (· != "")) :: more ∧
    Cuts ((rest.dropWhile (· != "")).drop 1) more := by
  cases h with
  | outside hno => exact absurd hline (hno name)
  | @closed name' _ body rest' blocks' hheads full more =>
    obtain ⟨htake, hdrop⟩ := takeWhile_ne_append full rest'
    obtain rfl := hline.unique hheads
    rw [htake, hdrop]
    exact ⟨blocks', rfl, more⟩
  | @ended name' _ _ hheads full =>
    have hall : ∀ l ∈ rest, (l != "") = true := fun l hl => bne_iff_ne.mpr (full l hl)
    obtain rfl := hline.unique hheads
    rw [List.takeWhile_eq_self_iff.mpr hall, List.dropWhile_eq_nil_iff.mpr hall]
    exact ⟨[], rfl, .done⟩

theorem Cuts.header (hline : Heads name line)
    (h : Cuts ((rest.dropWhile (· != "")).drop 1) blocks) :
    Cuts (line :: rest) ((name, rest.takeWhile (· != "")) :: blocks) := by
  have hfull : ∀ l ∈ rest.takeWhile (· != ""), l ≠ "" := fun l hl => by
    have himp := List.mem_takeWhile_imp hl
    simpa using himp
  have hsplit := List.takeWhile_append_dropWhile (p := (· != "")) (l := rest)
  cases hbehind : rest.dropWhile (· != "") with
  | nil =>
    rw [hbehind] at h hsplit
    cases h
    rw [List.append_nil] at hsplit
    rw [hsplit] at hfull ⊢
    exact .ended hline hfull
  | cons l more =>
    have hhead := List.head_dropWhile_not (· != "") (l := rest)
      (by rw [hbehind]; exact List.cons_ne_nil _ _)
    obtain rfl : l = "" := by simpa [hbehind] using hhead
    rw [hbehind] at h hsplit
    have hclosed := Cuts.closed hline hfull h
    rwa [List.drop_one, List.tail_cons, hsplit] at hclosed

theorem Cuts.unique {ls : List String} (h : Cuts ls blocks) (h' : Cuts ls blocks') :
    blocks' = blocks := by
  induction h generalizing blocks' with
  | done =>
    cases h'
    rfl
  | outside hno _ ih => exact ih (h'.of_outside hno)
  | @closed _ _ body rest _ hheads full _ ih =>
    obtain ⟨more, rfl, hmore⟩ := h'.of_header hheads
    obtain ⟨htake, hdrop⟩ := takeWhile_ne_append full rest
    rw [hdrop] at hmore
    rw [htake, ih hmore]
  | @ended _ _ body hheads full =>
    obtain ⟨more, rfl, hmore⟩ := h'.of_header hheads
    have hall : ∀ l ∈ body, (l != "") = true := fun l hl => bne_iff_ne.mpr (full l hl)
    rw [List.dropWhile_eq_nil_iff.mpr hall] at hmore
    cases hmore
    rw [List.takeWhile_eq_self_iff.mpr hall]

theorem Cuts.concat_empty {ls : List String} (h : Cuts ls blocks) : Cuts (ls ++ [""]) blocks := by
  induction h with
  | done =>
    refine .outside (fun name hheads => ?_) .done
    have hlist := congrArg String.toList hheads.2
    simp at hlist
  | outside hno _ ih => exact .outside hno ih
  | @closed _ _ body rest _ hheads full _ ih =>
    rw [List.cons_append, List.append_assoc, List.cons_append]
    exact .closed hheads full ih
  | ended hheads full => exact .closed hheads full .done

theorem Cuts.mem_lines {ls : List String} (h : Cuts ls blocks) :
    ∀ b ∈ blocks, ∀ l ∈ b.2, l ∈ ls := by
  induction h with
  | done => nofun
  | outside _ _ ih => exact fun b hb l hl => List.mem_cons_of_mem _ (ih b hb l hl)
  | closed _ _ _ ih =>
    intro b hb l hl
    refine List.mem_cons_of_mem _ (List.mem_append.mpr ?_)
    rcases List.mem_cons.mp hb with rfl | hb
    · exact .inl hl
    · exact .inr (List.mem_cons_of_mem _ (ih b hb l hl))
  | ended _ _ =>
    intro b hb l hl
    obtain rfl := List.mem_singleton.mp hb
    exact List.mem_cons_of_mem _ hl

end Cuts

/-! ### The reader's way -/

theorem map_ofList_takeWhile (ls : List (List Char)) :
    (ls.map String.ofList).takeWhile (· != "") =
      (ls.takeWhile fun l => !l.isEmpty).map String.ofList ∧
      (ls.map String.ofList).dropWhile (· != "") =
        (ls.dropWhile fun l => !l.isEmpty).map String.ofList := by
  have hsame : ((· != "") ∘ String.ofList) = fun l : List Char => !l.isEmpty := by
    funext l
    cases l with
    | nil => rfl
    | cons c l => simp [String.ofList_eq_empty_iff]
  rw [List.takeWhile_map, List.dropWhile_map, hsame]
  exact ⟨rfl, rfl⟩

theorem candidates_eq (body : List (List Char)) :
    candidates body = (if body.map String.ofList = [] then [""] else body.map String.ofList) := by
  cases body <;> rfl

/-- **The reader cuts lines into blocks,** by the lines that are left. -/
theorem exists_cuts_ofLines (ls : List (List Char)) :
    ∃ blocks, Cuts (ls.map String.ofList) blocks ∧ ofLines ls = blocks.map entryOf := by
  fun_induction ofLines ls with
  | case1 => exact ⟨[], .done, rfl⟩
  | case2 line rest hnone ih =>
    obtain ⟨blocks, hcuts, heq⟩ := ih
    exact ⟨blocks, .outside (header?_eq_none_iff.mp hnone) hcuts, heq⟩
  | case3 line rest name hname ih =>
    obtain ⟨blocks, hcuts, heq⟩ := ih
    obtain ⟨htake, hdrop⟩ := map_ofList_takeWhile rest
    have hheads := header?_eq_some_iff.mp hname
    rw [List.map_drop, ← hdrop] at hcuts
    refine ⟨_, .header hheads hcuts, ?_⟩
    rw [List.map_cons, heq, entryOf, htake, ← candidates_eq]

/-! ### The lines of a text -/

/-- The lines between line feeds are the reader's, and possibly an empty one behind the last line
feed. -/
theorem splitOn_eq (cs : List Char) : cs.splitOn '\n' = split cs ∨
    cs.splitOn '\n' = split cs ++ [[]] := by
  induction cs with
  | nil => exact .inr rfl
  | cons c rest ih =>
    rw [List.splitOn_cons_eq_if_modifyHead, split]
    by_cases hc : c = '\n'
    · rw [if_pos (beq_iff_eq.mpr hc), if_pos hc]
      exact ih.imp (congrArg _) (congrArg _)
    · rw [if_neg (by simpa using hc), if_neg hc]
      cases hsplit : split rest with
      | nil =>
        rw [hsplit] at ih
        rcases ih with hnone | hlast
        · exact absurd hnone (List.splitOn_ne_nil _ _)
        · rw [hlast]
          exact .inl rfl
      | cons line more =>
        rw [hsplit] at ih
        rcases ih with hnone | hlast
        · rw [hnone]
          exact .inl rfl
        · rw [hlast]
          exact .inr rfl

/-- **The reader cuts the lines of a text into blocks,** and makes an entry of each. -/
theorem exists_cuts (text : String) : ∃ blocks, Cuts (lines text) blocks ∧
    ofText text = blocks.map entryOf := by
  obtain ⟨blocks, hcuts, heq⟩ := exists_cuts_ofLines ((split text.toList).map trimReturns)
  refine ⟨blocks, ?_, heq⟩
  rw [List.map_map] at hcuts
  rcases splitOn_eq text.toList with hlines | hlines
  · rw [lines, hlines]
    exact hcuts
  · rw [lines, hlines, List.map_append]
    exact hcuts.concat_empty

theorem ofText_of_cuts {text : String} {blocks : List RuleEntry} (h : Cuts (lines text) blocks) :
    ofText text = blocks.map entryOf := by
  obtain ⟨blocks', hcuts, heq⟩ := exists_cuts text
  rw [heq, h.unique hcuts]

theorem not_mem_of_mem_splitOn {cs line : List Char} (h : line ∈ cs.splitOn '\n') :
    '\n' ∉ line := by
  induction cs generalizing line with
  | nil =>
    obtain rfl := List.mem_singleton.mp h
    exact List.not_mem_nil
  | cons c rest ih =>
    rw [List.splitOn_cons_eq_if_modifyHead] at h
    split at h
    · rcases List.mem_cons.mp h with rfl | h
      · exact List.not_mem_nil
      · exact ih h
    · rename_i hc
      cases hsplit : rest.splitOn '\n' with
      | nil => exact absurd hsplit (List.splitOn_ne_nil _ _)
      | cons first more =>
        rw [hsplit, List.modifyHead_cons] at h
        rw [hsplit] at ih
        rcases List.mem_cons.mp h with rfl | h
        · have hfirst := ih List.mem_cons_self
          simp only [List.mem_cons, not_or]
          exact ⟨fun heq => hc (beq_iff_eq.mpr heq.symm), hfirst⟩
        · exact ih (List.mem_cons_of_mem _ h)

/-- **No line holds a line feed or ends in a carriage return.** -/
theorem clean_of_mem_lines {text line : String} (h : line ∈ lines text) :
    '\n' ∉ line.toList ∧ line.toList.getLast? ≠ some '\r' := by
  obtain ⟨cs, hcs, rfl⟩ := List.mem_map.mp h
  rw [trimmed, String.toList_ofList]
  refine ⟨fun hmem => not_mem_of_mem_splitOn hcs ((cs.rdropWhile_prefix (· == '\r')).subset hmem),
    fun hlast => ?_⟩
  obtain ⟨front, hfront⟩ := List.getLast?_eq_some_iff.mp hlast
  have hne : cs.rdropWhile (· == '\r') ≠ [] := by simp [hfront]
  have hnot := List.rdropWhile_last_not (p := (· == '\r')) cs hne
  simp [hfront] at hnot

/-! ### One entry for every name -/

section Collect

variable {entries blocks : List RuleEntry} {b e : RuleEntry}

theorem map_fst_put (e : RuleEntry) (entries : List RuleEntry) :
    (put e entries).map Prod.fst =
      if e.1 ∈ entries.map Prod.fst then entries.map Prod.fst
        else entries.map Prod.fst ++ [e.1] := by
  induction entries with
  | nil => rfl
  | cons d rest ih =>
    rw [put]
    by_cases hd : d.1 = e.1
    · rw [if_pos hd, if_pos (by simp [hd]), List.map_cons, List.map_cons, hd]
    · have hmem : e.1 ∈ (d :: rest).map Prod.fst ↔ e.1 ∈ rest.map Prod.fst := by
        rw [List.map_cons, List.mem_cons]
        exact or_iff_right (Ne.symm hd)
      rw [if_neg hd, List.map_cons, ih]
      by_cases hrest : e.1 ∈ rest.map Prod.fst
      · rw [if_pos hrest, if_pos (hmem.mpr hrest), List.map_cons]
      · rw [if_neg hrest, if_neg (mt hmem.mp hrest), List.map_cons, List.cons_append]

theorem mem_put (hnodup : (entries.map Prod.fst).Nodup) (h : e ∈ put b entries) :
    e = b ∨ e ∈ entries ∧ e.1 ≠ b.1 := by
  induction entries with
  | nil => exact .inl (List.mem_singleton.mp h)
  | cons d rest ih =>
    rw [List.map_cons, List.nodup_cons] at hnodup
    rw [put] at h
    split at h
    · rename_i hd
      rcases List.mem_cons.mp h with rfl | h
      · exact .inl rfl
      · refine .inr ⟨List.mem_cons_of_mem _ h, fun heq => hnodup.1 ?_⟩
        rw [hd, ← heq]
        exact List.mem_map_of_mem h
    · rename_i hd
      rcases List.mem_cons.mp h with rfl | h
      · exact .inr ⟨List.mem_cons_self, hd⟩
      · exact (ih hnodup.2 h).imp_right fun h => ⟨List.mem_cons_of_mem _ h.1, h.2⟩

theorem collect_concat (blocks : List RuleEntry) (b : RuleEntry) :
    collect (blocks ++ [b]) = put b (collect blocks) := by
  rw [collect, List.foldl_append]
  rfl

/-- **The names are those of the blocks,** each where it comes first. -/
theorem map_fst_collect (blocks : List RuleEntry) :
    (collect blocks).map Prod.fst = (blocks.map Prod.fst).eraseDups := by
  induction blocks using List.reverseRecOn with
  | nil => rfl
  | append_singleton blocks b ih =>
    have hmem : b.1 ∈ (blocks.map Prod.fst).eraseDups ↔ b.1 ∈ blocks.map Prod.fst :=
      List.mem_eraseDups
    rw [collect_concat, map_fst_put, ih, List.map_append, List.eraseDups_append]
    by_cases hb : b.1 ∈ blocks.map Prod.fst
    · simp [List.removeAll, hb]
    · simp [List.removeAll, hb, List.eraseDups_cons]

theorem nodup_collect (blocks : List RuleEntry) : ((collect blocks).map Prod.fst).Nodup := by
  induction blocks using List.reverseRecOn with
  | nil => exact List.nodup_nil
  | append_singleton blocks b ih =>
    rw [collect_concat, map_fst_put]
    split
    · exact ih
    · rename_i hb
      exact List.nodup_append.mpr ⟨ih, List.nodup_singleton _, fun n hn m hm => by
        obtain rfl := List.mem_singleton.mp hm
        rintro rfl
        exact hb hn⟩

/-- **Of the blocks with a name the last one counts.** -/
theorem exists_last_of_mem_collect (h : e ∈ collect blocks) :
    ∃ before after, blocks = before ++ e :: after ∧ e.1 ∉ after.map Prod.fst := by
  induction blocks using List.reverseRecOn with
  | nil => cases h
  | append_singleton blocks b ih =>
    rw [collect_concat] at h
    rcases mem_put (nodup_collect blocks) h with rfl | ⟨h, hne⟩
    · exact ⟨blocks, [], rfl, List.not_mem_nil⟩
    · obtain ⟨before, after, rfl, hlast⟩ := ih h
      refine ⟨before, after ++ [b], by simp, ?_⟩
      rw [List.map_append, List.mem_append, not_or]
      exact ⟨hlast, fun hmem => hne (List.mem_singleton.mp hmem)⟩

theorem collect_of_nodup (h : (blocks.map Prod.fst).Nodup) : collect blocks = blocks := by
  induction blocks using List.reverseRecOn with
  | nil => rfl
  | append_singleton blocks b ih =>
    rw [List.map_append, List.nodup_append] at h
    have hnew : b.1 ∉ blocks.map Prod.fst := fun hmem => h.2.2 b.1 hmem b.1 (by simp) rfl
    have hput : ∀ entries : List RuleEntry, b.1 ∉ entries.map Prod.fst →
        put b entries = entries ++ [b] := by
      intro entries hentries
      induction entries with
      | nil => rfl
      | cons d rest ihrest =>
        rw [List.map_cons, List.mem_cons, not_or] at hentries
        rw [put, if_neg (Ne.symm hentries.1), ihrest hentries.2, List.cons_append]
    rw [collect_concat, ih h.1, hput blocks hnew]

/-- **A block is complained of if its name has come before,** which is known from the names that
have been seen. -/
theorem complaints_eq {seen before : List String} (hseen : ∀ n, n ∈ seen ↔ n ∈ before)
    (blocks : List RuleEntry) : complaints seen blocks =
      ((((blocks.map Prod.fst).zipIdx before.length).filter
        fun n => ((before ++ blocks.map Prod.fst).take n.2).contains n.1).map Prod.fst).map
          .nameRepeated := by
  induction blocks generalizing seen before with
  | nil => rfl
  | cons b rest ih =>
    have hhere : (before ++ b.1 :: rest.map Prod.fst).take before.length = before := List.take_left
    have hthere : before ++ b.1 :: rest.map Prod.fst = (before ++ [b.1]) ++
        rest.map Prod.fst := by simp
    have hknown : seen.contains b.1 = before.contains b.1 := by
      rw [Bool.eq_iff_iff, List.contains_iff_mem, List.contains_iff_mem, hseen]
    rw [complaints, List.map_cons, List.zipIdx_cons, List.filter_cons, hhere, hknown, hthere]
    have hlength : before.length + 1 = (before ++ [b.1]).length := by simp
    rw [hlength]
    by_cases hb : before.contains b.1 = true
    · rw [if_pos hb, if_pos hb, List.map_cons, List.map_cons]
      refine congrArg _ (ih fun n => ?_)
      rw [hseen, List.mem_append, List.mem_singleton]
      refine ⟨.inl, fun h => h.elim id ?_⟩
      rintro rfl
      exact List.contains_iff_mem.mp hb
    · rw [if_neg hb, if_neg hb]
      refine ih fun n => ?_
      rw [List.mem_cons, hseen, List.mem_append, List.mem_singleton, or_comm]

/-- Who hears warnings hears every complaint, and others hear none. -/
theorem heard_complaints (listener : LogLevel) (names : List String) :
    listener.heard (names.map .nameRepeated) =
      if listener.hears .warnings then
        names.map fun name => (.warning, "rule '" ++ name ++ "' defined twice, will be overwritten")
      else [] := by
  have hnotice (name : String) : (Notice.nameRepeated name).severity = .warning ∧
      (Notice.nameRepeated name).message = "rule '" ++ name ++
        "' defined twice, will be overwritten" := ⟨rfl, rfl⟩
  have hlevel : Severity.warning.level = .warnings := rfl
  rw [LogLevel.heard, List.filter_map, List.map_map]
  simp only [Function.comp_def, hnotice, hlevel]
  cases listener.hears .warnings with
  | true => simp only [List.filter_true, if_true]
  | false => simp only [List.filter_false, List.map_nil, Bool.false_eq_true, if_false]

theorem complaints_nil_eq (blocks : List RuleEntry) :
    complaints [] blocks = (repeated (blocks.map Prod.fst)).map .nameRepeated :=
  complaints_eq (fun _ => Iff.rfl) blocks

end Collect

/-- **What a rule file in blocks stands for.**  Its lines are cut into blocks in one way.  The names
of its entries are those of the blocks, each once and where it comes first; the candidates of an
entry are the lines of the last block of this name, or one empty text if that has no lines; and no
candidate holds a line feed or ends in a carriage return.  Who hears warnings hears one for every
block whose name has come before, and nobody hears anything else. -/
theorem read_blocks (text : String) :
    ∃ blocks, (∀ blocks', Cuts (lines text) blocks' ↔ blocks' = blocks) ∧
    (read text).1.map Prod.fst = (blocks.map Prod.fst).eraseDups ∧
    ((read text).1.map Prod.fst).Nodup ∧
    (∀ e ∈ (read text).1, ∃ before body after, blocks = before ++ (e.1, body) :: after ∧
      e.1 ∉ after.map Prod.fst ∧ e.2 = if body = [] then [""] else body) ∧
    (∀ e ∈ (read text).1, ∀ c ∈ e.2, '\n' ∉ c.toList ∧ c.toList.getLast? ≠ some '\r') ∧
    ∀ listener : LogLevel, listener.heard (read text).2 =
      if listener.hears .warnings then
        (repeated (blocks.map Prod.fst)).map fun name =>
          (.warning, "rule '" ++ name ++ "' defined twice, will be overwritten")
      else [] := by
  obtain ⟨blocks, hcuts, htext⟩ := exists_cuts text
  have hnames : (blocks.map entryOf).map Prod.fst = blocks.map Prod.fst := by
    rw [List.map_map]
    rfl
  have hlast : ∀ e ∈ (read text).1, ∃ before body after, blocks = before ++ (e.1, body) :: after ∧
      e.1 ∉ after.map Prod.fst ∧ e.2 = if body = [] then [""] else body := by
    intro e he
    rw [read, htext] at he
    obtain ⟨before, after, heq, hnot⟩ := exists_last_of_mem_collect he
    obtain ⟨before', behind, rfl, rfl, hbehind⟩ := List.map_eq_append_iff.mp heq
    obtain ⟨block, after', rfl, rfl, rfl⟩ := List.map_eq_cons_iff.mp hbehind
    refine ⟨before', block.2, after', rfl, ?_, rfl⟩
    rwa [List.map_map] at hnot
  refine ⟨blocks, fun blocks' => ⟨hcuts.unique, fun h => h ▸ hcuts⟩, ?_, nodup_collect _, hlast, ?_,
    fun listener => ?_⟩
  · rw [read, htext, map_fst_collect, hnames]
  · intro e he c hc
    obtain ⟨before, body, after, rfl, -, hbody⟩ := hlast e he
    rw [hbody] at hc
    split at hc
    · obtain rfl := List.mem_singleton.mp hc
      exact ⟨by simp, by simp⟩
    · exact clean_of_mem_lines (hcuts.mem_lines (e.1, body) (by simp) c hc)
  · rw [read, htext, complaints_nil_eq, hnames, heard_complaints]

end TemplateGrammar.Block
