import TemplateGrammar.Proofs.RuleFile.Blocks

/-!
# Tables written as rule files

A table is written entry by entry: the header, the candidates that are not empty, and an empty line.
What is no header may stand around the entries, and every line ends the way it likes.  Reading gives
the table back (`read_joined`), for names and candidates of any look: a block is left only by its
empty line, so a candidate that looks like a header is no header.
-/

namespace TemplateGrammar.Block

/-- How a line ends. -/
inductive LineEnd where
  | feed
  | returnFeed
  deriving DecidableEq, Repr

/-- What stands at the end of a line. -/
def LineEnd.text : LineEnd → String
  | feed => "\n"
  | returnFeed => "\r\n"

/-- The text of some lines, each with its own end. -/
def joined (ls : List (String × LineEnd)) : String :=
  String.join (ls.map fun l => l.1 ++ l.2.text)

/-- **A table laid out in lines,** with other lines around its entries. -/
inductive LaysOut : List RuleEntry → List String → Prop
  | done : LaysOut [] []
  | around {line : String} {rest : List String} {entries : List RuleEntry}
    (single : '\n' ∉ line.toList)
      (h : ∀ name, ¬ Heads name (trimmed line.toList)) (more : LaysOut entries rest) :
      LaysOut entries (line :: rest)
  | entry {rest : List String} {entries : List RuleEntry} (e : RuleEntry)
    (more : LaysOut entries rest) :
      LaysOut (e :: entries) (("[" ++ e.1 ++ "]") :: (e.2.filter (· ≠ "") ++ "" :: rest))

/-- What a rule file can hold: a name that is not empty and stands in one line, with lines for
candidates, or with one empty text. -/
structure Holdable (e : RuleEntry) : Prop where
  named : e.1 ≠ ""
  single : '\n' ∉ e.1.toList
  candidates : e.2 = [""] ∨ ∀ c ∈ e.2, c ≠ "" ∧ '\n' ∉ c.toList ∧ c.toList.getLast? ≠ some '\r'

/-! ### The lines of a joined text -/

variable {line : String} {ls : List String} {entries : List RuleEntry} {e : RuleEntry}

theorem trimmed_eq_self (h : line.toList.getLast? ≠ some '\r') : trimmed line.toList = line := by
  rw [trimmed, List.rdropWhile_eq_self_iff.mpr, String.ofList_toList]
  intro hne hlast
  rw [List.getLast?_eq_some_getLast hne, beq_iff_eq.mp hlast] at h
  exact h rfl

theorem trimmed_append_return (cs : List Char) : trimmed (cs ++ ['\r']) = trimmed cs := by
  rw [trimmed, List.rdropWhile_concat_pos _ _ _ rfl, trimmed]

theorem lines_append (hline : '\n' ∉ line.toList) (ending : LineEnd) (text : String) :
    lines (line ++ ending.text ++ text) = trimmed line.toList :: lines text := by
  cases ending with
  | feed =>
    have hlist : (line ++ LineEnd.feed.text ++ text).toList = line.toList ++ '\n' ::
        text.toList := by
      simp [LineEnd.text]
    rw [lines, hlist, List.splitOn_append_cons_self_of_not_mem hline, List.map_cons, lines]
  | returnFeed =>
    have hlist : (line ++ LineEnd.returnFeed.text ++ text).toList = (line.toList ++ ['\r']) ++
        '\n' :: text.toList := by
      simp [LineEnd.text]
    have hmore : '\n' ∉ line.toList ++ ['\r'] := by simpa using hline
    rw [lines, hlist, List.splitOn_append_cons_self_of_not_mem hmore, List.map_cons,
      trimmed_append_return, lines]

/-- **The lines of a joined text are its lines,** however they end, and an empty one behind the
last. -/
theorem lines_joined {ls : List (String × LineEnd)} (h : ∀ l ∈ ls, '\n' ∉ l.1.toList) :
    lines (joined ls) = (ls.map fun l => trimmed l.1.toList) ++ [""] := by
  induction ls with
  | nil => rfl
  | cons l ls ih =>
    obtain ⟨hl, hls⟩ := List.forall_mem_cons.mp h
    have hjoined : joined (l :: ls) = l.1 ++ l.2.text ++ joined ls := by
      rw [← String.toList_inj]
      simp [joined]
    rw [hjoined, lines_append hl, ih hls, List.map_cons, List.cons_append]

/-! ### What is laid out -/

theorem Holdable.heads (h : Holdable e) : Heads e.1 ("[" ++ e.1 ++ "]") :=
  ⟨h.named, rfl⟩

theorem Holdable.clean (h : Holdable e) : ∀ l ∈ ("[" ++ e.1 ++ "]") :: e.2.filter (· ≠ ""),
    '\n' ∉ l.toList ∧ trimmed l.toList = l := by
  intro l hl
  rcases List.mem_cons.mp hl with rfl | hl
  · refine ⟨by simpa using h.single, trimmed_eq_self ?_⟩
    have hlast : "]".toList.getLast? = some ']' := rfl
    rw [String.toList_append, List.getLast?_append, hlast, Option.some_or]
    decide
  · obtain ⟨hmem, hfull⟩ := List.mem_filter.mp hl
    rcases h.candidates with hone | hall
    · rw [hone, List.mem_singleton] at hmem
      exact absurd hmem (of_decide_eq_true hfull)
    · obtain ⟨-, hfeed, hlast⟩ := hall l hmem
      exact ⟨hfeed, trimmed_eq_self hlast⟩

theorem Holdable.entryOf_written (h : Holdable e) :
    entryOf (e.1, e.2.filter (· ≠ "")) = entryOf e := by
  rcases h.candidates with hone | hall
  · simp [entryOf, hone]
  · have hself : e.2.filter (· ≠ "") = e.2 :=
      List.filter_eq_self.mpr fun c hc => decide_eq_true (hall c hc).1
    rw [hself]

theorem entryOf_eq_self (h : e.2 ≠ []) : entryOf e = e := by
  rw [entryOf, if_neg h]

/-- **In a laid out table its entries are the blocks.** -/
theorem LaysOut.cuts (laid : LaysOut entries ls) (fit : ∀ e ∈ entries, Holdable e) :
    (∀ l ∈ ls, '\n' ∉ l.toList) ∧
      Cuts (ls.map fun l => trimmed l.toList)
        (entries.map fun e => (e.1, e.2.filter (· ≠ ""))) := by
  induction laid with
  | done => exact ⟨nofun, .done⟩
  | around single h _ ih =>
    obtain ⟨hsingle, hcuts⟩ := ih fit
    exact ⟨List.forall_mem_cons.mpr ⟨single, hsingle⟩, .outside h hcuts⟩
  | @entry rest entries e _ ih =>
    obtain ⟨he, hentries⟩ := List.forall_mem_cons.mp fit
    obtain ⟨hsingle, hcuts⟩ := ih hentries
    have hclean := he.clean
    obtain ⟨hheader, hbody⟩ := List.forall_mem_cons.mp hclean
    have hwritten : (e.2.filter (· ≠ "")).map (fun l => trimmed l.toList) = e.2.filter (· ≠ "") :=
      (List.map_congr_left fun l hl => (hbody l hl).2).trans (List.map_id _)
    have hfull : ∀ l ∈ e.2.filter (· ≠ ""), l ≠ "" :=
      fun l hl => of_decide_eq_true (List.mem_filter.mp hl).2
    constructor
    · rw [List.forall_mem_cons, List.forall_mem_append, List.forall_mem_cons]
      exact ⟨hheader.1, fun l hl => (hbody l hl).1, by simp, hsingle⟩
    · rw [List.map_cons, List.map_append, List.map_cons, hheader.2, hwritten]
      exact .closed he.heads hfull hcuts

theorem repeated_of_nodup {names : List String} (h : names.Nodup) : repeated names = [] := by
  rw [repeated, List.map_eq_nil_iff, List.filter_eq_nil_iff]
  rintro ⟨name, i⟩ hn hbefore
  obtain ⟨hi, hname⟩ := List.mem_zipIdx' hn
  obtain ⟨j, hj, hsame⟩ := List.mem_take_iff_getElem.mp (List.contains_iff_mem.mp hbefore)
  have hplace : j = i := h.getElem_inj_iff.mp (hsame.trans hname)
  omega

/-- **Reading gives back the table that was written.**  This is said for tables whose names are all
different, with any line ends and any lines around the entries that are no headers.  An entry
without candidates comes back with one empty text; where there is none, the table itself comes back,
and nothing is said of it. -/
theorem read_joined {ls : List (String × LineEnd)} (distinct : (entries.map Prod.fst).Nodup)
    (fit : ∀ e ∈ entries, Holdable e) (laid : LaysOut entries (ls.map Prod.fst)) :
    read (joined ls) = (entries.map entryOf, []) ∧
      ((∀ e ∈ entries, e.2 ≠ []) → read (joined ls) = (entries, [])) := by
  obtain ⟨hsingle, hcuts⟩ := laid.cuts fit
  have hlines := lines_joined fun l hl => hsingle l.1 (List.mem_map_of_mem hl)
  have htext : ofText (joined ls) = entries.map entryOf := by
    rw [List.map_map] at hcuts
    rw [ofText_of_cuts (hlines ▸ hcuts.concat_empty), List.map_map]
    exact List.map_congr_left fun e he => (fit e he).entryOf_written
  have hnames : (entries.map entryOf).map Prod.fst = entries.map Prod.fst := by
    rw [List.map_map]
    rfl
  have hread : read (joined ls) = (entries.map entryOf, []) := by
    rw [read, htext, collect_of_nodup (hnames ▸ distinct), complaints_nil_eq, hnames,
      repeated_of_nodup distinct, List.map_nil]
  refine ⟨hread, fun hfull => ?_⟩
  have hself : entries.map entryOf = entries :=
    (List.map_congr_left fun e he => entryOf_eq_self (hfull e he)).trans (List.map_id _)
  rw [hread, hself]

/-- A table whose names and candidates look like headers and hold carriage returns. -/
def bracketed : List RuleEntry :=
  [("a]\r[", ["[x]", "\ry", " z"]), ("empty", [""]), ("[b]", ["[", "[c]é"])]

/-- The same in lines of both kinds, among others. -/
def bracketedLines : List (String × LineEnd) :=
  [("no header", .feed), ("[]\r", .returnFeed),
    ("[a]\r[]", .returnFeed), ("[x]", .feed), ("\ry", .returnFeed), (" z", .feed),
    ("", .returnFeed),
    ("[empty]", .feed), ("", .feed), ("", .returnFeed), ("[x] ", .feed),
    ("[[b]]", .returnFeed), ("[", .feed), ("[c]é", .returnFeed), ("", .feed), ("end", .feed)]

theorem read_bracketedLines : read (joined bracketedLines) = (bracketed, []) := by
  have outside {cs : List Char} (h : header? (cs.rdropWhile (· == '\r')) = none) :
      ∀ name, ¬ Heads name (trimmed cs) := header?_eq_none_iff.mp h
  have fit : ∀ e ∈ bracketed, Holdable e := by
    simp only [bracketed, List.forall_mem_cons]
    exact ⟨⟨by decide, by decide, .inr (by decide)⟩, ⟨by decide, by decide, .inl rfl⟩,
      ⟨by decide, by decide, .inr (by decide)⟩, nofun⟩
  have laid : LaysOut bracketed (bracketedLines.map Prod.fst) :=
    .around (by decide) (outside (by decide)) (.around (by decide) (outside (by decide))
      (.entry _ (.entry _ (.around (by decide) (outside (by decide))
        (.around (by decide) (outside (by decide))
        (.entry _ (.around (by decide) (outside (by decide)) .done)))))))
  exact (read_joined (by decide) fit laid).2 (by decide)

end TemplateGrammar.Block
