import TemplateGrammar.Proofs.Tools.Registration

/-!
# What a strict linter lets pass

A linter that is strict counts findings as errors, but a rule that expands to nothing stays a
warning, and warnings do not fail a run.  Such a rule is one with a valid name that a file gives the
empty text and nothing else (`BlankRule`); it has its warning in every run (`mem_warnings_iff`).

So a strict run ends with nought exactly if a run that is not strict would list nothing but such
warnings, and what it lets pass is right exactly if it lets no such rule pass (`run_strict_iff`).
-/

namespace TemplateGrammar.Lint

variable {files : FileTree} {paths : List String}

/-- **A rule that a file gives the empty text and nothing else,** under a valid name. -/
structure BlankRule (files : FileTree) (path rule : String) : Prop where
  valid : isValidName rule = true
  loaded : ∃ entries, (RuleFile.load files path).1 = .ok entries ∧ (rule, [""]) ∈ entries

/-- The complaint is that a rule expands to nothing. -/
def Complaint.OfEmptiness (c : Complaint) : Prop :=
  ∃ path rule, c = .alwaysEmpty path rule

/-! ### Complaints -/

/-- **All other complaints are errors for a strict linter.** -/
theorem isError_strict_iff (c : Complaint) : c.isError true = true ↔ ¬ c.OfEmptiness := by
  cases c <;> simp [Complaint.isError, Complaint.OfEmptiness]

theorem Complaint.OfEmptiness.isError {c : Complaint} (h : c.OfEmptiness) (strict : Bool) :
    c.isError strict = false := by
  obtain ⟨path, rule, rfl⟩ := h
  rfl

theorem mem_inspectEntry_iff {file path rule : String} {entry : RuleEntry} :
    Complaint.alwaysEmpty path rule ∈ inspectEntry file entry ↔
      path = file ∧ entry = (rule, [""]) ∧ isValidName rule = true := by
  have hbroken : Complaint.alwaysEmpty path rule ∉ brokenCandidates file entry.1 entry.2 := by
    intro h
    obtain ⟨c, -, hc⟩ := List.mem_filterMap.mp h
    split at hc
    · cases hc
    · cases Option.some.inj hc
  obtain ⟨name, candidates⟩ := entry
  dsimp only at hbroken
  unfold inspectEntry
  constructor
  · intro h
    split at h
    · rename_i hname
      simp only [List.mem_append, hbroken, or_false, List.mem_ite_nil_right, List.mem_singleton,
        reduceCtorEq, and_false, false_or, Complaint.alwaysEmpty.injEq] at h
      obtain ⟨rfl, rfl, rfl⟩ := h
      exact ⟨rfl, rfl, hname⟩
    · cases List.mem_singleton.mp h
  · rintro ⟨rfl, ⟨⟩, hname⟩
    rw [if_pos hname]
    exact List.mem_append_right _ (by simp)

/-- The complaints about a file before its rules are inspected with those of the others. -/
def complaintsAt (files : FileTree) (path : String) : List Complaint :=
  match (RuleFile.load files path).1 with
  | .error fault => [.unreadableFile path fault]
  | .ok entries => entries.flatMap (inspectEntry path)

theorem complaints_foldl (files : FileTree) (paths : List String) (s : Survey) :
    (paths.foldl (Survey.read files) s).complaints = s.complaints ++
      paths.flatMap (complaintsAt files) := by
  induction paths generalizing s with
  | nil => exact (List.append_nil _).symm
  | cons path rest ih =>
    have hread : (Survey.read files s path).complaints = s.complaints ++
        complaintsAt files path := by
      unfold Survey.read complaintsAt
      cases (RuleFile.load files path).1 <;> rfl
    rw [List.foldl_cons, ih, hread, List.flatMap_cons, List.append_assoc]

theorem mem_complaintsAt_iff {file path rule : String} :
    Complaint.alwaysEmpty path rule ∈ complaintsAt files file ↔
    path = file ∧ BlankRule files path rule := by
  unfold complaintsAt
  cases hload : (RuleFile.load files file).1 with
  | error fault =>
    constructor
    · intro h
      cases List.mem_singleton.mp h
    · rintro ⟨rfl, -, entries, hentries, -⟩
      cases hload.symm.trans hentries
  | ok entries =>
    simp only [List.mem_flatMap, mem_inspectEntry_iff]
    constructor
    · rintro ⟨entry, hentry, rfl, rfl, hname⟩
      exact ⟨rfl, hname, entries, hload, hentry⟩
    · rintro ⟨rfl, hname, entries', hentries, hmem⟩
      obtain rfl := Except.ok.inj (hload.symm.trans hentries)
      exact ⟨_, hmem, rfl, rfl, hname⟩

/-- **Each rule that expands to nothing has its warning,** whether the linter is strict or not. -/
theorem mem_warnings_iff (strict : Bool) {path rule : String} :
    Complaint.alwaysEmpty path rule ∈ warnings strict (survey files paths) ↔
      path ∈ paths ∧ BlankRule files path rule := by
  have hcomplaint : Complaint.alwaysEmpty path rule ∈ (survey files paths).complaints ↔
      ∃ file ∈ paths, Complaint.alwaysEmpty path rule ∈ complaintsAt files file := by
    simp [survey, complaints_foldl, Survey.start]
  rw [warnings, List.mem_filter, hcomplaint]
  simp only [mem_complaintsAt_iff]
  constructor
  · rintro ⟨⟨_, hfile, rfl, hblank⟩, -⟩
    exact ⟨hfile, hblank⟩
  · rintro ⟨hpath, hblank⟩
    exact ⟨⟨path, hpath, rfl, hblank⟩, rfl⟩

/-! ### Reports -/

theorem lists_nothing_iff (strict : Bool) (s : Survey) :
    errors strict s = [] ∧ warnings strict s = [] ↔ s.complaints = [] := by
  rw [errors, warnings, List.filter_eq_nil_iff, List.filter_eq_nil_iff,
    List.eq_nil_iff_forall_not_mem]
  constructor
  · rintro ⟨herrors, hwarnings⟩ c hc
    exact hwarnings c hc (by simpa using herrors c hc)
  · intro h
    exact ⟨fun c hc => absurd hc (h c), fun c hc => absurd hc (h c)⟩

theorem errors_strict_eq_nil_iff (s : Survey) : errors true s = [] ↔
    ∀ c ∈ s.complaints, c.OfEmptiness := by
  rw [errors, List.filter_eq_nil_iff]
  exact forall₂_congr fun c _ => by rw [isError_strict_iff, not_not]

/-- What is an error for a strict linter is an error or another warning for one that is not. -/
theorem errors_strict_eq_nil_iff_plain (s : Survey) :
    errors true s = [] ↔ errors false s = [] ∧ ∀ w ∈ warnings false s, w.OfEmptiness := by
  rw [errors_strict_eq_nil_iff, errors, List.filter_eq_nil_iff]
  constructor
  · intro h
    refine ⟨fun c hc => ?_, fun w hw => h w (List.mem_filter.mp hw).1⟩
    rw [(h c hc).isError]
    exact Bool.false_ne_true
  · rintro ⟨herrors, hwarnings⟩ c hc
    exact hwarnings c (List.mem_filter.mpr ⟨hc, by simpa using herrors c hc⟩)

theorem run_path {path : String} (hpath : ¬(path = "--help" ∨ path = "-h"))
    (hfiles : filesAt files path = some paths) (flags : List String) :
    (run files (path :: flags)).out = report (flags.contains "--strict") paths.length
      (survey files paths) ∧
      ((run files (path :: flags)).code = 0 ↔
        errors (flags.contains "--strict") (survey files paths) = []) := by
  rw [run, if_neg hpath, hfiles]
  refine ⟨rfl, ?_⟩
  dsimp only
  cases errors (flags.contains "--strict") (survey files paths) <;> simp

/-- **A strict run passes over rules that expand to nothing.**  On a path that leads to rule files
it ends with nought exactly if a run that is not strict lists no errors, and no warnings but that a
rule expands to nothing; that is said of the rules of valid names that a file gives the empty text
and nothing else.  So it ends with nought exactly if nothing is listed, by itself or by a run that
is not strict, just if it lets no such rule pass. -/
theorem run_strict_iff {path : String} {flags plain : List String}
    (hpath : ¬(path = "--help" ∨ path = "-h")) (hfiles : filesAt files path = some paths)
    (hstrict : "--strict" ∈ flags) (hplain : "--strict" ∉ plain) :
    (run files (path :: flags)).out = report true paths.length (survey files paths) ∧
      (run files (path :: plain)).out = report false paths.length (survey files paths) ∧
      ((run files (path :: flags)).code = 0 ↔
        errors false (survey files paths) = [] ∧ ∀ w ∈ warnings false (survey files paths),
        w.OfEmptiness) ∧
      (∀ strict file rule, Complaint.alwaysEmpty file rule ∈ warnings strict (survey files paths) ↔
        file ∈ paths ∧ BlankRule files file rule) ∧
      ∀ strict, ((run files (path :: flags)).code = 0 ↔
          errors strict (survey files paths) = [] ∧ warnings strict (survey files paths) = []) ↔
        ((run files (path :: flags)).code = 0 →
          ∀ file ∈ paths, ∀ rule, ¬ BlankRule files file rule) := by
  obtain ⟨hout, hcode⟩ := run_path hpath hfiles flags
  have hreport := (run_path hpath hfiles plain).1
  rw [List.contains_iff_mem.mpr hstrict] at hout hcode
  rw [show plain.contains "--strict" = false by simpa using hplain] at hreport
  refine ⟨hout, hreport, hcode.trans (errors_strict_eq_nil_iff_plain _),
    fun strict _ _ => mem_warnings_iff strict,
    fun strict => ?_⟩
  rw [lists_nothing_iff, hcode, errors_strict_eq_nil_iff]
  constructor
  · intro hall hempty file hfile rule hblank
    have hwarned := (mem_warnings_iff strict).mpr ⟨hfile, hblank⟩
    rw [warnings, hall.mp hempty] at hwarned
    cases hwarned
  · intro hnone
    constructor
    · intro hempty
      refine List.eq_nil_iff_forall_not_mem.mpr fun c hc => ?_
      obtain ⟨file, rule, rfl⟩ := hempty c hc
      have hwarned : Complaint.alwaysEmpty file rule ∈ warnings strict (survey files paths) :=
        List.mem_filter.mpr ⟨hc, rfl⟩
      obtain ⟨hfile, hblank⟩ := (mem_warnings_iff strict).mp hwarned
      exact hnone hempty file hfile rule hblank
    · intro hnil c hc
      rw [hnil] at hc
      cases hc

/-! ### A rule that expands to nothing -/

theorem filesAt_oneFile (text : String) : filesAt (oneFile text) "r" = some ["r"] := by
  rw [filesAt, find_oneFile]

/-- A rule that expands to nothing, and one that mentions what is not there. -/
def blankAndLost : String :=
  "[blank]\n\n[s]\n#t#\n"

/-- The mention is a warning that fails a strict run. -/
theorem run_strict_blankAndLost :
    filesAt (oneFile blankAndLost) "r" = some ["r"] ∧
      (run (oneFile blankAndLost) ["r", "--strict"]).code ≠ 0 ∧
      (run (oneFile blankAndLost) ["r"]).out =
        report false 1 (survey (oneFile blankAndLost) ["r"]) ∧
      Complaint.finding (.unresolved "s" "t") ∈
        warnings false (survey (oneFile blankAndLost) ["r"]) ∧
      Complaint.alwaysEmpty "r" "blank" ∈ warnings true (survey (oneFile blankAndLost) ["r"]) := by
  obtain ⟨-, hplain, hcode, hblank, -⟩ := run_strict_iff (by decide) (filesAt_oneFile blankAndLost)
    (by decide : "--strict" ∈ ["--strict"]) (by decide : "--strict" ∉ ([] : List String))
  have hlost : Complaint.finding (.unresolved "s" "t") ∈
      warnings false (survey (oneFile blankAndLost) ["r"]) := by
    decide +kernel
  have hfile : BlankRule (oneFile blankAndLost) "r" "blank" :=
    ⟨by decide +kernel, _, load_oneFile blankAndLost, by decide +kernel⟩
  refine ⟨filesAt_oneFile _, fun h => ?_, hplain, hlost,
    (hblank true "r" "blank").mpr ⟨List.mem_singleton_self _, hfile⟩⟩
  obtain ⟨path, rule, heq⟩ := (hcode.mp h).2 _ hlost
  cases heq

/-- **A strict run can end with nought and list a warning:** that a rule expands to nothing. -/
theorem strict_passes_blankRule :
    filesAt (oneFile "[blank]\n") "r" = some ["r"] ∧
    (run (oneFile "[blank]\n") ["r", "--strict"]).code = 0 ∧
      warnings true (survey (oneFile "[blank]\n") ["r"]) = [.alwaysEmpty "r" "blank"] ∧
      warnings false (survey (oneFile "[blank]\n") ["r"]) = [.alwaysEmpty "r" "blank"] ∧
      ¬((run (oneFile "[blank]\n") ["r", "--strict"]).code = 0 ↔
        errors true (survey (oneFile "[blank]\n") ["r"]) = [] ∧
          warnings true (survey (oneFile "[blank]\n") ["r"]) = []) := by
  have hwarned : ∀ strict, warnings strict (survey (oneFile "[blank]\n") ["r"]) =
      [.alwaysEmpty "r" "blank"] := by
    decide +kernel
  have hcode : (run (oneFile "[blank]\n") ["r", "--strict"]).code = 0 := by
    refine (run_path (by decide) (filesAt_oneFile _) ["--strict"]).2.mpr ?_
    decide +kernel
  refine ⟨filesAt_oneFile _, hcode, hwarned true, hwarned false, fun h => ?_⟩
  have hnone := (h.mp hcode).2
  rw [hwarned] at hnone
  cases hnone

end TemplateGrammar.Lint
