import Mathlib
import TemplateGrammar.Proofs.Files.Find
import TemplateGrammar.Proofs.Rules.Changes
import TemplateGrammar.Tools.Lint

/-!
# The linter and registration

The linter looks at the entries of a file by itself, and what it calls an error is what registration
would refuse or drop.  `registrations` registers entries one after another and keeps what each
registration answered; of one of them, `Registered.kept` are the candidates of the rule that was
made and `Registered.dropped` the others, both told by the table and not by the linter.

An entry has an error for its name if that is invalid, one for having no candidates, or one for each
candidate that was dropped (`Registered.CallsFor`), whatever the table holds already.  So the linter
has no errors on entries exactly if all of them are registered completely, and a run that is not
strict ends with nought exactly if besides all files can be read (`errors_iff_registrations`).
-/

namespace TemplateGrammar.Lint

variable {H : Type}

/-- An entry, and what its registration answered. -/
structure Registered (H : Type) where
  entry : RuleEntry
  answer : RuleTable.Registration H

/-- **Register entries one after another.** -/
def registrations (t : RuleTable H) : List RuleEntry → List (Registered H)
  | [] => []
  | entry :: rest =>
    ⟨entry, t.add entry.1 (.list entry.2)⟩ ::
      registrations (t.add entry.1 (.list entry.2)).table rest

/-- The errors on the entries of a file. -/
def entryErrors (strict : Bool) (path : String) (entries : List RuleEntry) : List Complaint :=
  (entries.flatMap (inspectEntry path)).filter (Complaint.isError strict)

namespace Registered

/-- The candidates of the rule that was made of the entry; there are none if it was refused. -/
def kept (r : Registered H) : List String :=
  match r.answer.result, r.answer.table.get? r.entry.1 with
  | .ok (), some rule => rule.candidates.map Candidate.source
  | _, _ => []

/-- The candidates that registration dropped. -/
def dropped (r : Registered H) : List String :=
  r.entry.2.filter fun c => !r.kept.contains c

/-- The entry was registered with all its candidates. -/
structure Complete (r : Registered H) : Prop where
  accepted : r.answer.result = .ok ()
  whole : r.kept = r.entry.2

/-- **The errors that an entry calls for:** one for an invalid name, one for having no candidates,
or one for each candidate that was dropped. -/
inductive CallsFor (path : String) (r : Registered H) : List Complaint → Prop
  | invalidName (hname : isValidName r.entry.1 = false) :
    CallsFor path r [.invalidName path r.entry.1]
  | noCandidates (hname : isValidName r.entry.1 = true) (hnone : r.entry.2 = []) :
      CallsFor path r [.noCandidates path r.entry.1]
  | dropped {errors : List Complaint} (hname : isValidName r.entry.1 = true)
    (hsome : r.entry.2 ≠ [])
      (heach : List.Forall₂ (fun c error => ∃ failure, parseText c = .error failure ∧
        error = .brokenCandidate path r.entry.1 failure) r.dropped errors) : CallsFor path r errors

end Registered

/-! ### What registration answers -/

/-- **A list is registered** if its name is valid and one of its texts is a template. -/
theorem result_add_list (t : RuleTable H) (name : String) (texts : List String) :
    (t.add name (.list texts)).result =
      if isValidName name then
        if texts.filter (fun c => (parseText c).isOk) = [] then .error (.noCandidates name)
          else .ok ()
      else .error (.invalidName name) := by
  have hsome : ((Definition.list texts : Definition H).candidates.any fun c => (parseText c).isOk) =
      true ↔ texts.filter (fun c => (parseText c).isOk) ≠ [] := by
    rw [List.any_eq_true, ne_eq, List.filter_eq_nil_iff]
    simp [Definition.candidates]
  rw [RuleTable.result_add]
  split
  · by_cases h : texts.filter (fun c => (parseText c).isOk) = []
    · rw [if_neg fun hany => hsome.mp hany h, if_pos h]
    · rw [if_pos (hsome.mpr h), if_neg h]
  · rfl

theorem kept_add (t : RuleTable H) {entry : RuleEntry} (hname : isValidName entry.1 = true) :
    Registered.kept ⟨entry, t.add entry.1 (.list entry.2)⟩ = entry.2.filter fun c =>
    (parseText c).isOk := by
  have hresult := result_add_list t entry.1 entry.2
  rw [if_pos hname] at hresult
  unfold Registered.kept
  rcases t.add_cases entry.1 (.list entry.2) with ⟨hrefused, -⟩ | ⟨hdone, htable⟩
  · split at hresult
    · rename_i hnone
      dsimp only
      rw [hresult, hnone]
    · exact absurd hresult hrefused
  · dsimp only
    rw [hdone, htable, RuleTable.get?_insert_self]
    exact (t.standsFor_defined (RuleTable.readable_ne_nil
      (RuleTable.result_add_eq_ok.mp hdone))).sources

theorem dropped_add (t : RuleTable H) {entry : RuleEntry} (hname : isValidName entry.1 = true) :
    Registered.dropped ⟨entry, t.add entry.1 (.list entry.2)⟩ = entry.2.filter fun c =>
    !(parseText c).isOk := by
  unfold Registered.dropped
  rw [kept_add t hname]
  refine List.filter_congr fun c hc => ?_
  have hkept : (entry.2.filter fun c => (parseText c).isOk).contains c = (parseText c).isOk := by
    rw [Bool.eq_iff_iff, List.contains_iff_mem, List.mem_filter]
    exact and_iff_right hc
  rw [hkept]

/-- **An entry is registered completely** if its name is valid and its texts, of which there is one,
are templates. -/
theorem complete_add_iff (t : RuleTable H) (entry : RuleEntry) :
    Registered.Complete ⟨entry, t.add entry.1 (.list entry.2)⟩ ↔
      isValidName entry.1 = true ∧ entry.2 ≠ [] ∧ ∀ c ∈ entry.2, (parseText c).isOk = true := by
  have hresult := result_add_list t entry.1 entry.2
  constructor
  · rintro ⟨haccepted, hwhole⟩
    have hname : isValidName entry.1 = true := by
      by_contra hname
      rw [if_neg hname] at hresult
      cases hresult.symm.trans haccepted
    rw [kept_add t hname] at hwhole
    rw [if_pos hname, hwhole] at hresult
    refine ⟨hname, fun hnone => ?_, List.filter_eq_self.mp hwhole⟩
    rw [if_pos hnone] at hresult
    cases hresult.symm.trans haccepted
  · rintro ⟨hname, hsome, hall⟩
    have hwhole : entry.2.filter (fun c => (parseText c).isOk) = entry.2 :=
      List.filter_eq_self.mpr hall
    rw [if_pos hname, hwhole, if_neg hsome] at hresult
    exact ⟨hresult, (kept_add t hname).trans hwhole⟩

/-! ### What the linter says -/

theorem forall₂_brokenCandidates (path rule : String) (texts : List String) :
    List.Forall₂ (fun c error => ∃ failure, parseText c = .error failure ∧
      error = .brokenCandidate path rule failure)
      (texts.filter fun c => !(parseText c).isOk) (brokenCandidates path rule texts) := by
  induction texts with
  | nil => exact .nil
  | cons c rest ih =>
    rw [brokenCandidates] at ih ⊢
    rw [List.filter_cons, List.filterMap_cons]
    cases hc : parseText c with
    | ok nodes => exact ih
    | error failure => exact .cons ⟨failure, hc, rfl⟩ ih

theorem brokenCandidates_eq_nil_iff (path rule : String) (texts : List String) :
    brokenCandidates path rule texts = [] ↔ ∀ c ∈ texts, (parseText c).isOk = true := by
  have hlength := (forall₂_brokenCandidates path rule texts).length_eq
  rw [← List.length_eq_zero_iff, ← hlength, List.length_eq_zero_iff, List.filter_eq_nil_iff]
  exact forall₂_congr fun c _ => by simp

theorem filter_inspectEntry (strict : Bool) (path : String) (entry : RuleEntry) :
    (inspectEntry path entry).filter (Complaint.isError strict) =
      if isValidName entry.1 then
        if entry.2 = [] then [.noCandidates path entry.1] else brokenCandidates path entry.1 entry.2
      else [.invalidName path entry.1] := by
  have hbroken : (brokenCandidates path entry.1 entry.2).filter (Complaint.isError strict) =
      brokenCandidates path entry.1 entry.2 := by
    refine List.filter_eq_self.mpr fun error herror => ?_
    obtain ⟨c, -, hc⟩ := List.mem_filterMap.mp herror
    split at hc
    · cases hc
    · obtain rfl := Option.some.inj hc
      rfl
  have hempty : (if entry.2 = [""] then [Complaint.alwaysEmpty path entry.1] else []).filter
      (Complaint.isError strict) = [] := by
    split <;> rfl
  unfold inspectEntry
  split
  · rw [List.filter_append, List.filter_append, hbroken, hempty, List.append_nil]
    by_cases hnone : entry.2 = []
    · rw [if_pos hnone, hnone]
      rfl
    · rw [if_neg hnone, if_neg (by simpa using hnone)]
      rfl
  · rfl

/-- **The errors on an entry are those that it calls for.** -/
theorem callsFor_add (t : RuleTable H) (strict : Bool) (path : String) (entry : RuleEntry) :
    Registered.CallsFor path ⟨entry, t.add entry.1 (.list entry.2)⟩
      ((inspectEntry path entry).filter (Complaint.isError strict)) := by
  rw [filter_inspectEntry]
  split
  · rename_i hname
    split
    · rename_i hnone
      exact .noCandidates hname hnone
    · rename_i hsome
      refine .dropped hname hsome ?_
      rw [dropped_add t hname]
      exact forall₂_brokenCandidates path entry.1 entry.2
  · rename_i hname
    exact .invalidName (by simpa using hname)

/-- An entry has no errors if it is registered completely, and only then. -/
theorem filter_inspectEntry_eq_nil_iff (t : RuleTable H) (strict : Bool) (path : String)
    (entry : RuleEntry) : (inspectEntry path entry).filter (Complaint.isError strict) = [] ↔
      Registered.Complete ⟨entry, t.add entry.1 (.list entry.2)⟩ := by
  rw [filter_inspectEntry, complete_add_iff, ← brokenCandidates_eq_nil_iff path entry.1]
  split
  · rename_i hname
    split
    · rename_i hnone
      simp [hnone]
    · rename_i hsome
      simp [hname, hsome]
  · rename_i hname
    simp [hname]

/-! ### Entries one after another -/

theorem entryErrors_cons (strict : Bool) (path : String) (entry : RuleEntry)
    (rest : List RuleEntry) : entryErrors strict path (entry :: rest) =
      (inspectEntry path entry).filter (Complaint.isError strict) ++
        entryErrors strict path rest := by
  rw [entryErrors, List.flatMap_cons, List.filter_append]
  rfl

/-- **No errors exactly if all entries are registered completely,** by induction on the entries,
whatever the table holds that the next is registered in. -/
theorem entryErrors_eq_nil_iff (t : RuleTable H) (strict : Bool) (path : String)
    (entries : List RuleEntry) :
    entryErrors strict path entries = [] ↔ ∀ r ∈ registrations t entries, r.Complete := by
  induction entries generalizing t with
  | nil => exact ⟨fun _ => nofun, fun _ => rfl⟩
  | cons entry rest ih =>
    rw [entryErrors_cons, List.append_eq_nil_iff, registrations, List.forall_mem_cons,
      filter_inspectEntry_eq_nil_iff t, ih]

theorem exists_callsFor (t : RuleTable H) (strict : Bool) (path : String)
    (entries : List RuleEntry) :
    ∃ errors, List.Forall₂ (Registered.CallsFor path) (registrations t entries) errors ∧
      entryErrors strict path entries = errors.flatten := by
  induction entries generalizing t with
  | nil => exact ⟨[], .nil, rfl⟩
  | cons entry rest ih =>
    obtain ⟨errors, hcalls, heq⟩ := ih (t.add entry.1 (.list entry.2)).table
    refine ⟨_ :: errors, .cons (callsFor_add t strict path entry) hcalls, ?_⟩
    rw [entryErrors_cons, heq, List.flatten_cons]

/-- What is registered first is registered as it would be alone. -/
theorem forall_registrations_append (t : RuleTable H) (strict : Bool) (path : String)
    (first rest : List RuleEntry) : (∀ r ∈ registrations t (first ++ rest), r.Complete) ↔
      entryErrors strict path first = [] ∧ ∀ r ∈ registrations t rest, r.Complete := by
  rw [← entryErrors_eq_nil_iff t strict path, ← entryErrors_eq_nil_iff t strict path,
    entryErrors, entryErrors, List.flatMap_append, List.filter_append, List.append_eq_nil_iff]
  rfl

/-! ### Files one after another -/

/-- The complaints about a file before its rules are inspected. -/
def fileErrors (files : FileTree) (path : String) : List Complaint :=
  match (RuleFile.load files path).1 with
  | .error fault => [.unreadableFile path fault]
  | .ok entries => entryErrors false path entries

theorem filter_complaints_foldl (files : FileTree) (paths : List String) (s : Survey) :
    (paths.foldl (Survey.read files) s).complaints.filter (Complaint.isError false) =
      s.complaints.filter (Complaint.isError false) ++ paths.flatMap (fileErrors files) := by
  induction paths generalizing s with
  | nil => exact (List.append_nil _).symm
  | cons path rest ih =>
    have hread : (Survey.read files s path).complaints.filter (Complaint.isError false) =
        s.complaints.filter (Complaint.isError false) ++ fileErrors files path := by
      unfold Survey.read fileErrors
      cases (RuleFile.load files path).1 with
      | error fault => exact List.filter_append _ _
      | ok entries => exact List.filter_append _ _
    rw [List.foldl_cons, ih, hread, List.flatMap_cons, List.append_assoc]

theorem errors_survey (files : FileTree) (paths : List String) :
    errors false (survey files paths) = paths.flatMap (fileErrors files) := by
  have hfindings : ∀ findings : List Finding,
      (findings.map Complaint.finding).filter (Complaint.isError false) = [] := by
    intro findings
    refine List.filter_eq_nil_iff.mpr fun c hc => ?_
    obtain ⟨f, -, rfl⟩ := List.mem_map.mp hc
    exact Bool.false_ne_true
  unfold errors survey
  dsimp only
  rw [List.filter_append, filter_complaints_foldl, hfindings, List.append_nil]
  rfl

theorem flatMap_fileErrors_eq_nil_iff (files : FileTree) (paths : List String) :
    paths.flatMap (fileErrors files) = [] ↔
      ∃ loads, List.Forall₂ (fun path entries => (RuleFile.load files path).1 =
        .ok entries) paths loads ∧
        ∀ r ∈ registrations (.empty : RuleTable Unit) loads.flatten, r.Complete := by
  induction paths with
  | nil =>
    refine ⟨fun _ => ⟨[], .nil, nofun⟩, fun _ => rfl⟩
  | cons path rest ih =>
    rw [List.flatMap_cons, List.append_eq_nil_iff, ih]
    constructor
    · rintro ⟨hpath, loads, hloads, hcomplete⟩
      unfold fileErrors at hpath
      split at hpath
      · cases hpath
      · rename_i entries hload
        refine ⟨entries :: loads, .cons hload hloads, ?_⟩
        rw [List.flatten_cons, forall_registrations_append _ false path]
        exact ⟨hpath, hcomplete⟩
    · rintro ⟨_, _ | ⟨hload, hloads⟩, hcomplete⟩
      rw [List.flatten_cons, forall_registrations_append _ false path] at hcomplete
      refine ⟨?_, _, hloads, hcomplete.2⟩
      unfold fileErrors
      rw [hload]
      exact hcomplete.1

/-- **The linter and registration agree.**  On entries the linter has no errors exactly if all of
them are registered completely, into whatever table; the errors it has are those that the entries
call for, entry by entry.  So a run that is not strict, on a path that leads to rule files, ends
with nought exactly if all the files can be read and all their entries are registered completely. -/
theorem errors_iff_registrations :
    (∀ (H : Type) (t : RuleTable H) (strict : Bool) (path : String) (entries : List RuleEntry),
      (entryErrors strict path entries = [] ↔ ∀ r ∈ registrations t entries, r.Complete) ∧
      ∃ errors, List.Forall₂ (Registered.CallsFor path) (registrations t entries) errors ∧
        entryErrors strict path entries = errors.flatten) ∧
    ∀ (files : FileTree) (path : String) (flags paths : List String),
    ¬(path = "--help" ∨ path = "-h") →
      filesAt files path = some paths → "--strict" ∉ flags →
      ((run files (path :: flags)).code = 0 ↔
        ∃ loads, List.Forall₂ (fun path entries => (RuleFile.load files path).1 =
          .ok entries) paths loads ∧
          ∀ r ∈ registrations (.empty : RuleTable Unit) loads.flatten, r.Complete) := by
  refine ⟨fun H t strict path entries => ⟨entryErrors_eq_nil_iff t strict path entries,
    exists_callsFor t strict path entries⟩, ?_⟩
  intro files path flags paths hpath hfiles hstrict
  have hflag : flags.contains "--strict" = false := by simpa using hstrict
  rw [← flatMap_fileErrors_eq_nil_iff, ← errors_survey]
  rw [run, if_neg hpath, hfiles]
  dsimp only
  rw [hflag]
  cases errors false (survey files paths) with
  | nil => simp
  | cons error more => simp

/-! ### A tree with one file -/

/-- The file `r`, which is in blocks, and nothing else. -/
def oneFile (text : String) : FileTree :=
  .folder [("r", .file text.toUTF8)]

theorem find_oneFile (text : String) : (oneFile text).find "r" = .ok (.file text.toUTF8) :=
  FileTree.find_name (by simp) (List.mem_singleton_self _) (by decide +kernel)

theorem load_oneFile (text : String) :
    (RuleFile.load (oneFile text) "r").1 = .ok (Block.read text).1 := by
  have htext : String.fromUTF8? text.toUTF8 = some text := dif_pos text.isValidUTF8
  have hblocks : Path.extension? "r" ≠ some "ron" := by decide +kernel
  rw [RuleFile.load, FileTree.readText, find_oneFile]
  dsimp only
  rw [htext]
  dsimp only
  rw [RuleFile.ofText, if_neg hblocks]

/-- With a candidate that is no template the run fails, and without it all goes well. -/
theorem run_oneFile :
    filesAt (oneFile "[s]\na\n[b") "r" = some ["r"] ∧ (run (oneFile "[s]\na\n[b") ["r"]).code ≠ 0 ∧
      (run (oneFile "[s]\na\n") ["r", "-v"]).code = 0 := by
  have hfiles : ∀ text, filesAt (oneFile text) "r" = some ["r"] := by
    intro text
    rw [filesAt, find_oneFile]
  refine ⟨hfiles _, fun hcode => ?_, ?_⟩
  · obtain ⟨loads, hloads, hcomplete⟩ :=
      (errors_iff_registrations.2 _ "r" [] _ (by decide) (hfiles _) (by decide)).mp hcode
    obtain ⟨entries, _, hload, ⟨⟩, rfl⟩ := List.forall₂_cons_left_iff.mp hloads
    obtain rfl : entries = [("s", ["a", "[b"])] := by
      rw [load_oneFile] at hload
      rw [← Except.ok.inj hload]
      decide +kernel
    have hall := ((complete_add_iff _ ("s", ["a", "[b"])).mp (hcomplete _ List.mem_cons_self)).2.2
    exact absurd (hall "[b" (by decide)) (by decide +kernel)
  · refine (errors_iff_registrations.2 _ "r" ["-v"] _ (by decide) (hfiles _) (by decide)).mpr
      ⟨[[("s", ["a"])]], .cons ?_ .nil, ?_⟩
    · rw [load_oneFile]
      refine congrArg Except.ok ?_
      decide +kernel
    · intro r hr
      obtain rfl := List.mem_singleton.mp hr
      refine (complete_add_iff _ _).mpr ⟨by decide +kernel, by decide, fun c hc => ?_⟩
      rw [List.mem_singleton.mp hc]
      decide +kernel

end TemplateGrammar.Lint
