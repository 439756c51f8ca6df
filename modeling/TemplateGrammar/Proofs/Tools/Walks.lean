import Mathlib.Data.List.Perm.Basic
import TemplateGrammar.Proofs.Files.Find
import TemplateGrammar.Tools.Lint
import TemplateGrammar.Tools.Preview

/-!
# Two walks through a folder

The linter reads the files right in a folder before those of the folders in it (`Lint.filesIn`); the
shell goes through a folder by name, whether it comes upon a file or upon a folder (`found`).  Both
come upon the same files (`perm_filesIn`), as long as what is named like a rule file is one
(`Honest`), and that is so wherever the linter can load all it reads (`honest_of_load`).

But of several files that have something, the last is not always the same.  `contested` says when:
somewhere on the way to the last of them, the last folder with such a file stands before such a file
that is in no folder.  The linter ends in the folder, and the shell at the file; otherwise both end
at the same file (`lastWith_eq_iff`).
-/

namespace TemplateGrammar.Walk

open Lint

variable {path : String}

/-! ### The files of a folder -/

/-- The rule file that an entry of a folder is, by its name. -/
def fileAt (path : String) (e : String × FileTree) : List String :=
  if RuleFile.isRuleFile e.1 then [Path.join path e.1] else []

/-- The rule files right among some entries of a folder. -/
def filesRight (path : String) (entries : List (String × FileTree)) : List String :=
  entries.flatMap (fileAt path)

theorem filesRight_eq (path : String) (entries : List (String × FileTree)) :
    ((entries.map Prod.fst).filter RuleFile.isRuleFile).map (Path.join path) =
      filesRight path entries := by
  induction entries with
  | nil => rfl
  | cons e rest ih =>
    rw [List.map_cons, List.filter_cons, filesRight, List.flatMap_cons, fileAt]
    split
    · rw [List.map_cons, ih]
      rfl
    · exact ih

theorem filesIn_folder (path : String) (entries : List (String × FileTree)) :
    filesIn path (.folder entries) =
      if Path.fits path then filesRight path entries ++ filesBelow path entries else [] := by
  rw [filesIn, filesRight_eq]

theorem filesBelow_eq (path : String) (entries : List (String × FileTree)) :
    filesBelow path entries = entries.flatMap (filesBeneath path) := by
  induction entries with
  | nil => rfl
  | cons e rest ih => rw [filesBelow, ih, List.flatMap_cons]

/-- What the shell comes upon in a folder. -/
def found (path : String) (t : FileTree) : List String :=
  (Preview.search false path t).filterMap Preview.Sighting.file?

/-- What it comes upon at an entry. -/
def foundAt (path : String) (e : String × FileTree) : List String :=
  (Preview.searchBeneath path e).filterMap Preview.Sighting.file?

theorem found_folder (path : String) (entries : List (String × FileTree)) :
    found path (.folder entries) = if Path.fits path then entries.flatMap (foundAt path)
      else [] := by
  have hamong : ∀ es, (Preview.searchAmong path es).filterMap Preview.Sighting.file? =
      es.flatMap (foundAt path) := by
    intro es
    induction es with
    | nil => rfl
    | cons e rest ih =>
      rw [Preview.searchAmong, List.filterMap_append, ih, List.flatMap_cons]
      rfl
  rw [found, Preview.search]
  split
  · exact hamong entries
  · rfl

/-! ### Honest names -/

/-- **Names are honest** if all that is named like a rule file is a file, with a path that is not
too long; folders that cannot be followed to do not matter. -/
inductive Honest : String → FileTree → Prop
  | file {path : String} {content : ByteArray} : Honest path (.file content)
  | tooLong {path : String} {entries : List (String × FileTree)} (h : Path.fits path = false) :
      Honest path (.folder entries)
  | folder {path : String} {entries : List (String × FileTree)} (hfits : Path.fits path = true)
      (files : ∀ e ∈ entries, RuleFile.isRuleFile e.1 = true →
        e.2.isFolder = false ∧ Path.fits (Path.join path e.1) = true)
      (folders : ∀ e ∈ entries, FileTree.isInside e.1 = true → Honest (Path.join path e.1) e.2) :
      Honest path (.folder entries)

/-- The names for what lies elsewhere are no names of rule files. -/
theorem isInside_of_isRuleFile {name : String} (h : RuleFile.isRuleFile name = true) :
    FileTree.isInside name = true := by
  have hroot : RuleFile.isRuleFile "/" = false := by decide +kernel
  have habove : RuleFile.isRuleFile ".." = false := by decide +kernel
  unfold FileTree.isInside
  rw [Bool.and_eq_true, bne_iff_ne, bne_iff_ne]
  constructor
  · rintro rfl
    exact Bool.false_ne_true (hroot.symm.trans h)
  · rintro rfl
    exact Bool.false_ne_true (habove.symm.trans h)

theorem fits_of_find {root t : FileTree} (h : root.find path = .ok t) : Path.fits path = true := by
  unfold FileTree.find at h
  split at h
  · cases h
  split at h
  · cases h
  · rename_i hfits
    simpa using hfits

theorem find_of_load {root : FileTree} {entries : List RuleEntry}
    (h : (RuleFile.load root path).1 = .ok entries) :
    ∃ content, root.find path = .ok (.file content) := by
  unfold RuleFile.load FileTree.readText at h
  cases hfind : root.find path with
  | error fault => rw [hfind] at h; cases h
  | ok t =>
    cases t with
    | file content => exact ⟨content, rfl⟩
    | folder es => rw [hfind] at h; cases h

/-- **Names are honest where the linter can load all files:** a folder named like a rule file could
not be loaded. -/
theorem honest_of_load {root t : FileTree} (ht : t.WellFormed)
    (hfind : Path.fits path = true → root.find path = .ok t)
    (hload : ∀ p ∈ filesIn path t, ∃ entries, (RuleFile.load root p).1 = .ok entries) :
    Honest path t := by
  induction ht generalizing path with
  | file => exact .file
  | @folder entries distinct names within ih =>
    cases hfits : Path.fits path with
    | false => exact .tooLong hfits
    | true =>
      rw [filesIn_folder, if_pos hfits] at hload
      have hentry : ∀ e ∈ entries, FileTree.isInside e.1 = true →
          Path.fits (Path.join path e.1) = true →
          root.find (Path.join path e.1) = .ok e.2 := fun e he hinside hjoin =>
        FileTree.find_join (hfind hfits) distinct he (names e he hinside) hjoin
      refine .folder hfits (fun e he hname => ?_) (fun e he hinside => ?_)
      · have hinside := isInside_of_isRuleFile hname
        have hmem : Path.join path e.1 ∈ filesRight path entries := by
          refine List.mem_flatMap.mpr ⟨e, he, ?_⟩
          rw [fileAt, if_pos hname]
          exact List.mem_singleton_self _
        obtain ⟨loaded, hloaded⟩ := hload _ (List.mem_append_left _ hmem)
        obtain ⟨content, hcontent⟩ := find_of_load hloaded
        have hjoin := fits_of_find hcontent
        rw [hentry e he hinside hjoin] at hcontent
        refine ⟨?_, hjoin⟩
        rw [Except.ok.inj hcontent]
        rfl
      · refine ih e he hinside (hentry e he hinside) fun p hp =>
          hload p (List.mem_append_right _ ?_)
        rw [filesBelow_eq]
        refine List.mem_flatMap.mpr ⟨e, he, ?_⟩
        rw [filesBeneath, if_pos hinside]
        exact hp

/-- An entry with an honest name: a rule file, on which the shell comes, or something that is none,
in which it goes on. -/
def Plain (path : String) (e : String × FileTree) : Prop :=
  (e.2.isFolder = false ∧ foundAt path e = fileAt path e) ∨
    (fileAt path e = [] ∧ foundAt path e = if FileTree.isInside e.1
      then found (Path.join path e.1) e.2 else [])

theorem plain_entry {e : String × FileTree} (hfile : RuleFile.isRuleFile e.1 = true →
      e.2.isFolder = false ∧ Path.fits (Path.join path e.1) = true) :
    Plain path e := by
  obtain ⟨name, t⟩ := e
  unfold Plain foundAt fileAt Preview.searchBeneath
  cases hname : RuleFile.isRuleFile name with
  | false =>
    refine .inr ⟨rfl, ?_⟩
    dsimp only
    split <;> rfl
  | true =>
    obtain ⟨hfolder, hfits⟩ := hfile hname
    cases t with
    | folder es => cases hfolder
    | file content =>
      rw [if_pos (isInside_of_isRuleFile hname), Preview.search, if_pos rfl, if_pos hfits]
      exact .inl ⟨rfl, rfl⟩

theorem filesBeneath_of_not_isFolder {e : String × FileTree} (h : e.2.isFolder = false) :
    filesBeneath path e = [] := by
  obtain ⟨name, _ | _⟩ := e
  · rw [filesBeneath]
    split <;> rfl
  · cases h

/-! ### The same files -/

theorem Plain.perm {e : String × FileTree} (h : Plain path e) (ih : FileTree.isInside e.1 = true →
      (found (Path.join path e.1) e.2).Perm (filesIn (Path.join path e.1) e.2)) :
    (foundAt path e).Perm (fileAt path e ++ filesBeneath path e) := by
  rcases h with ⟨hfolder, hfound⟩ | ⟨hnone, hfound⟩
  · rw [hfound, filesBeneath_of_not_isFolder hfolder, List.append_nil]
  · rw [hnone, hfound, List.nil_append, filesBeneath]
    split
    · rename_i hinside
      exact ih hinside
    · rfl

theorem perm_among {entries : List (String × FileTree)}
    (h : ∀ e ∈ entries, (foundAt path e).Perm (fileAt path e ++ filesBeneath path e)) :
    (entries.flatMap (foundAt path)).Perm (filesRight path entries ++ filesBelow path entries) := by
  rw [filesRight, filesBelow_eq]
  exact (List.Perm.flatMap_left entries h).trans (List.flatMap_append_perm entries _ _).symm

/-- **Both walks come upon the same files.** -/
theorem perm_filesIn {t : FileTree} (h : Honest path t) : (found path t).Perm (filesIn path t) := by
  induction h with
  | file => rfl
  | tooLong hfits =>
    rw [found_folder, filesIn_folder, hfits]
    rfl
  | folder hfits files folders ih =>
    rw [found_folder, filesIn_folder, if_pos hfits, if_pos hfits]
    exact perm_among fun e he => (plain_entry (files e he)).perm (ih e he)

/-! ### The last file that has something -/

/-- The last of some files that has something. -/
def lastWith (has : String → Bool) (paths : List String) : Option String :=
  (paths.filter has).getLast?

section

variable (has : String → Bool)

theorem lastWith_append (paths more : List String) :
    lastWith has (paths ++ more) = (lastWith has more).or (lastWith has paths) := by
  rw [lastWith, List.filter_append, List.getLast?_append]
  rfl

theorem lastWith_singleton (p : String) : lastWith has [p] = if has p then some p else none := by
  rw [lastWith, List.filter_singleton]
  cases has p <;> rfl

theorem lastWith_eq_none {paths : List String} (h : paths.any has = false) :
    lastWith has paths = none := by
  rw [lastWith, List.filter_eq_nil_iff.mpr (List.any_eq_false.mp h), List.getLast?_nil]

theorem exists_lastWith {paths : List String} (h : paths.any has = true) :
    ∃ p ∈ paths, lastWith has paths = some p := by
  obtain ⟨q, hq, hhas⟩ := List.any_eq_true.mp h
  obtain ⟨p, hp⟩ := Option.isSome_iff_exists.mp
    (List.getLast?_isSome.mpr (List.ne_nil_of_mem (List.mem_filter.mpr ⟨hq, hhas⟩)))
  exact ⟨p, (List.mem_filter.mp (List.mem_of_getLast? hp)).1, hp⟩

mutual

/-- **A contest in a folder** between the two walks over which file is the last to have
something. -/
def contested (path : String) : FileTree → Bool
  | .file _ => false
  | .folder entries => Path.fits path && contestedAmong path entries

/-- A contest among some entries of a folder.  It is decided by the last of them: if that is a
folder, there is a contest if there is one in it; if it is a file, there is one if a folder comes
before it. -/
def contestedAmong (path : String) : List (String × FileTree) → Bool
  | [] => false
  | e :: rest =>
    if (filesBelow path rest).any has then contestedAmong path rest
    else if (filesRight path rest).any has then (filesBeneath path e).any has
    else contestedBeneath path e

/-- A contest in an entry that is a folder. -/
def contestedBeneath (path : String) : String × FileTree → Bool
  | (name, t) => FileTree.isInside name && contested (Path.join path name) t

end

theorem contestedBeneath_of_not_isFolder {e : String × FileTree} (h : e.2.isFolder = false) :
    contestedBeneath has path e = false := by
  obtain ⟨name, _ | _⟩ := e
  · rw [contestedBeneath, contested, Bool.and_false]
  · cases h

/-- Where no folder has it, the last file is the last of those right among the entries. -/
theorem lastWith_of_none_below {entries : List (String × FileTree)}
    (hplain : ∀ e ∈ entries, Plain path e)
    (hperm : ∀ e ∈ entries, (foundAt path e).Perm (fileAt path e ++ filesBeneath path e))
    (hnone : (filesBelow path entries).any has = false) :
    lastWith has (entries.flatMap (foundAt path)) = lastWith has (filesRight path entries) := by
  induction entries with
  | nil => rfl
  | cons e rest ih =>
    obtain ⟨hplainE, hplainRest⟩ := List.forall_mem_cons.mp hplain
    obtain ⟨hpermE, hpermRest⟩ := List.forall_mem_cons.mp hperm
    rw [filesBelow, List.any_append, Bool.or_eq_false_iff] at hnone
    rw [filesRight, List.flatMap_cons, List.flatMap_cons, lastWith_append, lastWith_append,
      ih hplainRest hpermRest hnone.2]
    refine congrArg ((lastWith has (filesRight path rest)).or) ?_
    rcases hplainE with ⟨-, hfound⟩ | ⟨hfile, -⟩
    · rw [hfound]
    · rw [hfile, List.nil_append] at hpermE
      rw [hfile, lastWith_eq_none has (hpermE.any_eq.trans hnone.1)]
      rfl

/-- **The last file among some entries** is the same for both walks if there is no contest, and only
then; by induction on the entries, of which the last is the one that matters. -/
theorem lastWith_among {entries : List (String × FileTree)} (hplain : ∀ e ∈ entries, Plain path e)
    (hperm : ∀ e ∈ entries, (foundAt path e).Perm (fileAt path e ++ filesBeneath path e))
    (hapart : ∀ e ∈ entries, ∀ p ∈ filesBeneath path e, p ∉ filesRight path entries)
    (hsame : ∀ e ∈ entries, lastWith has (foundAt path e) =
      lastWith has (fileAt path e ++ filesBeneath path e) ↔
      contestedBeneath has path e = false) :
    lastWith has (entries.flatMap (foundAt path)) =
      lastWith has (filesRight path entries ++ filesBelow path entries) ↔
      contestedAmong has path entries = false := by
  induction entries with
  | nil => exact ⟨fun _ => rfl, fun _ => rfl⟩
  | cons e rest ih =>
    obtain ⟨-, hplainRest⟩ := List.forall_mem_cons.mp hplain
    obtain ⟨-, hpermRest⟩ := List.forall_mem_cons.mp hperm
    obtain ⟨hsameE, hsameRest⟩ := List.forall_mem_cons.mp hsame
    have hright : filesRight path (e :: rest) = fileAt path e ++ filesRight path rest :=
      List.flatMap_cons ..
    have hapartRest : ∀ e ∈ rest, ∀ p ∈ filesBeneath path e, p ∉ filesRight path rest :=
      fun e he p hp hmem =>
        hapart e (List.mem_cons_of_mem _ he) p hp (hright ▸ List.mem_append_right _ hmem)
    have hrest := ih hplainRest hpermRest hapartRest hsameRest
    rw [lastWith_append] at hrest hsameE
    rw [contestedAmong, List.flatMap_cons, hright, filesBelow, lastWith_append, lastWith_append,
      lastWith_append, lastWith_append]
    by_cases hbelow : (filesBelow path rest).any has = true
    · -- a folder that comes later has it, and decides
      obtain ⟨p, -, hp⟩ := exists_lastWith has hbelow
      have hfound : (rest.flatMap (foundAt path)).any has = true := by
        rw [(perm_among hpermRest).any_eq, List.any_append, hbelow, Bool.or_true]
      obtain ⟨q, -, hq⟩ := exists_lastWith has hfound
      rw [if_pos hbelow, ← hrest, hp, hq]
      rfl
    · have hnone : (filesBelow path rest).any has = false := by simpa using hbelow
      rw [if_neg hbelow, lastWith_of_none_below has hplainRest hpermRest hnone,
        lastWith_eq_none has hnone]
      by_cases hfile : (filesRight path rest).any has = true
      · -- the last that has it is a file right in the folder
        obtain ⟨f, hmem, hf⟩ := exists_lastWith has hfile
        rw [if_pos hfile, hf]
        cases hbeneath : (filesBeneath path e).any has with
        | false =>
          rw [lastWith_eq_none has hbeneath]
          exact ⟨fun _ => rfl, fun _ => rfl⟩
        | true =>
          obtain ⟨p, hp, hlast⟩ := exists_lastWith has hbeneath
          rw [hlast]
          refine ⟨fun heq => ?_, nofun⟩
          obtain rfl : f = p := Option.some.inj heq
          exact absurd (hright ▸ List.mem_append_right _ hmem) (hapart e List.mem_cons_self f hp)
      · -- nothing has it after the entry
        rw [if_neg hfile, lastWith_eq_none has (by simpa using hfile), ← hsameE]
        rfl

/-! ### Files in folders are elsewhere -/

theorem mem_filesRight {entries : List (String × FileTree)} {p : String}
    (h : p ∈ filesRight path entries) :
    ∃ e ∈ entries, RuleFile.isRuleFile e.1 = true ∧ p = Path.join path e.1 := by
  obtain ⟨e, he, hp⟩ := List.mem_flatMap.mp h
  unfold fileAt at hp
  split at hp
  · rename_i hname
    exact ⟨e, he, hname, List.mem_singleton.mp hp⟩
  · cases hp

theorem stem_prefix_of_mem {t : FileTree} (ht : t.WellFormed) {p : String}
    (hp : p ∈ filesIn path t) : Path.stem path <+: p.toList := by
  induction ht generalizing path with
  | file => cases hp
  | @folder entries distinct names within ih =>
    rw [filesIn_folder] at hp
    split at hp
    · rcases List.mem_append.mp hp with hright | hbelow
      · obtain ⟨e, -, -, rfl⟩ := mem_filesRight hright
        rw [Path.toList_join]
        exact List.prefix_append ..
      · rw [filesBelow_eq] at hbelow
        obtain ⟨e, he, hbeneath⟩ := List.mem_flatMap.mp hbelow
        rw [filesBeneath] at hbeneath
        split at hbeneath
        · rename_i hinside
          exact (Path.stem_prefix_stem_join path e.1).trans (ih e he hinside hbeneath)
        · cases hbeneath
    · cases hp

/-- **What lies in a folder among some entries** is none of the files right among them. -/
theorem not_mem_filesRight {entries : List (String × FileTree)}
    (hnames : ∀ e ∈ entries, FileTree.isInside e.1 = true → FileTree.IsName e.1)
    {e : String × FileTree} (he : e ∈ entries)
    (hwithin : FileTree.isInside e.1 = true → e.2.WellFormed) {p : String}
    (hp : p ∈ filesBeneath path e) : p ∉ filesRight path entries := by
  intro hright
  obtain ⟨other, hother, hfile, rfl⟩ := mem_filesRight hright
  rw [filesBeneath] at hp
  split at hp
  · rename_i hinside
    have hname := hnames e he hinside
    have hstem := stem_prefix_of_mem (hwithin hinside) hp
    rw [Path.stem_join path hname.ne_empty hname.no_slash, Path.toList_join, List.append_assoc,
      List.prefix_append_right_inj] at hstem
    exact (hnames other hother (isInside_of_isRuleFile hfile)).no_slash
      (hstem.subset (List.mem_append_right _ (List.mem_singleton_self _)))
  · cases hp

/-- **The two walks end at the same file that has something** exactly if there is no contest over
it. -/
theorem lastWith_eq_iff {t : FileTree} (h : Honest path t) (ht : t.WellFormed) :
    lastWith has (found path t) = lastWith has (filesIn path t) ↔ contested has path t = false := by
  induction h with
  | file => exact ⟨fun _ => rfl, fun _ => rfl⟩
  | tooLong hfits =>
    rw [found_folder, filesIn_folder, contested, hfits]
    exact ⟨fun _ => rfl, fun _ => rfl⟩
  | @folder path entries hfits files folders ih =>
    rw [found_folder, filesIn_folder, contested, if_pos hfits, if_pos hfits, hfits, Bool.true_and]
    cases ht with
    | folder distinct names within =>
      refine lastWith_among has (fun e he => plain_entry (files e he))
        (fun e he => (plain_entry (files e he)).perm fun hinside =>
          perm_filesIn (folders e he hinside))
        (fun e he p hp => not_mem_filesRight names he (within e he) hp) fun e he => ?_
      rcases plain_entry (files e he) with ⟨hfolder, hfound⟩ | ⟨hfile, hfound⟩
      · rw [hfound, filesBeneath_of_not_isFolder hfolder, List.append_nil,
          contestedBeneath_of_not_isFolder has hfolder]
        exact ⟨fun _ => rfl, fun _ => rfl⟩
      · rw [hfile, hfound, List.nil_append, filesBeneath, contestedBeneath]
        split
        · rename_i hinside
          rw [hinside, Bool.true_and]
          exact ih e he hinside (within e he hinside)
        · rename_i hinside
          simp [hinside]

end

end TemplateGrammar.Walk
