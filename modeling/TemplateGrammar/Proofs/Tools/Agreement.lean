import TemplateGrammar.Proofs.Engine.Order
import TemplateGrammar.Proofs.Rules.Latest
import TemplateGrammar.Proofs.Tools.Walks

/-!
# The linter and the shell on one path

The linter and the shell make a rule table of what they find at a path: each registers the
definitions of the files it comes upon, file after file (`table_survey`, `exists_start`).  They come
upon the same files, so the tables have the same names.  What a name stands for is decided by the
last file that defines it, and that is the same file for both exactly if there is no contest over
it; then the candidates are the same, and if there is no contest over any name, so are the findings
(`tables_agree`).
-/

namespace TemplateGrammar

namespace RuleFile

/-- The definitions in a rule file; there are none in a file that cannot be loaded. -/
def definitions (files : FileTree) (path : String) : List (String × Definition Unit) :=
  match (load files path).1 with
  | .ok entries => entries.map fun e => (e.1, .list e.2)
  | .error _ => []

/-- The file has a definition of the name that can be registered. -/
def defines (files : FileTree) (name path : String) : Bool :=
  !(RuleTable.definitionsOf name (definitions files path)).isEmpty

theorem definitions_of_load {files : FileTree} {path : String} {entries : List RuleEntry}
    (h : (load files path).1 = .ok entries) : definitions files path = entries.map fun e =>
    (e.1, .list e.2) := by
  rw [definitions, h]

/-- **The last definition of a name** in some files is in the last file that defines it. -/
theorem getLast?_definitionsOf (files : FileTree) (name : String) (paths : List String) :
    (RuleTable.definitionsOf name (paths.flatMap (definitions files))).getLast? =
      (Walk.lastWith (defines files name) paths).bind fun p =>
        (RuleTable.definitionsOf name (definitions files p)).getLast? := by
  rw [RuleTable.definitionsOf_flatMap]
  induction paths using List.reverseRecOn with
  | nil => rfl
  | append_singleton paths p ih =>
    rw [List.flatMap_append, List.getLast?_append, Walk.lastWith_append, Walk.lastWith_singleton,
      List.flatMap_singleton, ih]
    unfold defines
    cases hp : RuleTable.definitionsOf name (definitions files p) with
    | nil => rfl
    | cons d ds =>
      have hhas : (!(d :: ds).isEmpty) = true := rfl
      rw [if_pos hhas, List.getLast?_cons, Option.some_or, Option.some_or, Option.bind_some, hp,
        List.getLast?_cons]

end RuleFile

/-! ### What is registered -/

theorem Lint.register_eq (t : RuleTable Unit) (entries : List RuleEntry) :
    register t entries = t.registered (entries.map fun e => (e.1, .list e.2)) := by
  rw [RuleTable.registered, List.foldl_map]
  rfl

theorem Lint.table_survey (files : FileTree) (paths : List String) :
    (survey files paths).table = RuleTable.empty.registered
      (paths.flatMap (RuleFile.definitions files)) := by
  have hread : ∀ (s : Survey) (path : String),
      (Survey.read files s path).table = s.table.registered (RuleFile.definitions files path) := by
    intro s path
    unfold Survey.read RuleFile.definitions
    cases (RuleFile.load files path).1 with
    | error fault => rfl
    | ok entries => exact register_eq s.table entries
  have hfold : ∀ s : Survey, (paths.foldl (Survey.read files) s).table =
      s.table.registered (paths.flatMap (RuleFile.definitions files)) := by
    induction paths with
    | nil => exact fun _ => rfl
    | cons path rest ih =>
      intro s
      rw [List.foldl_cons, ih, hread, List.flatMap_cons, RuleTable.registered_append]
  exact hfold .start

namespace Engine

theorem rules_addEntries (e : Engine Unit) (entries : List RuleEntry) :
    (e.addEntries entries).rules = e.rules.registered (entries.map fun e => (e.1, .list e.2)) ∧
      (e.addEntries entries).options = e.options := by
  have hfold : e.addEntries entries = (entries.map fun e => (e.1, Definition.list e.2)).foldl
      offerRule e :=
    (List.foldl_map ..).symm
  obtain ⟨ns, hns⟩ := e.exists_foldl_offerRule (entries.map fun e => (e.1, .list e.2))
  rw [hfold, hns]
  exact ⟨rfl, rfl⟩

/-- **Files that can all be loaded** are registered one after another. -/
theorem exists_loadFiles {files : FileTree} {paths : List String}
    (hload : ∀ p ∈ paths, ∃ entries, (RuleFile.load files p).1 = .ok entries) (e : Engine Unit) :
    ∃ e', loadFiles files paths e = (.ok (), e') ∧
      e'.rules = e.rules.registered (paths.flatMap (RuleFile.definitions files)) ∧
      e'.options = e.options := by
  induction paths generalizing e with
  | nil => exact ⟨e, rfl, rfl, rfl⟩
  | cons path rest ih =>
    obtain ⟨⟨entries, hentries⟩, hrest⟩ := List.forall_mem_cons.mp hload
    obtain ⟨hrules, hoptions⟩ := (e.sayAll (RuleFile.load files path).2).rules_addEntries entries
    obtain ⟨e', hload', hrules', hoptions'⟩ :=
      ih hrest ((e.sayAll (RuleFile.load files path).2).addEntries entries)
    refine ⟨e', ?_, ?_, hoptions'.trans hoptions⟩
    · rw [loadFiles, ← hload']
      split
      · rename_i hfault
        rw [hfault] at hentries
        cases hentries
      · rename_i hok
        rw [hok] at hentries
        obtain rfl := Except.ok.inj hentries
        rw [hok]
    · rw [hrules', hrules, List.flatMap_cons, RuleFile.definitions_of_load hentries,
        RuleTable.registered_append]
      rfl

theorem rules_addStandardModifiers (e : Engine Unit) :
    e.addStandardModifiers.rules = e.rules ∧ e.addStandardModifiers.options = e.options := by
  have hfold : ∀ (ms : List (String × (String → String))) (e : Engine Unit),
      (ms.foldl (fun e m => e.addMethod .modifier m.1 (.ofText m.2)) e).rules = e.rules ∧
        (ms.foldl (fun e m => e.addMethod .modifier m.1 (.ofText m.2)) e).options = e.options := by
    intro ms
    induction ms with
    | nil => exact fun _ => ⟨rfl, rfl⟩
    | cons m rest ih => exact fun e => ih (e.addMethod .modifier m.1 (.ofText m.2))
  exact hfold English.modifiers e

end Engine

namespace Preview

open Walk

/-- **The shell's table:** a session can be opened if all files that the shell comes upon can be
loaded. -/
theorem exists_start {files : FileTree} {path : String} {setup : Setup} (entropy : UInt64)
    (hrules : setup.rules = some path)
    (hload : ∀ p ∈ filesAt files path, ∃ entries, (RuleFile.load files p).1 = .ok entries) :
    ∃ shell out err, start files entropy setup = .ok (shell, out, err) ∧
      shell.engine.rules = RuleTable.empty.registered
        ((filesAt files path).flatMap (RuleFile.definitions files)) ∧
      shell.engine.options = setup.options := by
  obtain ⟨e, hloaded, hrulesE, hoptionsE⟩ := Engine.exists_loadFiles hload
    (.start setup.options (.ofSeed (setup.options.seed.getD entropy)) ())
  obtain ⟨hrulesM, hoptionsM⟩ := e.rules_addStandardModifiers
  obtain ⟨engine, hmade, hengine, hoptions⟩ :
      ∃ engine, Shell.makeEngine files (filesAt files path) setup.options entropy = .ok engine ∧
        engine.rules = e.rules ∧ engine.options = e.options := by
    unfold Shell.makeEngine Plan.build
    dsimp only
    rw [hloaded]
    dsimp only [List.foldl_nil]
    rw [if_pos rfl]
    split
    · exact ⟨_, rfl, hrulesM, hoptionsM⟩
    · exact ⟨_, rfl, hrulesM, hoptionsM⟩
  unfold start
  rw [hrules]
  dsimp only [Option.map_some, Option.getD_some]
  rw [hmade]
  exact ⟨_, _, _, rfl, hengine.trans hrulesE, hoptions.trans hoptionsE⟩

theorem filesAt_cases {files tree : FileTree} {path : String} (hfind : files.find path = .ok tree) :
    (filesAt files path = [path] ∧ Lint.filesAt files path = some [path] ∧ ∃ content,
      tree = .file content) ∨
      (filesAt files path = found path tree ∧
        Lint.filesAt files path = some (Lint.filesIn path tree)) := by
  have hfits := fits_of_find hfind
  unfold filesAt sightings Lint.filesAt
  rw [hfind]
  cases tree with
  | file content =>
    dsimp only
    rw [search, if_pos rfl, if_pos hfits]
    exact .inl ⟨rfl, rfl, content, rfl⟩
  | folder entries =>
    dsimp only
    rw [found, search, search, if_pos hfits, if_pos hfits]
    exact .inr ⟨rfl, rfl⟩

/-- Both come upon the same files, and on the same last file that has something if there is no
contest over it. -/
theorem filesAt_agree {files tree : FileTree} {path : String} {paths : List String}
    (htree : tree.WellFormed) (hfind : files.find path = .ok tree)
    (hpaths : Lint.filesAt files path = some paths)
    (hload : ∀ p ∈ paths, ∃ entries, (RuleFile.load files p).1 = .ok entries) :
    (filesAt files path).Perm paths ∧
      ∀ has, lastWith has (filesAt files path) = lastWith has paths ↔
      contested has path tree = false := by
  rcases filesAt_cases hfind with ⟨hshell, hlint, content, rfl⟩ | ⟨hshell, hlint⟩
  · obtain rfl := Option.some.inj (hlint.symm.trans hpaths)
    rw [hshell]
    exact ⟨.refl _, fun has => ⟨fun _ => by rw [contested], fun _ => rfl⟩⟩
  · obtain rfl := Option.some.inj (hlint.symm.trans hpaths)
    rw [hshell]
    have hhonest := honest_of_load htree (fun _ => hfind) hload
    exact ⟨perm_filesIn hhonest, fun has => lastWith_eq_iff has hhonest htree⟩

/-- **The linter and the shell make tables that agree,** but for contests.  Let a path lead to a
tree in which the linter can load all files that it comes upon.  Then a session of the shell can be
opened on the path, and its table has the same names as the linter's.  For every name the last file
that defines it is the same for both exactly if there is no contest over it, and then the name has
the same candidates.  If there is no contest over any name, the shell lists the findings of the
linter's inspection. -/
theorem tables_agree {files tree : FileTree} {path : String} {paths : List String} {setup : Setup}
    (entropy : UInt64) (htree : tree.WellFormed) (hfind : files.find path = .ok tree)
    (hpaths : Lint.filesAt files path = some paths)
    (hload : ∀ p ∈ paths, ∃ entries, (RuleFile.load files p).1 = .ok entries)
    (hrules : setup.rules = some path) :
    ∃ shell out err, start files entropy setup = .ok (shell, out, err) ∧
      shell.engine.rules.names = (Lint.survey files paths).table.names ∧
      (∀ name,
        (lastWith (RuleFile.defines files name) (filesAt files path) =
          lastWith (RuleFile.defines files name) paths ↔
          contested (RuleFile.defines files name) path tree = false) ∧
        (contested (RuleFile.defines files name) path tree = false →
          shell.engine.rules.candidates name = (Lint.survey files paths).table.candidates name)) ∧
      (setup.options.tagScoping = .flat →
        (∀ name, contested (RuleFile.defines files name) path tree = false) →
        shell.engine.inspect = (Lint.survey files paths).table.inspect true) := by
  obtain ⟨hperm, hlast⟩ := filesAt_agree htree hfind hpaths hload
  obtain ⟨shell, out, err, hstart, htable, hoptions⟩ :=
    exists_start entropy hrules fun p hp => hload p (hperm.subset hp)
  have hdefinitions := hperm.flatMap_right (RuleFile.definitions files)
  -- the last definition of an uncontested name is the same, and every name has as many
  have hget : ∀ name, contested (RuleFile.defines files name) path tree = false →
      shell.engine.rules.get? name = (Lint.survey files paths).table.get? name := by
    intro name hname
    rw [htable, Lint.table_survey]
    refine RuleTable.get?_registered_eq _ (RuleTable.definitionsOf_perm hdefinitions).length_eq ?_
    rw [RuleFile.getLast?_definitionsOf, RuleFile.getLast?_definitionsOf, (hlast _).mpr hname]
  refine ⟨shell, out, err, hstart, ?_, fun name => ⟨hlast _, fun hname => ?_⟩,
    fun hflat hnone => ?_⟩
  · rw [htable, Lint.table_survey, RuleTable.names_registered_of_perm _ hdefinitions]
  · rw [RuleTable.candidates, RuleTable.candidates, hget name hname]
  · rw [Engine.inspect, hoptions, hflat]
    exact RuleTable.inspect_congr (fun name => hget name (hnone name)) _

/-! ### A file and a folder -/

/-- The rules `r` and `s`, of which one mentions the other. -/
def plainText : String := "[r]\nplain\n\n[s]\n#r#\n"

/-- The rule `r`, but mentioning `s`. -/
def loopText : String := "[r]\n#s#\n"

/-- The tree as the folder `g`. -/
def inG (t : FileTree) : FileTree :=
  .folder [("g", t)]

theorem find_inG (t : FileTree) : (inG t).find "g" = .ok t :=
  FileTree.find_name (by simp) (List.mem_singleton_self _) (by decide +kernel)

/-- A file, and behind it a folder with another. -/
def folderLast : FileTree :=
  .folder [("a.txt", .file plainText.toUTF8), ("b", .folder [("x.txt", .file loopText.toUTF8)])]

/-- There is no contest if the folder comes last: both find that the rules mention each other. -/
theorem tables_agree_folderLast :
    folderLast.WellFormed ∧ (inG folderLast).find "g" = .ok folderLast ∧
      Lint.filesAt (inG folderLast) "g" = some ["g/a.txt", "g/b/x.txt"] ∧
      (∀ p ∈ ["g/a.txt", "g/b/x.txt"], ∃ entries,
        (RuleFile.load (inG folderLast) p).1 = .ok entries) ∧
      (∀ name, contested (RuleFile.defines (inG folderLast) name) "g" folderLast = false) ∧
      ∃ shell out err, start (inG folderLast) 0 { rules := some "g" } = .ok (shell, out, err) ∧
        shell.engine.rules.names = ["r", "s"] ∧
        (shell.engine.rules.candidates "r").map Candidate.source = ["#s#"] ∧
        shell.engine.inspect = [.cycle ["r", "s"]] := by
  have htree : folderLast.WellFormed :=
    .cons (by decide +kernel) (by decide) .file
      (.cons (by decide +kernel) (by decide) (.cons (by decide +kernel) (by decide) .file .nil)
        .nil)
  have hpaths : Lint.filesAt (inG folderLast) "g" = some ["g/a.txt", "g/b/x.txt"] := by
    decide +kernel
  have hload : ∀ p ∈ ["g/a.txt", "g/b/x.txt"], ∃ entries,
      (RuleFile.load (inG folderLast) p).1 = .ok entries :=
    List.forall_mem_cons.mpr ⟨⟨[("r", ["plain"]), ("s", ["#r#"])], by decide +kernel⟩,
      List.forall_mem_singleton.mpr ⟨[("r", ["#s#"])], by decide +kernel⟩⟩
  have hnone : ∀ name, contested (RuleFile.defines (inG folderLast) name) "g"
      folderLast = false := by
    intro name
    have hfolder : RuleFile.isRuleFile "b" = false := by decide +kernel
    simp [folderLast, contested, contestedAmong, contestedBeneath, filesRight, fileAt, hfolder]
  obtain ⟨shell, out, err, hstart, hnames, heach, hall⟩ :=
    tables_agree 0 htree (find_inG folderLast) hpaths hload
      (rfl : ({ rules := some "g" } : Setup).rules = some "g")
  refine ⟨htree, find_inG _, hpaths, hload, hnone, shell, out, err, hstart, ?_, ?_, ?_⟩
  · rw [hnames]
    decide +kernel
  · rw [(heach "r").2 (hnone "r")]
    decide +kernel
  · rw [hall rfl hnone]
    decide +kernel

/-- A folder with a file, and behind it another file. -/
def fileLast : FileTree :=
  .folder [("a", .folder [("x.txt", .file loopText.toUTF8)]), ("b.txt", .file plainText.toUTF8)]

/-- If the file comes last, the linter ends in the folder and finds that the rules mention each
other; the shell ends at the file and finds nothing. -/
theorem tables_differ_fileLast :
    fileLast.WellFormed ∧ (inG fileLast).find "g" = .ok fileLast ∧
      Lint.filesAt (inG fileLast) "g" = some ["g/b.txt", "g/a/x.txt"] ∧
      (∀ p ∈ ["g/b.txt", "g/a/x.txt"], ∃ entries,
        (RuleFile.load (inG fileLast) p).1 = .ok entries) ∧
      (∃ shell out err, start (inG fileLast) 0 { rules := some "g" } = .ok (shell, out, err) ∧
        shell.engine.options.tagScoping = .flat ∧
        (shell.engine.rules.candidates "r").map Candidate.source = ["plain"] ∧
          shell.engine.inspect = []) ∧
      (((Lint.survey (inG fileLast) ["g/b.txt", "g/a/x.txt"]).table.candidates "r").map
        Candidate.source = ["#s#"] ∧
        (Lint.survey (inG fileLast) ["g/b.txt", "g/a/x.txt"]).table.inspect true =
          [.cycle ["r", "s"]]) := by
  have htree : fileLast.WellFormed :=
    .cons (by decide +kernel) (by decide) (.cons (by decide +kernel) (by decide) .file .nil)
      (.cons (by decide +kernel) (by decide) .file .nil)
  have hpaths : Lint.filesAt (inG fileLast) "g" = some ["g/b.txt", "g/a/x.txt"] := by decide +kernel
  have hfound : filesAt (inG fileLast) "g" = ["g/a/x.txt", "g/b.txt"] := by decide +kernel
  have hfile : ∃ entries, (RuleFile.load (inG fileLast) "g/b.txt").1 = .ok entries :=
    ⟨[("r", ["plain"]), ("s", ["#r#"])], by decide +kernel⟩
  have hwithin : ∃ entries, (RuleFile.load (inG fileLast) "g/a/x.txt").1 = .ok entries :=
    ⟨[("r", ["#s#"])], by decide +kernel⟩
  have hload : ∀ p ∈ filesAt (inG fileLast) "g", ∃ entries,
      (RuleFile.load (inG fileLast) p).1 = .ok entries := by
    rw [hfound]
    exact List.forall_mem_cons.mpr ⟨hwithin, List.forall_mem_singleton.mpr hfile⟩
  obtain ⟨shell, out, err, hstart, htable, hoptions⟩ :=
    exists_start 0 (rfl : ({ rules := some "g" } : Setup).rules = some "g") hload
  refine ⟨htree, find_inG _, hpaths, List.forall_mem_cons.mpr
    ⟨hfile, List.forall_mem_singleton.mpr hwithin⟩,
    ⟨shell, out, err, hstart, ?_, ?_, ?_⟩, ?_, ?_⟩
  · rw [hoptions]
  · rw [htable, hfound]
    decide +kernel
  · rw [Engine.inspect, htable, hoptions, hfound]
    decide +kernel
  · decide +kernel
  · decide +kernel

end Preview

end TemplateGrammar
