import Mathlib.Data.List.Nodup
import TemplateGrammar.RuleFile.Load

/-!
# What a joined path leads to

A folder in a file system has entries of different names, and each name is one part of a path
(`FileTree.WellFormed`).  What lies in such a folder is found at the path of the folder joined with
its name, if that path is not too long to be followed (`FileTree.find_join`).
-/

namespace TemplateGrammar

namespace Path

/-- What stands before the names in a folder: its path, up to and with a slash. -/
def stem (folder : String) : List Char :=
  if folder.endsWith '/' then folder.toList else folder.toList ++ ['/']

theorem toList_join (folder name : String) :
    (join folder name).toList = stem folder ++ name.toList := by
  unfold join stem
  split <;> simp

theorem stem_cases (folder : String) :
    ∃ front, stem folder = front ++ ['/'] ∧
    (folder.toList = front ∨ folder.toList = front ++ ['/']) := by
  unfold stem
  split
  · rename_i hslash
    obtain ⟨front, rfl⟩ := String.endsWith_char_iff_exists_append.mp hslash
    exact ⟨front.toList, by simp, .inr (by simp)⟩
  · exact ⟨folder.toList, rfl, .inl rfl⟩

theorem stem_prefix_stem_join (folder name : String) : stem folder <+: stem (join folder name) := by
  rw [stem.eq_def (join folder name), toList_join]
  split
  · exact List.prefix_append ..
  · exact (List.prefix_append ..).trans (List.prefix_append ..)

theorem stem_join (folder : String) {name : String} (hne : name ≠ "") (hslash : '/' ∉ name.toList) :
    stem (join folder name) = stem folder ++ name.toList ++ ['/'] := by
  rw [stem.eq_def (join folder name), toList_join]
  split
  · rename_i hend
    obtain ⟨front, hfront⟩ := String.endsWith_char_iff_exists_append.mp hend
    have hlist : stem folder ++ name.toList = front.toList ++ ['/'] := by
      rw [← toList_join, hfront]
      simp
    have hlast := congrArg List.getLast? hlist
    rw [List.getLast?_concat, List.getLast?_append_of_ne_nil _ (by simpa using hne)] at hlast
    exact absurd (List.mem_of_getLast? hlast) hslash
  · rfl

theorem isAbsolute_join {folder : String} (h : folder ≠ "") (name : String) :
    isAbsolute (join folder name) = isAbsolute folder := by
  obtain ⟨c, rest, hfolder⟩ : ∃ c rest, folder.toList = c :: rest :=
    List.exists_cons_of_ne_nil (by simpa using h)
  obtain ⟨more, hstem⟩ : ∃ more, stem folder = c :: more := by
    unfold stem
    rw [hfolder]
    split
    · exact ⟨rest, rfl⟩
    · exact ⟨rest ++ ['/'], rfl⟩
  unfold isAbsolute
  rw [Bool.eq_iff_iff, String.startsWith_string_iff, String.startsWith_string_iff, toList_join,
    hfolder, hstem]
  simp

/-- **The parts of a joined path** end with the name; if the folder was written with a slash at its
end, there was an empty part in that place. -/
theorem parts_join (folder : String) {name : String} (hname : '/' ∉ name.toList) :
    ∃ front, parts (join folder name) = front ++ [name] ∧
      (parts folder = front ∨ parts folder = front ++ [""]) := by
  obtain ⟨front, hstem, hfolder⟩ := stem_cases folder
  refine ⟨(front.splitOn '/').map String.ofList, ?_, ?_⟩
  · rw [parts, toList_join, hstem, List.append_assoc, List.singleton_append,
      List.splitOn_append_cons_self,
      List.splitOn_eq_singleton hname, List.map_append, List.map_singleton, String.ofList_toList]
  · unfold parts
    rcases hfolder with hfolder | hfolder
    · exact .inl (by rw [hfolder])
    · refine .inr ?_
      rw [hfolder, List.splitOn_append_cons_self, List.map_append]
      rfl

end Path

namespace FileTree

/-- The name of something in a folder: one part of a path, which leads down. -/
structure IsName (name : String) : Prop where
  ne_empty : name ≠ ""
  ne_here : name ≠ "."
  ne_above : name ≠ ".."
  no_slash : '/' ∉ name.toList
  short : name.utf8ByteSize ≤ maxName

instance (name : String) : Decidable (IsName name) :=
  decidable_of_iff (name ≠ "" ∧ name ≠ "." ∧ name ≠ ".." ∧ '/' ∉ name.toList ∧
    name.utf8ByteSize ≤ maxName)
    ⟨fun ⟨h₁, h₂, h₃, h₄, h₅⟩ => ⟨h₁, h₂, h₃, h₄, h₅⟩, fun ⟨h₁, h₂, h₃, h₄, h₅⟩ =>
      ⟨h₁, h₂, h₃, h₄, h₅⟩⟩

/-- **A tree as a file system has it:** the entries of a folder that lie inside it have names, all
of them different. -/
inductive WellFormed : FileTree → Prop
  | file {content : ByteArray} : WellFormed (.file content)
  | folder {entries : List (String × FileTree)} (distinct : (entries.map Prod.fst).Nodup)
      (names : ∀ e ∈ entries, isInside e.1 = true → IsName e.1)
      (within : ∀ e ∈ entries, isInside e.1 = true → WellFormed e.2) : WellFormed (.folder entries)

theorem WellFormed.nil : WellFormed (.folder []) :=
  .folder .nil nofun nofun

theorem WellFormed.cons {name : String} {t : FileTree} {entries : List (String × FileTree)}
    (hname : IsName name) (hnew : name ∉ entries.map Prod.fst) (ht : t.WellFormed)
    (h : WellFormed (.folder entries)) :
    WellFormed (.folder ((name, t) :: entries)) := by
  cases h with
  | folder distinct names within =>
    exact .folder (List.nodup_cons.mpr ⟨hnew, distinct⟩)
      (List.forall_mem_cons.mpr ⟨fun _ => hname, names⟩)
        (List.forall_mem_cons.mpr ⟨fun _ => ht, within⟩)

theorem follow_empty_bind (p : Place) (name : String) :
    (follow p "" >>= fun q => follow q name) = follow p name := by
  obtain ⟨here, above⟩ := p
  cases here <;> rfl

theorem foldlM_follow_join (p : Place) (folder : String) {name : String}
    (hname : '/' ∉ name.toList) : (Path.parts (Path.join folder name)).foldlM follow p =
      (Path.parts folder).foldlM follow p >>= fun q => follow q name := by
  have hlast : ∀ (front : List String) (part : String), (front ++ [part]).foldlM follow p =
      front.foldlM follow p >>= fun q => follow q part := fun front part => by
    rw [List.foldlM_append]
    exact congrArg (front.foldlM follow p >>= ·) (funext fun q => bind_pure (follow q part))
  obtain ⟨front, hjoin, hfolder | hfolder⟩ := Path.parts_join folder hname
  · rw [hfolder, hjoin, hlast]
  · rw [hfolder, hjoin, hlast, hlast, bind_assoc]
    exact congrArg (front.foldlM follow p >>= ·) (funext fun q => (follow_empty_bind q name).symm)

theorem follow_of_mem {entries : List (String × FileTree)} (above : List FileTree) {name : String}
    {t : FileTree} (hdistinct : (entries.map Prod.fst).Nodup) (he : (name, t) ∈ entries)
    (hname : IsName name) :
    follow ⟨.folder entries, above⟩ name = .ok ⟨t, .folder entries :: above⟩ := by
  have hlookup : entries.lookup name = some t := by
    obtain ⟨front, rest, rfl⟩ := List.append_of_mem he
    refine List.lookup_eq_some_iff.mpr ⟨front, rest, rfl, fun e hfront => ?_⟩
    rw [List.map_append, List.map_cons] at hdistinct
    have hne := (List.nodup_append.mp hdistinct).2.2 e.1 (List.mem_map_of_mem hfront) name
      List.mem_cons_self
    simpa using hne.symm
  unfold follow
  dsimp only
  rw [if_neg (by simp [hname.ne_empty, hname.ne_here]), if_neg hname.ne_above,
    if_neg (Nat.not_lt.mpr hname.short), hlookup]

/-- **What lies in a folder is found** at the path of the folder joined with its name. -/
theorem find_join {root : FileTree} {folder : String} {entries : List (String × FileTree)}
    (hfind : root.find folder = .ok (.folder entries)) (hdistinct : (entries.map Prod.fst).Nodup)
    {name : String} {t : FileTree} (he : (name, t) ∈ entries) (hname : IsName name)
    (hfits : Path.fits (Path.join folder name) = true) :
    root.find (Path.join folder name) = .ok t := by
  have hjoin : Path.join folder name ≠ "" := by
    intro hempty
    obtain ⟨front, hstem, -⟩ := Path.stem_cases folder
    have hlist := Path.toList_join folder name
    rw [hempty, hstem] at hlist
    simp at hlist
  unfold find at hfind ⊢
  split at hfind
  · cases hfind
  rename_i hfolder
  split at hfind
  · cases hfind
  rw [if_neg hjoin, hfits, if_neg (by decide)]
  dsimp only at hfind ⊢
  rw [Path.isAbsolute_join hfolder, foldlM_follow_join _ _ hname.no_slash]
  cases hway : (Path.parts folder).foldlM follow
      ⟨if Path.isAbsolute folder = true then (root.entries.lookup "/").getD empty
        else root, []⟩ with
  | error fault =>
    rw [hway] at hfind
    cases hfind
  | ok p =>
    rw [hway] at hfind
    obtain ⟨here, above⟩ := p
    obtain rfl : here = .folder entries := Except.ok.inj hfind
    show (follow ⟨.folder entries, above⟩ name).map Place.here = .ok t
    rw [follow_of_mem above hdistinct he hname]
    rfl

theorem find_name {entries : List (String × FileTree)} (hdistinct : (entries.map Prod.fst).Nodup)
    {name : String} {t : FileTree} (he : (name, t) ∈ entries) (hname : IsName name) :
    (folder entries).find name = .ok t := by
  have hfits : Path.fits name = true := by
    have hshort := hname.short
    unfold maxName at hshort
    unfold Path.fits Path.maxBytes
    exact decide_eq_true (Nat.le_trans hshort (by decide))
  have hrelative : Path.isAbsolute name = false := by
    rw [Bool.eq_false_iff]
    intro hstart
    exact hname.no_slash ((String.startsWith_string_iff.mp hstart).subset (by simp))
  have hparts : Path.parts name = [name] := by
    rw [Path.parts, List.splitOn_eq_singleton hname.no_slash, List.map_singleton,
      String.ofList_toList]
  rw [find, if_neg hname.ne_empty, hfits, hrelative, hparts]
  show ((follow ⟨.folder entries, []⟩ name >>= pure).map Place.here) = .ok t
  rw [follow_of_mem [] hdistinct he hname]
  rfl

end FileTree

end TemplateGrammar
