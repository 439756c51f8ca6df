import TemplateGrammar.Files.Path

/-!
# Trees of files

The files that a tool can see, as a value: a file with its bytes, or a folder with its entries in
order of name.  A path is followed from the root of a tree part by part.

A path that begins with a slash is followed from the entry `/` of the root; in a tree that has no
such entry it leads to nothing but an empty folder.  In the same way an entry `..` of a folder,
where there is one, is what lies above it; above a root without one lies the root itself.
-/

namespace TemplateGrammar

/-- A file or a folder. -/
inductive FileTree where
  | file (content : ByteArray)
  | folder (entries : List (String × FileTree))

/-- Why a file cannot be read. -/
inductive FileFault where
  | notFound
  | notFolder
  | isFolder
  | nameTooLong
  | notText
  /-- the file can be read, but it is not in object notation -/
  | malformed
  deriving DecidableEq, Repr

/-- The wording of a fault. -/
def FileFault.message : FileFault → String
  | notFound => "IO error: No such file or directory (os error 2)"
  | notFolder => "IO error: Not a directory (os error 20)"
  | isFolder => "IO error: Is a directory (os error 21)"
  | nameTooLong => "IO error: File name too long (os error 36)"
  | notText => "IO error: stream did not contain valid UTF-8"
  | malformed => "RON deserialization error: the file is not in the notation expected of it"

namespace FileTree

/-- A tree without files. -/
def empty : FileTree := folder []

/-- It is a folder. -/
def isFolder : FileTree → Bool
  | folder _ => true
  | file _ => false

/-- The entries of a folder. -/
def entries : FileTree → List (String × FileTree)
  | folder es => es
  | file _ => []

/-- The name of something that lies in its folder; the entries `/` and `..` say what lies
elsewhere. -/
def isInside (name : String) : Bool :=
  name != "/" && name != ".."

/-! ### Following a path -/

/-- The most bytes that the name of an entry may have. -/
def maxName : Nat := 255

/-- A place in a tree, with the folders above it, the nearest first. -/
structure Place where
  here : FileTree
  above : List FileTree

/-- Follow one part of a path. -/
def follow (p : Place) (part : String) : Except FileFault Place :=
  match p.here with
  | file _ => .error .notFolder
  | folder es =>
    if part = "" ∨ part = "." then .ok p
    else if part = ".." then
      match es.lookup "..", p.above with
      | some t, _ => .ok ⟨t, []⟩
      | none, parent :: rest => .ok ⟨parent, rest⟩
      | none, [] => .ok p
    else if maxName < part.utf8ByteSize then .error .nameTooLong
    else
      match es.lookup part with
      | some t => .ok ⟨t, p.here :: p.above⟩
      | none => .error .notFound

/-- **What a path leads to.** -/
def find (root : FileTree) (path : String) : Except FileFault FileTree :=
  if path = "" then .error .notFound
  else if !Path.fits path then .error .nameTooLong
  else
    let start := if Path.isAbsolute path then (root.entries.lookup "/").getD empty else root
    ((Path.parts path).foldlM follow ⟨start, []⟩).map Place.here

/-- The text of a file. -/
def readText (root : FileTree) (path : String) : Except FileFault String :=
  match root.find path with
  | .error e => .error e
  | .ok (folder _) => .error .isFolder
  | .ok (file content) =>
    match String.fromUTF8? content with
    | some s => .ok s
    | none => .error .notText

/-- The names of what lies in a folder, in order. -/
def list (root : FileTree) (path : String) : Except FileFault (List String) :=
  match root.find path with
  | .error e => .error e
  | .ok (file _) => .error .notFolder
  | .ok (folder es) => .ok ((es.map Prod.fst).filter isInside)

/-! ### Making a tree -/

/-- Put an entry at its place in order of name. -/
def putEntry (name : String) (t : FileTree) : List (String × FileTree) → List (String × FileTree)
  | [] => [(name, t)]
  | e :: rest =>
    if name < e.1 then (name, t) :: e :: rest
    else if name = e.1 then (name, t) :: rest
    else e :: putEntry name t rest

/-- Change what the parts lead to; folders that are missing on the way are made. -/
def alter (f : Option FileTree → FileTree) : List String → Option FileTree → FileTree
  | [], old => f old
  | name :: rest, old =>
    let es := (old.map entries).getD []
    folder (putEntry name (alter f rest (es.lookup name)) es)

/-- Write a file. -/
def addFile (root : FileTree) (parts : List String) (content : ByteArray) : FileTree :=
  alter (fun _ => file content) parts (some root)

/-- Make a folder, unless there is one. -/
def addFolder (root : FileTree) (parts : List String) : FileTree :=
  alter (fun old => folder ((old.map entries).getD [])) parts (some root)

end FileTree

end TemplateGrammar
