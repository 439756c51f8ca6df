/-!
# Paths

A path is a text of parts with slashes between them.  Nothing here looks at files.
-/

namespace TemplateGrammar.Path

/-- The parts of a path. -/
def parts (path : String) : List String :=
  (path.toList.splitOn '/').map String.ofList

/-- The path of something in a folder. -/
def join (folder name : String) : String :=
  if folder.endsWith '/' then folder ++ name else folder ++ "/" ++ name

/-- The most bytes that a path may have. -/
def maxBytes : Nat := 4095

/-- The path is short enough to be followed. -/
def fits (path : String) : Bool :=
  path.utf8ByteSize ≤ maxBytes

/-- The path begins at the root of all files. -/
def isAbsolute (path : String) : Bool :=
  path.startsWith "/"

/-- The name of what a path leads to; a path that ends by going up has none. -/
def name? (path : String) : Option String :=
  match ((parts path).filter fun p => p != "" && p != ".").getLast? with
  | some ".." => none
  | last => last

/-- The characters behind the last point, if something stands before it. -/
def extensionOf (name : List Char) : Option String :=
  let after := name.reverse.takeWhile (· != '.')
  if after.length + 1 < name.length then some (String.ofList after.reverse) else none

/-- **The extension of a path.**  A name that has no point but at its beginning has none. -/
def extension? (path : String) : Option String :=
  (name? path).bind fun n => extensionOf n.toList

end TemplateGrammar.Path
