import TemplateGrammar.Tools.Lint
import TemplateGrammar.Tools.Preview

/-!
# The command line

The first argument names the tool, `grammar_linter` or `preview`; the others are the tool's own.
What the arguments name is read from disk before the tool starts, and the tool works on the tree of
what was read.
-/

namespace TemplateGrammar.CommandLine

/-- The place in a tree where a path is put. -/
def partsOf (path : String) : List String :=
  (if Path.isAbsolute path then ["/"] else []) ++ (Path.parts path).filter fun p =>
    p != "" && p != "."

/-- Read what a path stands for into a tree. -/
def readInto (files : FileTree) (path : String) : IO FileTree := do
  let top := (← IO.currentDir) / path
  let mut tree := files
  if ← top.isDir then
    tree := tree.addFolder (partsOf path)
    for found in ← top.walkDir do
      let rest := (found.toString.drop top.toString.length).dropWhile (· == '/')
      let below := partsOf path ++ partsOf rest.toString
      if ← found.isDir then
        tree := tree.addFolder below
      else
        tree := tree.addFile below (← IO.FS.readBinFile found)
  else if ← top.pathExists then
    tree := tree.addFile (partsOf path) (← IO.FS.readBinFile top)
  return tree

/-- Read everything that some arguments name. -/
def gather (arguments : List String) : IO FileTree :=
  arguments.foldlM readInto FileTree.empty

/-- Print what a tool said, and leave with its code. -/
def finish (e : Exit) : IO UInt32 := do
  IO.print e.out
  IO.eprint e.err
  return e.code.toUInt32

/-- The next line of the input, or nothing at its end. -/
def nextLine? : IO (Option String) := do
  try
    let line ← (← IO.getStdin).getLine
    return if line.isEmpty then none else some line
  catch _ =>
    return none

/-- Answer lines until the session is over. -/
def converse (shell : Shell) : IO Unit := do
  let mut current := some shell
  repeat
    match current with
    | none => break
    | some s =>
      IO.print Shell.prompt
      (← IO.getStdout).flush
      match ← nextLine? with
      | none => break
      | some line =>
        let reply := s.respond line
        IO.print reply.out
        IO.eprint reply.err
        current := reply.shell

/-- Run the preview shell. -/
def preview (arguments : List String) : IO UInt32 := do
  let entropy := (← IO.getRandomBytes 8).toUInt64LE!
  match Preview.openSession (← gather arguments) entropy arguments with
  | .error e => finish e
  | .ok (shell, out, err) =>
    IO.eprint err
    IO.print out
    converse shell
    return 0

end TemplateGrammar.CommandLine

open TemplateGrammar in
/-- Run a tool. -/
def main (arguments : List String) : IO UInt32 := do
  match arguments with
  | "grammar_linter" :: rest => CommandLine.finish (Lint.run (← CommandLine.gather rest) rest)
  | "preview" :: rest => CommandLine.preview rest
  | _ =>
    IO.eprint "Usage: grammar_linter <rules_path> [--strict] | preview --rules <path>\n"
    return 2
