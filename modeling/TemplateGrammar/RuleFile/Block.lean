import TemplateGrammar.Log.Notice

/-!
# Rule files in blocks of lines

A rule file in plain text is a sequence of blocks.  A block begins with a header line `[name]`, goes
on with one candidate a line, and ends with an empty line or with the file.  Lines outside of blocks
that are no headers are comments; lines inside a block are candidates, whatever they look like.

The lines of a file are cut into blocks (`Block.ofLines`).  Then the blocks are collected: one whose
name has come before replaces the earlier one at its place (`Block.collect`).
-/

namespace TemplateGrammar

/-- A name and the texts it stands for, in a rule file. -/
abbrev RuleEntry := String × List String

namespace Block

/-- The lines of a file without their line feeds.  Behind the last line feed there is no line unless
something stands there. -/
def split : List Char → List (List Char)
  | [] => []
  | c :: rest =>
    if c = '\n' then [] :: split rest
    else
      match split rest with
      | [] => [[c]]
      | line :: more => (c :: line) :: more

/-- A line without the carriage returns at its end. -/
def trimReturns (line : List Char) : List Char :=
  (line.reverse.dropWhile (· == '\r')).reverse

/-- The name in a header line. -/
def header? : List Char → Option String
  | '[' :: rest =>
    if 1 < rest.length && rest.getLast? == some ']' then some (String.ofList rest.dropLast)
      else none
  | _ => none

/-- The candidates of a block: its lines, or one empty text where it has none. -/
def candidates (body : List (List Char)) : List String :=
  if body.isEmpty then [""] else body.map String.ofList

/-- **The blocks in a list of lines.** -/
def ofLines : List (List Char) → List RuleEntry
  | [] => []
  | line :: rest =>
    match header? line with
    | none => ofLines rest
    | some name =>
      (name, candidates (rest.takeWhile fun l => !l.isEmpty)) ::
        ofLines ((rest.dropWhile fun l => !l.isEmpty).drop 1)
termination_by lines => lines.length
decreasing_by
  · simp
  · have := (List.dropWhile_sublist (l := rest) fun l => !l.isEmpty).length_le
    simp only [List.length_drop, List.length_cons]
    omega

/-- Add an entry; an earlier one of the same name is replaced where it stands. -/
def put (e : RuleEntry) : List RuleEntry → List RuleEntry
  | [] => [e]
  | d :: rest => if d.1 = e.1 then e :: rest else d :: put e rest

/-- One entry for every name. -/
def collect (blocks : List RuleEntry) : List RuleEntry :=
  blocks.foldl (fun entries b => put b entries) []

/-- What is said of the blocks whose names have come before. -/
def complaints (seen : List String) : List RuleEntry → List Notice
  | [] => []
  | b :: rest =>
    if seen.contains b.1 then .nameRepeated b.1 :: complaints seen rest
    else complaints (b.1 :: seen) rest

/-- The blocks of a text, one for every header. -/
def ofText (text : String) : List RuleEntry :=
  ofLines ((split text.toList).map trimReturns)

/-- **Read a rule file in blocks:** its entries, and what is said of it. -/
def read (text : String) : List RuleEntry × List Notice :=
  (collect (ofText text), complaints [] (ofText text))

end Block

end TemplateGrammar
