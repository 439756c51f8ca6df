import TemplateGrammar.Text.Blank

/-!
# Commands of the preview shell

A line at the prompt that begins with a colon is a command with up to two arguments, separated by
single spaces; the second runs to the end of the line.  Any other line is a template, unless it is
blank.
-/

namespace TemplateGrammar

/-- What a line at the prompt asks for. -/
inductive Command where
  | template (text : String)
  | quit
  | help
  | rules
  | lint
  | seed (value : Option String)
  | keep (value : Option String)
  | bulk (count template : Option String)
  | unknown (word : String)
  deriving DecidableEq, Repr

namespace Command

/-- A line without the characters that end it. -/
def trimEnd (line : List Char) : List Char :=
  (line.reverse.dropWhile fun c => c == '\r' || c == '\n').reverse

/-- The characters before the first space, and those behind it if there is one. -/
def cut (cs : List Char) : List Char × Option (List Char) :=
  match cs.dropWhile (· != ' ') with
  | [] => (cs, none)
  | _ :: rest => (cs.takeWhile (· != ' '), some rest)

/-- The command with a name and arguments. -/
def ofWord (word : String) (first second : Option String) : Command :=
  match word with
  | "quit" | "exit" | "q" => quit
  | "help" | "h" | "?" => help
  | "rules" => rules
  | "lint" => lint
  | "seed" => seed first
  | "keep" => keep first
  | "bulk" => bulk first second
  | _ => unknown word

/-- The command behind a colon. -/
def ofWords (cs : List Char) : Command :=
  let word := cut cs
  let first := word.2.map cut
  ofWord (String.ofList word.1) (first.map fun w => String.ofList w.1)
    ((first.bind Prod.snd).map String.ofList)

/-- **What a line asks for,** if anything. -/
def ofLine? (line : String) : Option Command :=
  match trimEnd line.toList with
  | ':' :: rest => some (ofWords rest)
  | cs => if cs.all isBlank then none else some (template (String.ofList cs))

end Command

end TemplateGrammar
