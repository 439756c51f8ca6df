import TemplateGrammar.Decimal.Numeral
import TemplateGrammar.Engine.Plan
import TemplateGrammar.Tools.Command
import TemplateGrammar.Tools.Variety

/-!
# The preview shell

The shell makes an engine of rule files and options and expands templates at a prompt.  It is a
value (`Shell`) and answers a line with a reply (`Shell.respond`); `Preview.run` is a whole session
over an input that is known.
-/

namespace TemplateGrammar

/-- A session at the prompt. -/
structure Shell where
  files : FileTree
  paths : List String
  options : Options
  engine : Engine Unit
  keep : Bool

/-- What the shell answers to a line; a session that is over has no shell. -/
structure Reply where
  out : String
  err : String
  shell : Option Shell

namespace Shell

/-- The commands and what they do. -/
def helpText : String :=
  linesOf
    ["Any other line is expanded as a template.",
      "  :rules            list loaded rules",
      "  :seed <n>         reseed and rebuild the engine",
      "  :keep on|off      keep tags and runtime rules between lines",
      "  :bulk <n> <text>  expand a template n times with variety stats",
      "  :lint             show analysis findings",
      "  :help             list commands",
      "  :quit             exit"]

/-- Say something and go on. -/
def say (s : Shell) (text : String) : Reply :=
  ⟨lineOf text, "", some s⟩

/-- The rules and how many candidates they have. -/
def showRules (s : Shell) : String :=
  linesOf (s.engine.rules.names.map fun name =>
    "  " ++ name ++ " (" ++ toString (s.engine.rules.candidates name).length ++ " candidate(s))")

/-- The findings about the rules. -/
def showFindings (s : Shell) : String :=
  if s.engine.inspect.isEmpty then "No findings.\n"
  else linesOf (s.engine.inspect.map fun f => "  " ++ f.message)

/-- The engine made of files and options, with the standard modifiers. -/
def makeEngine (files : FileTree) (paths : List String) (options : Options) (entropy : UInt64) :
    Except FileFault (Engine Unit) :=
  let plan : Plan Unit := ⟨options, paths, [], true⟩
  match plan.build files entropy () with
  | (.ok _, e) => .ok e
  | (.error fault, _) => .error fault

/-- What is said when no engine can be made. -/
def buildFailure (fault : FileFault) : String :=
  lineOf ("ERROR building engine: grammar error: " ++ fault.message)

/-- Start again with another seed. -/
def reseed (s : Shell) (n : Nat) : Reply :=
  let options := { s.options with seed := some (UInt64.ofNat n) }
  match makeEngine s.files s.paths options 0 with
  | .ok engine => { s with options, engine }.say ("Seed set to " ++ toString n)
  | .error fault => ⟨"", buildFailure fault, some { s with options }⟩

/-- Show the seed, or take another. -/
def seed (s : Shell) : Option String → Reply
  | none => s.say ("Current seed: " ++ Options.shownSeed s.options.seed)
  | some value =>
    match Numeral.read? value with
    | some n => s.reseed n
    | none => s.say ("Invalid seed: " ++ value)

/-- Keep tags and rules of the run between lines, or not. -/
def keeping (s : Shell) : Option String → Reply
  | some "on" => { s with keep := true }.say "Keeping tags and runtime rules between lines."
  | some "off" => { s with keep := false }.say "Each line starts from a clean context."
  | _ => s.say ("Usage: :keep on|off (currently " ++ (if s.keep then "on" else "off") ++ ")")

/-- Expand a template many times. -/
def bulk (s : Shell) (count template : Option String) : Reply :=
  match count, template with
  | some count, some template =>
    match Numeral.read? count with
    | none | some 0 => s.say ("Invalid count: " ++ count)
    | some n =>
      match Engine.expandTimes template false n s.engine with
      | (outputs, engine) => ⟨Variety.report outputs, "", some { s with engine }⟩
  | _, _ => s.say "Usage: :bulk <n> <template>"

/-- Carry out a command. -/
def obey (s : Shell) : Command → Reply
  | .template text =>
    match s.engine.expand text s.keep with
    | (out, engine) => { s with engine }.say out
  | .quit => ⟨"Goodbye.\n", "", none⟩
  | .help => ⟨helpText, "", some s⟩
  | .rules => ⟨s.showRules, "", some s⟩
  | .lint => ⟨s.showFindings, "", some s⟩
  | .seed value => s.seed value
  | .keep value => s.keeping value
  | .bulk count template => s.bulk count template
  | .unknown word => s.say ("Unknown command ':" ++ word ++ "'. Type ':help' for commands.")

/-- Nobody looks at what the engine notes down. -/
def tidy (s : Shell) : Shell :=
  { s with engine := s.engine.takeNotices.2 }

/-- **Answer a line.**  A blank line has no answer. -/
def respond (s : Shell) (line : String) : Reply :=
  match Command.ofLine? line with
  | none => ⟨"", "", some s⟩
  | some c =>
    match s.obey c with
    | ⟨out, err, shell⟩ => ⟨out, err, shell.map tidy⟩

/-- What stands before every line. -/
def prompt : String := "preview> "

/-- **A session over some lines,** given as bytes.  It ends early at a line that is no text. -/
def session : List ByteArray → Shell → String × String
  | [], _ => (prompt, "")
  | bytes :: rest, s =>
    match String.fromUTF8? bytes with
    | none => (prompt, "")
    | some line =>
      match s.respond line with
      | ⟨out, err, none⟩ => (prompt ++ out, err)
      | ⟨out, err, some s⟩ =>
        match session rest s with
        | (moreOut, moreErr) => (prompt ++ out ++ moreOut, err ++ moreErr)

end Shell

namespace Preview

/-- How the shell is called. -/
def usage : String :=
  linesOf
    ["Usage: preview --rules <path> [--seed <n>] [--options <file.ron>]",
      "               [--hierarchical] [--depth <n>] [--log <level>]",
      "",
      "  --rules <path>      rule file (.ron or .txt) or directory",
      "  --seed <n>          RNG seed (default 42)",
      "  --options <file>    engine options in RON",
      "  --hierarchical      scope tags by expansion depth",
      "  --depth <n>         maximum rule nesting (default 256)",
      "  --log <level>       none, errors, warnings, info or verbose"]

/-- What the arguments of the shell ask for, and what was said of them. -/
structure Setup where
  rules : Option String := none
  options : Options := { seed := some 42, logLevel := .warnings }
  said : String := ""

/-- Options from a file. -/
def loadOptions (files : FileTree) (path : String) : Except FileFault Options :=
  match files.readText path with
  | .error fault => .error fault
  | .ok text =>
    match Options.ofRon? text with
    | some o => .ok o
    | none => .error .malformed

/-- An argument that there is not. -/
def refuse (s : Setup) (flag : String) : Exit :=
  ⟨1, usage, s.said ++ lineOf ("Unknown argument: " ++ flag)⟩

/-- Take an argument with its value. -/
def withValue (files : FileTree) (s : Setup) (flag value : String) : Except Exit Setup :=
  match flag with
  | "--rules" => .ok { s with rules := some value }
  | "--options" =>
    match loadOptions files value with
    | .ok options => .ok { s with options }
    | .error fault =>
      .error ⟨1, "", s.said ++ lineOf ("ERROR loading options " ++ value ++ ": " ++ fault.message)⟩
  | "--seed" =>
    .ok { s with
      options := { s.options with seed := some (UInt64.ofNat ((Numeral.read? value).getD 42)) } }
  | "--depth" =>
    .ok { s with
      options := { s.options with maxLevel := (Numeral.read? value).getD s.options.maxLevel } }
  | "--log" =>
    match LogLevel.ofName? value with
    | some logLevel => .ok { s with options := { s.options with logLevel } }
    | none => .ok { s with said := s.said ++ lineOf ("Unknown log level: " ++ value) }
  | _ => .error (refuse s flag)

/-- **Read the arguments,** from left to right. -/
def readArguments (files : FileTree) : List String → Setup → Except Exit Setup
  | [], s => .ok s
  | flag :: rest, s =>
    if flag = "--hierarchical" then
      readArguments files rest { s with options := { s.options with tagScoping := .layered } }
    else
      match rest with
      | [] => .error (refuse s flag)
      | value :: more =>
        match withValue files s flag value with
        | .ok s => readArguments files more s
        | .error e => .error e

/-- What the search for rule files comes upon: a file, or a path that leads nowhere. -/
inductive Sighting where
  | file (path : String)
  | nowhere (path : String)
  deriving DecidableEq, Repr

/-- The file that has been found. -/
def Sighting.file? : Sighting → Option String
  | file path => some path
  | nowhere _ => none

/-- The path that leads nowhere. -/
def Sighting.nowhere? : Sighting → Option String
  | file _ => none
  | nowhere path => some path

mutual

/-- What is found at a path that stands for a file or a folder, in order of name.  A file is looked
for only if it is `wanted`; a path that is too long to be followed leads nowhere, and counts if it
is wanted. -/
def search (wanted : Bool) (path : String) : FileTree → List Sighting
  | .file _ => if wanted then [if Path.fits path then .file path else .nowhere path] else []
  | .folder entries =>
    if Path.fits path then searchAmong path entries else if wanted then [.nowhere path] else []

/-- What is found among the entries of a folder. -/
def searchAmong (path : String) : List (String × FileTree) → List Sighting
  | [] => []
  | e :: rest => searchBeneath path e ++ searchAmong path rest

/-- What is found at an entry of a folder. -/
def searchBeneath (path : String) : String × FileTree → List Sighting
  | (name, t) =>
    if FileTree.isInside name then search (RuleFile.isRuleFile name) (Path.join path name) t else []

end

/-- **What the search finds at a path.** -/
def sightings (files : FileTree) (path : String) : List Sighting :=
  match files.find path with
  | .error _ => [.nowhere path]
  | .ok t => search true path t

/-- The rule files that a path stands for. -/
def filesAt (files : FileTree) (path : String) : List String :=
  (sightings files path).filterMap Sighting.file?

/-- What is said of the paths that lead nowhere. -/
def complaints (files : FileTree) (path : String) : String :=
  linesOf (((sightings files path).filterMap Sighting.nowhere?).map fun p =>
    "Rules path not found: " ++ p)

/-- What is said at the start of a session. -/
def greeting (s : Shell) : String :=
  lineOf ("Loaded " ++ toString s.engine.rules.size ++ " rules") ++
    (match s.options.seed with
      | some n => lineOf ("Seed: " ++ toString n.toNat)
      | none => "") ++
    "Type ':help' for commands.\n\n"

/-- **Open a session:** the shell, and what is said first. -/
def start (files : FileTree) (entropy : UInt64) (s : Setup) :
    Except Exit (Shell × String × String) :=
  let paths := (s.rules.map (filesAt files)).getD []
  let said := s.said ++ (s.rules.map (complaints files)).getD ""
  match Shell.makeEngine files paths s.options entropy with
  | .error fault => .error ⟨1, "", said ++ Shell.buildFailure fault⟩
  | .ok engine =>
    let shell : Shell := Shell.tidy ⟨files, paths, s.options, engine, false⟩
    .ok (shell, greeting shell, said)

/-- Open a session with the arguments of a command line. -/
def openSession (files : FileTree) (entropy : UInt64) (arguments : List String) :
    Except Exit (Shell × String × String) :=
  if arguments.isEmpty || arguments.head? == some "--help" || arguments.head? == some "-h" then
    .error ⟨0, usage, ""⟩
  else
    match readArguments files arguments {} with
    | .error e => .error e
    | .ok setup => start files entropy setup

/-- The lines in some bytes, each with the line feed that ends it. -/
def linesIn : List UInt8 → List (List UInt8)
  | [] => []
  | b :: rest =>
    if b = 10 then [b] :: linesIn rest
    else
      match linesIn rest with
      | [] => [[b]]
      | line :: more => (b :: line) :: more

/-- **Run a whole session.** -/
def run (files : FileTree) (entropy : UInt64) (arguments : List String)
    (input : ByteArray) : Exit :=
  match openSession files entropy arguments with
  | .error e => e
  | .ok (shell, out, err) =>
    match shell.session ((linesIn input.toList).map fun line => ⟨line.toArray⟩) with
    | (moreOut, moreErr) => ⟨0, out ++ moreOut, err ++ moreErr⟩

end Preview

end TemplateGrammar
