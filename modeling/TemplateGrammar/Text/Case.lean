import TemplateGrammar.Text.Cased
import TemplateGrammar.Text.CaseRun

/-!
# Upper and lower case

Case mapping of whole texts.  A character may become several (`ß` becomes `SS`), and one depends on
its neighbours: a capital sigma at the end of a word becomes the final small sigma.
-/

namespace TemplateGrammar.Case

/-- What a character becomes under the two tables of a direction. -/
def mapChar (runs : List CaseRun) (many : List (Nat × List Nat)) (c : Char) : List Char :=
  match many.lookup c.toNat with
  | some codes => codes.map Char.ofNat
  | none =>
    match runs.find? fun r => r.covers c.toNat with
    | some r => [Char.ofNat ((c.toNat : Int) + r.shift).toNat]
    | none => [c]

/-- A character in upper case. -/
def upperChar (c : Char) : List Char :=
  mapChar CaseRun.toUpper CaseRun.toUpperMany c

/-- A character in lower case, by itself. -/
def lowerChar (c : Char) : List Char :=
  mapChar CaseRun.toLower CaseRun.toLowerMany c

/-- A text in upper case. -/
def upper (s : String) : String :=
  String.ofList (s.toList.flatMap upperChar)

/-- The first character that counts is cased. -/
def nextIsCased (cs : List Char) : Bool :=
  match cs.dropWhile CharSet.caseIgnorable.contains with
  | c :: _ => CharSet.cased.contains c
  | [] => false

/-- **Lower case with the final sigma.**  `before` holds the characters already passed, the nearest
first. -/
def lowerFrom (before : List Char) : List Char → List Char
  | [] => []
  | c :: rest =>
    (if c = 'Σ' then [if nextIsCased before && !nextIsCased rest then 'ς' else 'σ']
      else lowerChar c) ++ lowerFrom (c :: before) rest

/-- A text in lower case. -/
def lower (s : String) : String :=
  String.ofList (lowerFrom [] s.toList)

end TemplateGrammar.Case
