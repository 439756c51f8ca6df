import Std.Data.ExtTreeSet
import TemplateGrammar.Decimal.Tenths
import TemplateGrammar.Dict
import TemplateGrammar.Text.Alphanumeric
import TemplateGrammar.Text.Case
import TemplateGrammar.Text.Words
import TemplateGrammar.Tools.Exit
import TemplateGrammar.Total

/-!
# How varied some outputs are

A template that is expanded many times is judged by its outputs: how many are errors, how many
differ, how long they are, and which words come most often.
-/

namespace TemplateGrammar.Variety

/-- An output that tells of an error. -/
def isError (output : String) : Bool :=
  output.startsWith "error: "

/-- The number of different texts. -/
def countDistinct (outputs : List String) : Nat :=
  (outputs.foldl (fun (s : Std.ExtTreeSet String) o => s.insert o) ∅).size

/-- The bytes of all texts together. -/
def totalLength (outputs : List String) : Nat :=
  total (outputs.map String.utf8ByteSize)

/-- A word in lower case, without what stands around its letters and digits. -/
def cleanWord (w : List Char) : String :=
  Case.lower (String.ofList (Words.trim (fun c => !CharSet.alphanumeric.contains c) w))

/-- The words of a text that count: those of more than three bytes. -/
def wordsOf (output : String) : List String :=
  ((Words.words output.toList).map cleanWord).filter fun w => 3 < w.utf8ByteSize

/-- How often each word occurs, in order of the words. -/
def wordCounts (outputs : List String) : List (String × Nat) :=
  ((outputs.flatMap wordsOf).foldl (fun (d : Dict Nat) w => d.insert w (d[w]?.getD 0 + 1)) ∅).toList

/-- **The words that occur most often,** ten at most; of equally frequent ones the first in order
come first. -/
def topWords (outputs : List String) : List (String × Nat) :=
  ((wordCounts outputs).mergeSort fun a b => b.2 ≤ a.2).take 10

/-- A text filled up with spaces to a number of characters. -/
def padRight (width : Nat) (s : String) : String :=
  s ++ String.ofList (List.replicate (width - s.length) ' ')

/-- The report on some outputs. -/
def report (outputs : List String) : String :=
  let count := toString outputs.length
  "\n--- Bulk Results (" ++ count ++ " expansions) ---\n" ++
    lineOf ("Errors: " ++ toString (outputs.countP isError)) ++
    lineOf ("Unique outputs: " ++ toString (countDistinct outputs) ++ " / " ++ count) ++
    lineOf ("Average length: " ++ Decimal.showTenths (totalLength outputs)
      outputs.length ++ " chars") ++
    lineOf "Top words:" ++
    linesOf ((topWords outputs).map fun w => "  " ++ padRight 16 w.1 ++ " " ++ toString w.2) ++
    linesOf (outputs.head?.toList.map fun first => "\nSample:\n" ++ first) ++
    "--- End ---\n\n"

end TemplateGrammar.Variety
