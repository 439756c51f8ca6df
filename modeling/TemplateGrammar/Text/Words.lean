import TemplateGrammar.Text.Blank

/-!
# Words

A text falls into words at its blanks.  Nothing but blanks is lost, and no word is empty.
-/

namespace TemplateGrammar.Words

/-- The words of a text. -/
def words : List Char → List (List Char)
  | [] => []
  | c :: rest =>
    if isBlank c then words rest
    else if rest.head?.any fun d => !isBlank d then
      match words rest with
      | [] => [[c]]
      | w :: more => (c :: w) :: more
    else [c] :: words rest

/-- The text without the characters at its two ends that are to go. -/
def trim (go : Char → Bool) (cs : List Char) : List Char :=
  ((cs.dropWhile go).reverse.dropWhile go).reverse

end TemplateGrammar.Words
