import TemplateGrammar.Ron.Lexeme
import TemplateGrammar.Ron.Value

/-!
# Documents of object notation

A document is a body with attributes in front that switch extensions on, and with blanks around
everything.  `Document.read` reads one; what its body is depends on what the file is for, and
`value` is the reader where any value may stand.

Lists, tuples, records and tables are read in one way (`separated`): items with commas between them,
and one comma behind the last if one likes.  How deep values may nest is limited to a number of
steps: one step leads behind `Some`, and two lead to an item between brackets, one for the bracket
and one for the item.  So a reader of values is made from those of the values one and two steps
further in.
-/

namespace TemplateGrammar.Ron

/-- **Items with commas between them** up to a closing character.  Each item takes something off the
text. -/
def separated {α : Type} (closing : Char) (item : Reader α) : Reader (List α) := fun cs =>
  match skipBlanks cs with
  | none => none
  | some [] => none
  | some (c :: rest) =>
    if c = closing then some ([], rest)
    else
      match item (c :: rest) with
      | none => none
      | some (a, after) =>
        match skipBlanks after with
        | some (',' :: more) =>
          if more.length < cs.length then
            (separated closing item more).map fun out => (a :: out.1, out.2)
          else none
        | some (d :: more) => if d = closing then some ([a], more) else none
        | _ => none
termination_by cs => cs.length

/-- Behind an opening parenthesis stand named fields. -/
def opensFields (cs : List Char) : Bool :=
  match (skipBlanks cs).bind identifier with
  | some (_, rest) => (symbol ':' rest).isSome
  | none => false

/-- Two pieces with a colon between them. -/
def pair {α β : Type} (left : Reader α) (right : Reader β) : Reader (α × β) := fun cs => do
  let (a, cs) ← left cs
  let (_, cs) ← symbol ':' cs
  let (b, cs) ← right (← skipBlanks cs)
  return ((a, b), cs)

/-- The readers of values further in: behind `Some`, and between brackets. -/
structure Inside where
  behind : Reader Value
  between : Reader Value

/-- The value behind `Some`, in parentheses, with a comma behind it or not.  Where `bare` values may
stand for `Some` of them, the parentheses may be missing. -/
def optional {α : Type} (bare : Bool) (inner : Reader α) : Reader α := fun cs =>
  match symbol '(' cs with
  | some (_, cs) => do
    let (v, cs) ← inner (← skipBlanks cs)
    let cs := ((symbol ',' cs).map Prod.snd).getD cs
    let (_, cs) ← symbol ')' cs
    return (v, cs)
  | none => if bare then (skipBlanks cs).bind inner else none

/-- The name of a field.  It may be a word of the notation. -/
def fieldName : Reader String := fun cs =>
  (identifier cs).map fun out => (out.1.text, out.2)

/-- A tuple or a record; the parenthesis has been taken. -/
def group (inner : Reader Value) (name : Option String) : Reader Value := fun cs =>
  if opensFields cs then
    (separated ')' (pair fieldName inner) cs).map fun out => (.record name out.1, out.2)
  else (separated ')' inner cs).map fun out => (.tuple name out.1, out.2)

/-- What follows a name. -/
def named (inside : Option Inside) (name : String) : Reader Value := fun cs =>
  match symbol '(' cs with
  | some (_, rest) => inside.bind fun i => group i.between (some name) rest
  | none => some (.word name, cs)

/-- What follows an identifier.  Written raw, the words of the notation are names. -/
def identified (bare : Bool) (inside : Option Inside) : Identifier → Reader Value
  | ⟨"true", false⟩, cs => some (.bool true, cs)
  | ⟨"false", false⟩, cs => some (.bool false, cs)
  | ⟨"None", false⟩, cs => some (.absent, cs)
  | ⟨"inf", false⟩, cs => some (.number none, cs)
  | ⟨"NaN", false⟩, cs => some (.number none, cs)
  | ⟨"Some", false⟩, cs =>
    inside.bind fun i => (optional bare i.behind cs).map fun out => (.present out.1, out.2)
  | ⟨name, _⟩, cs => named inside name cs

/-- A value that begins with a sign of its own. -/
def unnamed (inside : Option Inside) : Reader Value
  | '(' :: ')' :: rest => some (.unit, rest)
  | '(' :: rest => inside.bind fun i => group i.between none rest
  | '[' :: rest =>
    inside.bind fun i => (separated ']' i.between rest).map fun out => (.list out.1, out.2)
  | '{' :: rest =>
    inside.bind fun i => (separated '}' (pair i.between i.between) rest).map fun out =>
    (.table out.1, out.2)
  | '\'' :: rest => (char ('\'' :: rest)).map fun out => (.char out.1, out.2)
  | cs =>
    match text cs with
    | some (s, rest) => some (.text s, rest)
    | none => (number cs).map fun out => (.number out.1, out.2)

/-- A value with values further in, if there is room for any. -/
def valueAround (bare : Bool) (inside : Option Inside) : Reader Value := fun cs =>
  match identifier cs with
  | some (name, rest) => identified bare inside name rest
  | none => unnamed inside cs

/-- **A value of any shape,** in which so many steps lead further in. -/
def value (bare : Bool) : Nat → Reader Value
  | 0, cs => valueAround bare none cs
  | 1, cs => valueAround bare (some ⟨value bare 0, fun _ => none⟩) cs
  | n + 2, cs => valueAround bare (some ⟨value bare (n + 1), value bare n⟩) cs

/-- How many steps lead further in from a document. -/
def maxNesting : Nat := 128

/-- A value of any shape as an item between the brackets of a document's body. -/
def itemValue (bare : Bool) : Reader Value :=
  value bare (maxNesting - 2)

namespace Document

/-- The extensions there are. -/
def extensions : List String :=
  ["unwrap_newtypes", "implicit_some", "unwrap_variant_newtypes"]

/-- One attribute and the extensions it switches on. -/
def extensionList : Reader (List String) := fun cs => do
  let (_, cs) ← symbol '#' cs
  let (_, cs) ← symbol '!' cs
  let (_, cs) ← symbol '[' cs
  let (_, cs) ← keyword "enable" (← skipBlanks cs)
  let (_, cs) ← symbol '(' cs
  let (names, cs) ← separated ')' identifier cs
  guard (!names.isEmpty && names.all fun name => extensions.contains name.text)
  let (_, cs) ← symbol ']' cs
  return (names.map Identifier.text, cs)

/-- The attributes in front of a document. -/
def attributes : Reader (List String) := fun cs =>
  match skipBlanks cs with
  | some ('#' :: _) =>
    match extensionList cs with
    | some (names, rest) =>
      if rest.length < cs.length then
        (attributes rest).map fun out => (names ++ out.1, out.2)
      else none
    | none => none
  | some rest => some ([], rest)
  | none => none
termination_by cs => cs.length

/-- **Read a document.**  The reader of the body is told whether a bare value may stand where `Some`
of it is meant.  Nothing but blanks may follow the body. -/
def read {α : Type} (body : Bool → Reader α) (text : String) : Option α := do
  let (names, cs) ← attributes text.toList
  let (a, cs) ← body (names.contains "implicit_some") cs
  guard (← skipBlanks cs).isEmpty
  return a

end Document

end TemplateGrammar.Ron
