import TemplateGrammar.Token.Basic
import TemplateGrammar.Total

/-!
# Faults in a template

Why a token list is no template (`Fault`), and the diagnostic a reader sees: the reason, the text of
the whole template with a mark where reading stopped, and a line of dots with a caret under the
mark.

The place is counted in characters of the raw texts of the tokens that had been taken, so it points
into the text as the tokens spell it, not as it was escaped.
-/

namespace TemplateGrammar

/-- The lists a template can hold. -/
inductive Listing where
  | tagValues
  | parameters
  | choices
  | candidates
  deriving DecidableEq, Repr

/-- One member of a listing, as messages name it. -/
def Listing.member : Listing → String
  | tagValues => "tag value"
  | parameters => "parameter"
  | choices => "inline rule candidate"
  | candidates => "rule candidate"

/-- Why a token list is not a template. -/
inductive Fault where
  | nestingTooDeep
  | endOfInput
  | unclosedChoice
  | unclosedDefinition
  | unclosedRule (name : String)
  | unclosedListing (listing : Listing)
  | missingMember (listing : Listing)
  | missingModifierName (rule : String)
  | unclosedCall
  | unclosedTag
  | missingTagName
  | missingColon (tag : String)
  | missingTagValue
  | emptyTag
  | missingOperand (symbol : Token)
  | missingSet
  | missingSpace (word : Keyword)
  | missingThen
  | missingDo
  | emptyBlock (word : Keyword)
  | unclosedBlock (word : Keyword)
  deriving DecidableEq, Repr

/-- The deepest nesting of rules, tags and blocks. -/
def maxNesting : Nat := 128

/-- A keyword in the middle of a block is quoted in messages, one that opens it or its last part is
not. -/
def Keyword.cited : Keyword → String
  | .thenWord => "'then'"
  | .doWord => "'do'"
  | k => k.spelling

/-- The wording of a fault. -/
def Fault.message : Fault → String
  | nestingTooDeep => "nesting too deep (more than " ++ toString maxNesting ++ " levels)"
  | endOfInput => "unexpected end of input"
  | unclosedChoice => "expected # or \x7d after inline rule definition"
  | unclosedDefinition => "expected # or \x7d after new rule definition"
  | unclosedRule name => "closing # or \x7d not found for rule '" ++ name ++ "'"
  | unclosedListing listing => "expected ) after " ++ listing.member ++ " list"
  | missingMember listing => "expected " ++ listing.member ++ " after ,"
  | missingModifierName rule => "expected modifier name after . in rule '" ++ rule ++ "'"
  | unclosedCall => "expected ) to close modifier call"
  | unclosedTag => "closing ] not found"
  | missingTagName => "expected tag name"
  | missingColon tag => "expected : after tag '" ++ tag ++ "'"
  | missingTagValue => "expected a tag value"
  | emptyTag => "empty [] not allowed"
  | missingOperand symbol => "expected rule or text after " ++ symbol.raw ++ " in condition"
  | missingSet => "expected rule after in/not in keyword"
  | missingSpace word => "expected space after " ++ word.cited
  | missingThen => "expected 'then' after condition"
  | missingDo => "expected 'do' after while condition"
  | emptyBlock word => "'" ++ word.spelling ++ "' must be followed by rule(s)"
  | unclosedBlock word => "closing ] not found for " ++ word.spelling ++ " block"

/-- A token list that is no template: why, and how many of its tokens had been taken. -/
structure ParseFailure where
  fault : Fault
  tokens : List Token
  taken : Nat
  deriving DecidableEq, Repr

namespace ParseFailure

/-- The wording of the reason. -/
def reason (f : ParseFailure) : String :=
  f.fault.message

/-- The characters of the tokens that had been taken. -/
def column (f : ParseFailure) : Nat :=
  total ((f.tokens.take f.taken).map fun t => t.raw.length)

/-- The mark set where reading stopped. -/
def mark : Char := '❌'

/-- A text with the mark in front of the character that has this number, if one has. -/
def markedWithin (column : Nat) (text : List Char) : List Char :=
  text.zipIdx.flatMap fun place => if place.2 = column then [mark, place.1] else [place.1]

/-- The text of all tokens with the mark in it, which is at the end if no character comes behind
it. -/
def marked (f : ParseFailure) : String :=
  let within := markedWithin f.column (Token.rawText f.tokens).toList
  String.ofList (if within.length = f.column then within ++ [mark] else within)

/-- **The diagnostic.**  The reason, the marked text and the caret, each on a line of its own. -/
def rendered (f : ParseFailure) : String :=
  f.reason ++ "\n    " ++ f.marked ++ "\n    " ++ String.ofList
    (List.replicate f.column '.') ++ "^\n"

end ParseFailure

end TemplateGrammar
