import CorpusQuery.Grammar.Vocabulary
import CorpusQuery.Session

/-!
Names and numbers. A number with a point is not a token of its own: it is digits, a point and digits
that touch each other, and anything else in that place is an integer. A sign belongs to a number
only where it touches it.
-/

set_option autoImplicit false
set_option relaxedAutoImplicit false

namespace CorpusQuery.Grammar

open CorpusQuery.Parser

/-! ### Names -/

/-- The name of a variable, without its sigil. -/
def variableName : Parser String := Token.text <$> expect .variableName

/-- The name of a member, without its sigil. -/
def memberName : Parser String := Token.text <$> expect .memberName

def identifier : Parser String := Token.text <$> expect .identifier

/-- The label of a node or an edge: a member followed by a colon. -/
def label? : Parser (Option String) := do
  let isMember ← check .memberName
  let isLabel ← look (·.peekKind 1 == .symbol .colon)
  if isMember && isLabel then
    let name ← memberName
    let _ ← expect (.symbol .colon)
    pure (some name)
  else
    pure none

/-! ### Numbers -/

/-- Whether digits, a point and digits follow without gaps. -/
def atDecimal (place : Place) : Bool :=
  digitKinds.contains place.kind && place.peekKind 1 == .symbol .dot &&
    digitKinds.contains (place.peekKind 2) && place.touches 1 && place.touches 2

/-- The digits of an integer. -/
def integer : Parser String := do
  match ← consumeAny digitKinds with
  | some token => pure token.text
  | none => fail .unexpected

/-- A number without a sign. -/
def numeral : Parser Numeral := do
  let isDecimal ← look atDecimal
  if isDecimal then
    let whole ← advance
    let _ ← advance
    let fraction ← advance
    pure (.decimal (whole.text ++ "." ++ fraction.text))
  else
    .integer <$> integer

/-- A number with an optional sign. A minus is kept in the text and a plus is dropped. -/
def signedNumeral : Parser Numeral := do
  match ← oneOf signs with
  | none => numeral
  | some sign =>
    let touching ← look (·.touches 0)
    if touching then
      Numeral.map (sign ++ ·) <$> numeral
    else
      expecting digitKinds
      fail .detachedSign

end CorpusQuery.Grammar
