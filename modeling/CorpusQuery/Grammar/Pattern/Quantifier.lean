import CorpusQuery.Grammar.Atom

/-!
Quantifiers. A quantifier is one simple quantifier or several with pipes between them, and the whole
may stand in angle brackets. A simple quantifier is a negation, a universal, a count or a range of
counts; the suffixes that say how greedy it is differ between universals and counts.
-/

set_option autoImplicit false
set_option relaxedAutoImplicit false

namespace CorpusQuery.Grammar

open CorpusQuery.Parser

/-- Reads how greedy a quantifier is. A question mark makes it reluctant, and the given token makes
it possessive. -/
def greed (possessive : Kind) : Parser Greed := do
  let reluctant ← consume (.symbol .question)
  if reluctant then
    pure .reluctant
  else
    let isPossessive ← consume possessive
    pure (if isPossessive then .possessive else .greedy)

/-- Reads a count or a range of counts, from behind its first digits on. -/
def countFrom (low : String) : Parser (Draft .simpleQuantifier) := do
  let isRange ← consume (.symbol .doubleDot)
  if isRange then
    let high ← expect .pureDigits
    let greed ← greed (.symbol .bang)
    let discontinuous ← consume (.symbol .caret)
    pure ⟨.countRange low high.text greed discontinuous, .nil⟩
  else
    let atLeast ← consume (.symbol .plus)
    let atMost ← if atLeast then pure false else consume (.symbol .minus)
    let bound := if atLeast then some .atLeast else if atMost then some .atMost else none
    let greed ← greed (.symbol .bang)
    let discontinuous ← consume (.symbol .caret)
    pure ⟨.count low bound greed discontinuous, .nil⟩

def simpleQuantifier : Parser (Phrase .simpleQuantifier) := phrase do
  let first ← look Place.here
  match first.kind with
  | .keyword .not | .symbol .bang =>
    let _ ← advance
    pure ⟨.noneOf, .nil⟩
  | .keyword .all | .symbol .star =>
    let _ ← advance
    let greed ← greed (.symbol .plus)
    pure ⟨.allOf greed, .nil⟩
  | .pureDigits =>
    let _ ← advance
    countFrom first.text
  | _ =>
    expecting (quantifierStart ∪ .single (.symbol .pipe))
    fail .missingQuantifier

def quantifier : Parser (Phrase .quantifier) := phrase do
  let bounded ← consume (.symbol .less)
  let alternatives ← separatedBy (.symbol .pipe) simpleQuantifier
  if bounded then
    let _ ← expect (.symbol .greater)
    pure ⟨.quantifier true, .many alternatives .nil⟩
  else
    pure ⟨.quantifier false, .many alternatives .nil⟩

/-- Reads a quantifier if one begins here. -/
def quantifier? : Parser (Option (Phrase .quantifier)) := do
  let found ← checkAny quantifierStart
  if found then some <$> quantifier else pure none

end CorpusQuery.Grammar
