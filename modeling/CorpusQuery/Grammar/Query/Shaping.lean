import CorpusQuery.Grammar.Atom
import CorpusQuery.Grammar.Rule

/-!
What becomes of the matches of a query: how they are grouped, and how many of them are returned in
which order.
-/

set_option autoImplicit false
set_option relaxedAutoImplicit false

namespace CorpusQuery.Grammar

open CorpusQuery.Parser

/-! ### Groups -/

def groupExpression (scope : Scope) : Parser (Phrase .groupExpression) := phrase do
  let _ ← expect (.keyword .byKw)
  let selector ← scope.expression 0
  let filter ← scope.clause .filter .onKw
  let _ ← expect (.keyword .label)
  let label ← expect .stringLiteral
  let replacement ← behind (.keyword .default) (scope.expression 0)
  pure ⟨.groupExpression label.text,
    .one selector (.optional filter (.optional replacement .nil))⟩

def group (scope : Scope) : Parser (Phrase .group) := phrase do
  let _ ← expect (.keyword .group)
  let expressions ← separatedBy (.symbol .comma) (groupExpression scope)
  pure ⟨.group, .many expressions .nil⟩

/-! ### Results -/

/-- The limit of a result, if there is one. -/
def resultLimit? : Parser (Option (Phrase .resultLimit)) := do
  let found ← check (.keyword .limit)
  if found then
    some <$> phrase do
      let _ ← advance
      let first ← consume (.keyword .first)
      let value ← integer
      pure ⟨.resultLimit first value, .nil⟩
  else
    pure none

def orderExpression (scope : Scope) : Parser (Phrase .orderExpression) := phrase do
  let expression ← scope.expression 0
  match ← oneOf directions with
  | some direction => pure ⟨.orderExpression direction, .one expression .nil⟩
  | none => failMissing "a sort direction" (.ofKeys directions)

/-- The orders of a result, if it has any. -/
def orders (scope : Scope) : Parser (List (Phrase .orderExpression)) := do
  let found ← consume (.keyword .order)
  if found then
    let _ ← expect (.keyword .byKw)
    separatedBy (.symbol .comma) (orderExpression scope)
  else
    pure []

/-- A result statement, which may be empty. It never stops before it starts. -/
def result (scope : Scope) : Parser (Phrase .result) := do
  let start ← look (·.here.span.start)
  let limit ← resultLimit?
  let order ← orders scope
  let stop ← look Place.previousStop
  pure (.phrase .result ⟨start, max stop start⟩ (.optional limit (.many order .nil)))

end CorpusQuery.Grammar
