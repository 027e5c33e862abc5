import CorpusQuery.Grammar.Atom
import CorpusQuery.Grammar.Rule

/-!
Selections: what a query finds. A selection is a plain constraint if one reaches the end of the
input, and otherwise a structural constraint or a list of lanes, with a constraint on the matches
behind it if there is one.
-/

set_option autoImplicit false
set_option relaxedAutoImplicit false

namespace CorpusQuery.Grammar

open CorpusQuery.Parser

/-- The constraint on the matches, if there is one. -/
def having? (scope : Scope) : Parser (Option (Phrase .expression)) :=
  behind (.keyword .having) (scope.expression 0)

def lane (scope : Scope) : Parser (Phrase .lane) := phrase do
  let _ ← expect (.keyword .lane)
  let name ← identifier
  let label ← behind (.keyword .asKw) memberName
  let constraint ← scope.structuralConstraint
  pure ⟨.lane name label, .one constraint .nil⟩

/-- A constraint up to the end of the input. -/
def plainSelection (scope : Scope) : Parser (Draft .selection) := do
  let constraint ← scope.expression 0
  let _ ← expect .endOfInput
  pure ⟨.plainSelection, .one constraint .nil⟩

/-- A structural constraint or lanes. -/
def structuralSelection (scope : Scope) : Parser (Draft .selection) := do
  let isLane ← check (.keyword .lane)
  if isLane then
    let lanes ← separatedBy (.keyword .and) (lane scope)
    let having ← having? scope
    pure ⟨.laneSelection, .many lanes (.optional having .nil)⟩
  else
    let constraint ← scope.structuralConstraint
    let having ← having? scope
    pure ⟨.structuralSelection, .one constraint (.optional having .nil)⟩

def selection (scope : Scope) : Parser (Phrase .selection) := phrase do
  match ← outcome (attempt "selection constraint" scope.depth (plainSelection scope)) with
  | .ok draft => pure draft
  | .error failure =>
    lastAlternative [failure]
      (attempt "structural selection" scope.depth (structuralSelection scope))

end CorpusQuery.Grammar
