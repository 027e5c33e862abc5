import CorpusQuery.Grammar.Pattern.Quantifier
import CorpusQuery.Grammar.Rule

/-!
Nodes. What stands between the brackets of a node begins with an optional label and an optional
marker with a comma behind it. Then comes a constraint, child statements, both, or nothing. A
constraint is tried first, and once it is followed by the closing bracket or by something that can
begin child statements, the choice is made; otherwise everything is read again as child statements.
-/

set_option autoImplicit false
set_option relaxedAutoImplicit false

namespace CorpusQuery.Grammar

open CorpusQuery.Parser

/-- The dummy node that begins here, if one does. -/
def dummyAt? (place : Place) : Option Cardinality :=
  if place.kind = .symbol .leftBracket ∧ place.peekKind 2 = .symbol .rightBracket then
    cardinalities.lookup (place.peekKind 1)
  else
    none

/-- Whether an expression is a bare integer. -/
def isInteger (expression : Phrase .expression) : Bool :=
  match expression.form with
  | .number (.integer _) => true
  | _ => false

/-- The contents of a node behind its label and its marker. -/
structure NodeContent where
  constraint : Option (Phrase .expression)
  children : Option (Phrase .structuralConstraint)

/-- The child statements of a node, if any begin here. -/
def children? (scope : Scope) : Parser (Option (Phrase .structuralConstraint)) := do
  let found ← checkAny structuralStart
  if found then some <$> scope.structuralConstraint else pure none

/-- The constraint of a node, with the closing bracket or child statements behind it. An integer
with a bang is the possessive count of a child and no constraint. -/
def leadingConstraint (scope : Scope) : Parser (Phrase .expression) := do
  let constraint ← scope.expression 0
  let closed ← check (.symbol .rightBracket)
  if closed then
    pure constraint
  else
    let isBang ← look (·.kind == .symbol .bang)
    let hasChildren ← checkAny structuralStart
    if hasChildren && !(isBang && isInteger constraint) then pure constraint else fail .unexpected

/-- Child statements without a constraint before them, up to the closing bracket. -/
def onlyChildren (scope : Scope) : Parser NodeContent := do
  let children ← children? scope
  let _ ← expect (.symbol .rightBracket)
  pure ⟨none, children⟩

/-- The contents of a node up to the closing bracket. -/
def nodeContent (scope : Scope) : Parser NodeContent := do
  let isEmpty ← consume (.symbol .rightBracket)
  if isEmpty then
    pure ⟨none, none⟩
  else
    match ← outcome (attempt "node constraint" scope.depth (leadingConstraint scope)) with
    | .ok constraint =>
      let children ← children? scope
      let _ ← expect (.symbol .rightBracket)
      pure ⟨some constraint, children⟩
    | .error failure =>
      lastAlternative [failure] (attempt "node children" scope.depth (onlyChildren scope))

/-- A marker and the comma behind it. -/
def leadingMarker (scope : Scope) : Parser (Phrase .marker) := do
  let marker ← scope.marker 0
  let _ ← expect (.symbol .comma)
  pure marker

/-- The marker of a node, if it has one, and the contents behind it. When there is no marker, its
failure counts among those of the contents. -/
def markedContent (scope : Scope) : Parser (Option (Phrase .marker) × NodeContent) := do
  match ← outcome (attempt "marker" scope.depth (leadingMarker scope)) with
  | .ok marker =>
    let content ← nodeContent scope
    pure (some marker, content)
  | .error failure =>
    let content ← lastAlternative [failure] (nodeContent scope)
    pure (none, content)

def node (scope : Scope) : Parser (Phrase .node) := phrase do
  match ← look dummyAt? with
  | some cardinality =>
    let _ ← advance
    let _ ← advance
    let _ ← advance
    pure ⟨.dummyNode cardinality, .nil⟩
  | none =>
    let quantifier ← quantifier?
    let _ ← expect (.symbol .leftBracket)
    let label ← label?
    let (marker, content) ← markedContent scope
    pure ⟨.properNode label,
      .optional quantifier
        (.optional marker (.optional content.constraint (.optional content.children .nil)))⟩

end CorpusQuery.Grammar
