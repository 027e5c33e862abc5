import CorpusQuery.Grammar.Pattern.Edge
import CorpusQuery.Grammar.Pattern.Quantifier

/-!
Node statements and structural constraints. A node with an edge or a comma behind it begins a graph
fragment and otherwise stands alone. Braces group statements, and a quantifier belongs to a group
only if a brace follows it. A sequence takes every statement behind its arrangements.
-/

set_option autoImplicit false
set_option relaxedAutoImplicit false

namespace CorpusQuery.Grammar

open CorpusQuery.Parser

/-- The level of disjunctions of node statements. -/
def nodeDisjunctionLevel : Nat := 1

/-- One or more node statements. -/
def nodeStatements (scope : Scope) : Parser (List (Phrase .nodeStatement)) := do
  let first ← scope.nodeStatement 0
  let others ← many do
    let found ← checkAny nodeStatementStart
    if found then some <$> scope.nodeStatement 0 else pure none
  pure (first :: others)

/-- Whether a group follows: a brace, or a quantifier and a brace. -/
def atGrouping : Parser Bool := do
  let isBrace ← check (.symbol .leftBrace)
  if isBrace then
    pure true
  else
    let isQuantifier ← checkAny quantifierStart
    if isQuantifier then
      lookahead do
        let _ ← quantifier
        look (·.kind == .symbol .leftBrace)
    else
      pure false

def grouping (scope : Scope) : Parser (Draft .nodeStatement) := do
  let quantifier ← quantifier?
  let _ ← expect (.symbol .leftBrace)
  let statements ← nodeStatements scope
  let _ ← expect (.symbol .rightBrace)
  pure ⟨.grouping, .optional quantifier (.many statements .nil)⟩

def sequence (scope : Scope) : Parser (Draft .nodeStatement) := do
  let arrangements ← many (oneOf arrangements)
  let statements ← nodeStatements scope
  pure ⟨.sequence arrangements, .many statements .nil⟩

/-- A single node or a graph fragment. -/
def nodes (scope : Scope) : Parser (Draft .nodeStatement) := do
  let node ← scope.node
  let connected ← atEdge
  let isFragment ← if connected then pure true else check (.symbol .comma)
  if isFragment then
    let first ← elementFrom scope node
    let others ← many (behind (.symbol .comma) (element scope))
    pure ⟨.graphFragment, .many (first :: others) .nil⟩
  else
    pure ⟨.singleNode, .one node .nil⟩

/-- A node statement that is no disjunction. -/
def nodeStatementOperand (scope : Scope) : Parser (Phrase .nodeStatement) := phrase do
  let isSequence ← checkAny (.ofKeys arrangements)
  if isSequence then
    sequence scope
  else
    let isGrouping ← atGrouping
    if isGrouping then grouping scope else nodes scope

/-- Joins another statement to one already read, if a disjunction of the level follows. -/
def nodeStatementContinuation (scope : Scope) (least : Nat) (left : Phrase .nodeStatement) :
    Parser (Option (Phrase .nodeStatement)) :=
  if nodeDisjunctionLevel < least then
    pure none
  else do
    let found ← checkAny disjunctionKinds
    if found then
      some <$> phraseFrom left.span.start do
        let _ ← advance
        let right ← scope.nodeStatement (nodeDisjunctionLevel + 1)
        pure ⟨.nodeDisjunction, .one left (.one right .nil)⟩
    else
      pure none

/-- A node statement whose disjunctions bind at least as tightly as a level. -/
def nodeStatement (scope : Scope) (least : Nat) : Parser (Phrase .nodeStatement) := do
  let first ← nodeStatementOperand scope
  iterate (nodeStatementContinuation scope least) first

/-- The limit of the hits, if there is one. -/
def hitsLimit? : Parser (Option (Phrase .hitsLimit)) := do
  let isFirst ← check (.keyword .first)
  if isFirst then
    some <$> phrase do
      let _ ← advance
      pure ⟨.firstHit, .nil⟩
  else
    let isCount ← check .pureDigits
    let isLimit ← look (·.peekKind 1 == .keyword .hits)
    if isCount && isLimit then
      some <$> phrase do
        let limit ← advance
        let _ ← advance
        pure ⟨.hits limit.text, .nil⟩
    else
      pure none

def structuralConstraint (scope : Scope) : Parser (Phrase .structuralConstraint) := phrase do
  let limit ← hitsLimit?
  let flags ← many (oneOf matchFlags)
  let statements ← nodeStatements scope
  pure ⟨.structuralConstraint flags, .optional limit (.many statements .nil)⟩

end CorpusQuery.Grammar
