import CorpusQuery.Grammar.Atom
import CorpusQuery.Grammar.Rule

/-!
Position markers: calls of named positions, joined by connectives. Conjunction binds more tightly
than disjunction, and both group to the left.
-/

set_option autoImplicit false
set_option relaxedAutoImplicit false

namespace CorpusQuery.Grammar

open CorpusQuery.Parser

/-- What joins two markers. -/
inductive Connective where
  | conjunction
  | disjunction
  deriving DecidableEq, Repr

namespace Connective

/-- How tightly a connective binds. -/
def level : Connective → Nat
  | .conjunction => 2
  | .disjunction => 1

def ofKind? : Kind → Option Connective
  | .keyword .and | .symbol .doubleAmpersand => some .conjunction
  | .keyword .or | .symbol .doublePipe => some .disjunction
  | _ => none

/-- Two markers joined. -/
def draft (connective : Connective) (left right : Phrase .marker) : Draft .marker :=
  match connective with
  | .conjunction => ⟨.markerConjunction, .one left (.one right .nil)⟩
  | .disjunction => ⟨.markerDisjunction, .one left (.one right .nil)⟩

end Connective

/-- The arguments of a call, if there are any. -/
def markerArguments : Parser (List Numeral) := do
  let found ← consume (.symbol .leftParen)
  if found then
    let arguments ← separatedBy (.symbol .comma) signedNumeral
    let _ ← expect (.symbol .rightParen)
    pure arguments
  else
    pure []

/-- A marker without connectives. -/
def markerOperand (scope : Scope) : Parser (Phrase .marker) := phrase do
  let isWrapped ← consume (.symbol .leftParen)
  if isWrapped then
    let inner ← scope.marker 0
    let _ ← expect (.symbol .rightParen)
    pure ⟨.markerWrapping, .one inner .nil⟩
  else
    let isCall ← check .identifier
    if isCall then
      let name ← advance
      let arguments ← markerArguments
      pure ⟨.markerCall name.text arguments, .nil⟩
    else
      failMissing "a position marker" markerStart

/-- Joins another marker to one already read, if a connective of the level follows. -/
def markerContinuation (scope : Scope) (least : Nat) (left : Phrase .marker) :
    Parser (Option (Phrase .marker)) := do
  match Connective.ofKind? (← look Place.kind) with
  | none => pure none
  | some connective =>
    if connective.level < least then
      pure none
    else
      some <$> phraseFrom left.span.start do
        let _ ← advance
        let right ← scope.marker (connective.level + 1)
        pure (connective.draft left right)

/-- A marker whose connectives bind at least as tightly as a level. -/
def marker (scope : Scope) (least : Nat) : Parser (Phrase .marker) := do
  let first ← markerOperand scope
  iterate (markerContinuation scope least) first

end CorpusQuery.Grammar
