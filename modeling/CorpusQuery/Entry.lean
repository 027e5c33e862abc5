import CorpusQuery.Grammar.Nesting
import CorpusQuery.Grammar.Query.Shaping

/-!
The entries of the grammar: what a whole token list can be read as. A reading has to reach the end
of the input. If the nesting limit was hit on the way, even in an alternative that was given up,
that is what the parse fails with, so that a limit never changes what a query means.
-/

set_option autoImplicit false
set_option relaxedAutoImplicit false

namespace CorpusQuery

/-- What a token list can be read as. -/
inductive Entry where
  | expression
  | nodeStatement
  | structuralConstraint
  | selection
  | payload
  | group
  | result
  deriving DecidableEq, Repr

/-- How a parse ended and what happened during it. -/
structure Parse (category : Category) where
  outcome : Except Failure (Phrase category)
  /-- The events of the parse, in order. -/
  events : List Event

namespace Entry

abbrev category : Entry → Category
  | .expression => .expression
  | .nodeStatement => .nodeStatement
  | .structuralConstraint => .structuralConstraint
  | .selection => .selection
  | .payload => .payload
  | .group => .group
  | .result => .result

/-- The nesting limit unless another one is given. -/
def defaultLimit : Nat := 256

/-- Reads what an entry stands for. -/
def body (scope : Scope) : (entry : Entry) → Parser (Phrase entry.category)
  | .expression => scope.expression 0
  | .nodeStatement => scope.nodeStatement 0
  | .structuralConstraint => scope.structuralConstraint
  | .selection => scope.selection
  | .payload => scope.nested .payload
  | .group => Grammar.group scope
  | .result => Grammar.result scope

/-- Reads what an entry stands for and the end of the input behind it. -/
def complete (scope : Scope) (entry : Entry) : Parser (Phrase entry.category) := do
  let phrase ← entry.body scope
  let _ ← Parser.expect .endOfInput
  pure phrase

/-- Parses a token list under a nesting limit. -/
def parse (entry : Entry) (limit : Nat) (tokens : List Token) : Parse entry.category :=
  match entry.complete (.top limit) (.ofTokens tokens) with
  | .ok phrase after => ⟨after.overflow.elim (.ok phrase) .error, after.events.reverse⟩
  | .error failure after => ⟨.error (after.overflow.getD failure), after.events.reverse⟩

end Entry

end CorpusQuery
