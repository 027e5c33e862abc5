import CorpusQuery.Grammar.Atom
import CorpusQuery.Grammar.Rule

/-!
Loops. The clauses of a loop come in a fixed order and each may be missing. What a loop runs over
and what its counters count are read above the level of assignments, so that `AS` is left to the
loop.
-/

set_option autoImplicit false
set_option relaxedAutoImplicit false

namespace CorpusQuery.Grammar

open CorpusQuery.Parser

/-- Two bounds in parentheses. -/
def boundedRange (scope : Scope) : Parser (Phrase .boundedRange) := phrase do
  let _ ← expect (.symbol .leftParen)
  let lower ← scope.expression 0
  let _ ← expect (.symbol .comma)
  let upper ← scope.expression 0
  let _ ← expect (.symbol .rightParen)
  pure ⟨.boundedRange, .one lower (.one upper .nil)⟩

def parity? : Parser (Option Parity) := do
  let even ← consume (.keyword .even)
  if even then
    pure (some .even)
  else
    let odd ← consume (.keyword .odd)
    pure (if odd then some .odd else none)

/-- The clauses of a loop up to its end. -/
def loopControl (scope : Scope) : Parser (Phrase .loopControl) := phrase do
  let parity ← parity?
  let omitted ← behind (.keyword .omit) (scope.expression 0)
  let range ← behind (.keyword .range) (boundedRange scope)
  let step ← behind (.keyword .step) (boundedRange scope)
  let action ← behind (.keyword .doKw) (scope.expression 0)
  let _ ← expect (.keyword .endKw)
  pure ⟨.loopControl parity,
    .optional omitted (.optional range (.optional step (.optional action .nil)))⟩

/-- The expression before `AS` and the variable behind it. -/
def counted (scope : Scope) : Parser (Phrase .expression × String) := do
  let source ← scope.expression Family.disjunction.level
  let _ ← expect (.keyword .asKw)
  let name ← variableName
  pure (source, name)

def counter (scope : Scope) : Parser (Phrase .counter) := phrase do
  let (constraint, name) ← counted scope
  pure ⟨.counter name, .one constraint .nil⟩

/-- The counters of a loop, if it has any. -/
def counters (scope : Scope) : Parser (List (Phrase .counter)) := do
  let found ← consume (.keyword .count)
  if found then separatedBy (.symbol .comma) (counter scope) else pure []

def loop (scope : Scope) : Parser (Phrase .loop) := phrase do
  let _ ← expect (.keyword .foreach)
  let (source, name) ← counted scope
  let control ← loopControl scope
  let counters ← counters scope
  pure ⟨.loop name, .one source (.one control (.many counters .nil))⟩

end CorpusQuery.Grammar
