import CorpusQuery.Session

/-!
The rules that nest. A query can nest them in each other without bound, so entering one of them
counts against the nesting limit and is traced. The body of a rule sees the other rules only through
its `Scope`, which hands out each of them one level deeper; a rule whose operators have levels says
in its name which level is the least that it reads.
-/

set_option autoImplicit false
set_option relaxedAutoImplicit false

namespace CorpusQuery

/-- A rule that can be nested. -/
inductive Rule where
  /-- An expression whose operators bind at least as tightly as a level. -/
  | expression (least : Nat)
  | loop
  | structuralConstraint
  /-- A node statement whose disjunctions bind at least as tightly as a level. -/
  | nodeStatement (least : Nat)
  | node
  /-- A position marker whose connectives bind at least as tightly as a level. -/
  | marker (least : Nat)
  | payload
  | selection
  deriving DecidableEq, Repr

namespace Rule

/-- What a rule reads. -/
abbrev category : Rule → Category
  | .expression _ => .expression
  | .loop => .loop
  | .structuralConstraint => .structuralConstraint
  | .nodeStatement _ => .nodeStatement
  | .node => .node
  | .marker _ => .marker
  | .payload => .payload
  | .selection => .selection

/-- What a trace calls a rule. -/
def title : Rule → String
  | .expression _ => "expression"
  | .loop => "loop"
  | .structuralConstraint => "structural constraint"
  | .nodeStatement _ => "node statement"
  | .node => "node"
  | .marker _ => "marker"
  | .payload => "payload"
  | .selection => "selection"

end Rule

/-- What the body of a rule can build on. -/
structure Scope where
  /-- The number of rules that are open. -/
  depth : Nat
  /-- Reads a rule, one level deeper. -/
  nested : (rule : Rule) → Parser (Phrase rule.category)

namespace Scope

variable (scope : Scope)

/-- Reads an expression whose operators bind at least as tightly as a level. -/
def expression (least : Nat) : Parser (Phrase .expression) := scope.nested (.expression least)

def loop : Parser (Phrase .loop) := scope.nested .loop

def structuralConstraint : Parser (Phrase .structuralConstraint) :=
  scope.nested .structuralConstraint

/-- Reads a node statement whose disjunctions bind at least as tightly as a level. -/
def nodeStatement (least : Nat) : Parser (Phrase .nodeStatement) :=
  scope.nested (.nodeStatement least)

def node : Parser (Phrase .node) := scope.nested .node

/-- Reads a position marker whose connectives bind at least as tightly as a level. -/
def marker (least : Nat) : Parser (Phrase .marker) := scope.nested (.marker least)

def selection : Parser (Phrase .selection) := scope.nested .selection

/-- An expression behind two words, the first of which decides whether it is there. -/
def clause (word connective : Keyword) : Parser (Option (Phrase .expression)) :=
  Parser.behind (.keyword word) do
    let _ ← Parser.expect (.keyword connective)
    scope.expression 0

end Scope

end CorpusQuery
