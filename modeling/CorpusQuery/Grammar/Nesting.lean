import CorpusQuery.Grammar.Expression.Basic
import CorpusQuery.Grammar.Expression.Loop
import CorpusQuery.Grammar.Pattern.Marker
import CorpusQuery.Grammar.Pattern.Node
import CorpusQuery.Grammar.Pattern.Statement
import CorpusQuery.Grammar.Query.Payload
import CorpusQuery.Grammar.Query.Selection

/-!
The rules tied together. Rules refer to each other in circles, and what keeps them from running on
is the room that is left below the nesting limit: each rule hands the rules inside it one level
less, and without room a rule fails at once. The recursion is on that room alone, so it needs no
argument about the input.
-/

set_option autoImplicit false
set_option relaxedAutoImplicit false

namespace CorpusQuery

namespace Rule

/-- What a rule reads in its scope. -/
def body (scope : Scope) : (rule : Rule) → Parser (Phrase rule.category)
  | .expression least => Grammar.expression scope least
  | .loop => Grammar.loop scope
  | .structuralConstraint => Grammar.structuralConstraint scope
  | .nodeStatement least => Grammar.nodeStatement scope least
  | .node => Grammar.node scope
  | .marker least => Grammar.marker scope least
  | .payload => Grammar.payload scope
  | .selection => Grammar.selection scope

/-- Reads a rule when so many more levels may be entered below the limit. -/
def run (limit : Nat) : (room : Nat) → (rule : Rule) → Parser (Phrase rule.category)
  | 0, _ => Parser.exceed limit
  | room + 1, rule =>
    Parser.enter rule.title (limit - room) (rule.body ⟨limit - room, run limit room⟩)

end Rule

/-- The scope in which no rule is open. -/
def Scope.top (limit : Nat) : Scope := ⟨0, Rule.run limit limit⟩

end CorpusQuery
