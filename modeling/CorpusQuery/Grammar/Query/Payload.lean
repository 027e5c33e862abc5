import CorpusQuery.Grammar.Atom
import CorpusQuery.Grammar.Rule

/-!
Payloads: everything, or a query with its bindings, its filter and its selection.
-/

set_option autoImplicit false
set_option relaxedAutoImplicit false

namespace CorpusQuery.Grammar

open CorpusQuery.Parser

def binding : Parser (Phrase .binding) := phrase do
  let modifier ← oneOf bindingModifiers
  let members ← separatedBy (.symbol .comma) memberName
  let _ ← expect (.keyword .fromKw)
  let source ← identifier
  pure ⟨.binding modifier members source, .nil⟩

/-- The bindings of a query, if it has any. -/
def bindings : Parser (List (Phrase .binding)) := do
  let found ← consume (.keyword .withKw)
  if found then separatedBy (.keyword .and) binding else pure []

/-- A payload. `ALL` is a payload only if nothing follows it. -/
def payload (scope : Scope) : Parser (Phrase .payload) := phrase do
  let isAll ← check (.keyword .all)
  let isLast ← look (·.peekKind 1 == .endOfInput)
  if isAll && isLast then
    let _ ← advance
    pure ⟨.everything, .nil⟩
  else
    let bindings ← bindings
    let filter ← scope.clause .filter .byKw
    let _ ← expect (.keyword .find)
    let selection ← scope.selection
    pure ⟨.query, .many bindings (.optional filter (.one selection .nil))⟩

end CorpusQuery.Grammar
