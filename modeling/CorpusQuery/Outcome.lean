import CorpusQuery.Entry
import CorpusQuery.Lexed
import CorpusQuery.Report

/-!
Queries from text to tree. A text that cannot be cut into tokens is not parsed, and every problem of
its tokens is reported; otherwise there is a tree or one report that says why there is none.
-/

set_option autoImplicit false
set_option relaxedAutoImplicit false

namespace CorpusQuery

/-- What became of a query text. -/
structure Outcome (category : Category) where
  phrase? : Option (Phrase category)
  reports : List Report

namespace Outcome

variable {category : Category}

/-- Whether there is a tree and nothing to report. -/
def isOk (outcome : Outcome category) : Bool := outcome.phrase?.isSome && outcome.reports.isEmpty

end Outcome

/-- Parses a query text under a nesting limit. -/
def Entry.ofText (entry : Entry) (limit : Nat) (text : String) : Outcome entry.category :=
  let source : Source := ⟨text, none⟩
  let lexed := Lexed.ofSource text
  if lexed.isClean then
    match (entry.parse limit lexed.tokens).outcome with
    | .ok phrase => ⟨some phrase, []⟩
    | .error failure => ⟨none, [.ofDiagnostic source failure.toDiagnostic]⟩
  else
    ⟨none, lexed.diagnostics.map (.ofDiagnostic source)⟩

end CorpusQuery
