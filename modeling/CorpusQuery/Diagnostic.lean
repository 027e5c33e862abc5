import CorpusQuery.Span

/-!
Diagnostics: what is wrong with a query, with labelled places but without the query's text. They are
built from a message by adding labels, notes, a suggestion and a code, in any order. The first label
is the primary one.
-/

set_option autoImplicit false
set_option relaxedAutoImplicit false

namespace CorpusQuery

/-- A place with a remark. -/
structure Label where
  span : Span
  message : String
  deriving DecidableEq, Repr

/-- A problem found in a query. -/
structure Diagnostic where
  message : String
  labels : List Label
  /-- A suggestion how to mend the query. -/
  help : Option String
  notes : List String
  /-- A stable identification such as `iql::syntax`. -/
  code : Option String
  deriving DecidableEq, Repr

namespace Diagnostic

/-- A diagnostic that has only a message. -/
def error (message : String) : Diagnostic := ⟨message, [], none, [], none⟩

/-- Adds a label after those already there. -/
def withLabel (diagnostic : Diagnostic) (span : Span) (message : String) : Diagnostic :=
  { diagnostic with labels := diagnostic.labels ++ [⟨span, message⟩] }

/-- Sets the suggestion; the last one counts. -/
def withHelp (diagnostic : Diagnostic) (help : String) : Diagnostic :=
  { diagnostic with help := some help }

/-- Adds a note after those already there. -/
def withNote (diagnostic : Diagnostic) (note : String) : Diagnostic :=
  { diagnostic with notes := diagnostic.notes ++ [note] }

/-- Sets the code; the last one counts. -/
def withCode (diagnostic : Diagnostic) (code : String) : Diagnostic :=
  { diagnostic with code := some code }

/-- The place of the first label. -/
def primarySpan? (diagnostic : Diagnostic) : Option Span :=
  diagnostic.labels.head?.map Label.span

/-- The message behind its code. -/
def text (diagnostic : Diagnostic) : String :=
  match diagnostic.code with
  | some code => code ++ ": " ++ diagnostic.message
  | none => diagnostic.message

end Diagnostic

end CorpusQuery
