import CorpusQuery.Diagnostic
import CorpusQuery.Text.Bytes

/-!
Reports: a diagnostic laid onto the text it is about. Labels are moved into the text first. A label
that reaches past the end is cut (`Source.clampSpan`), and an empty label at the very end, where
nothing could be underlined, moves onto the last character (`Source.labelSpan`). The suggestion and
the notes become one block of help, one line each.
-/

set_option autoImplicit false
set_option relaxedAutoImplicit false

namespace CorpusQuery

/-- The text of a query, possibly under a name. -/
structure Source where
  content : String
  name : Option String
  deriving DecidableEq, Repr

namespace Source

/-- The number of bytes of the text. -/
def byteLength (source : Source) : Nat := Text.byteLength source.content.toList

/-- The part of a span that lies in the text. A reversed span collapses onto its start. -/
def clampSpan (source : Source) (span : Span) : Span :=
  let start := min span.start source.byteLength
  ⟨start, max (min span.stop source.byteLength) start⟩

/-- The span on which a label is drawn. -/
def labelSpan (source : Source) (span : Span) : Span :=
  let clamped := source.clampSpan span
  if clamped.start = clamped.stop ∧ clamped.start = source.byteLength then
    match source.content.toList.getLast? with
    | some last => ⟨source.byteLength - last.utf8Size, source.byteLength⟩
    | none => clamped
  else clamped

end Source

/-- How serious a report is. Every problem of a query is an error. -/
inductive Severity where
  | error
  deriving DecidableEq, Repr

/-- A label in a text, as an offset and a length in bytes. -/
structure Underline where
  offset : Nat
  length : Nat
  message : String
  primary : Bool
  deriving DecidableEq, Repr

namespace Underline

/-- The label laid onto its source. -/
def ofLabel (source : Source) (primary : Bool) (label : Label) : Underline :=
  let span := source.labelSpan label.span
  ⟨span.start, span.stop - span.start, label.message, primary⟩

/-- The labels laid onto their source, of which the first is primary. -/
def ofLabels (source : Source) : List Label → List Underline
  | [] => []
  | first :: rest => ofLabel source true first :: rest.map (ofLabel source false)

end Underline

/-- A diagnostic ready for display over its source. -/
structure Report where
  message : String
  code : Option String
  help : Option String
  severity : Severity
  underlines : List Underline
  deriving DecidableEq, Repr

namespace Report

/-- The suggestion and the notes, one line each, if there are any. -/
def helpText (diagnostic : Diagnostic) : Option String :=
  match diagnostic.help.toList ++ diagnostic.notes with
  | [] => none
  | lines => some ("\n".intercalate lines)

/-- The report of a diagnostic over its source. -/
def ofDiagnostic (source : Source) (diagnostic : Diagnostic) : Report where
  message := diagnostic.message
  code := diagnostic.code
  help := helpText diagnostic
  severity := .error
  underlines := Underline.ofLabels source diagnostic.labels

end Report

end CorpusQuery
