import CorpusQuery.Failure
import CorpusQuery.Text.Quoted

/-!
The trace of a parse: an event whenever a rule is entered or left, and whenever a failed attempt is
taken back. Every event knows how deeply it is nested. In its readable form an event is a line,
indented by its depth; a message that holds line breaks makes several.
-/

set_option autoImplicit false
set_option relaxedAutoImplicit false

namespace CorpusQuery

/-- Something that happened during a parse. -/
inductive Event where
  /-- A rule was entered at a token. -/
  | entered (rule : String) (depth : Nat) (token : Token)
  /-- A rule was left, with its failure if it failed. -/
  | left (rule : String) (depth : Nat) (failure : Option Failure)
  /-- An attempt failed and parsing went back to a token. -/
  | rewound (rule : String) (depth : Nat) (token : Token)
  deriving DecidableEq, Repr

namespace Event

/-- The beginning of the line of an event. -/
def heading (rule : String) (depth : Nat) : String :=
  String.join (List.replicate depth "|  ") ++ "[" ++ rule ++ "] "

/-- The bounds of a span. -/
def spanText (span : Span) : String := toString span.start ++ ".." ++ toString span.stop

/-- The event in readable form. -/
def text : Event → String
  | .entered rule depth token =>
    heading rule depth ++ "at `" ++ token.kind.text ++ "` (" ++ Text.quoted token.text ++ " " ++
      spanText token.span ++ ")"
  | .left rule depth none => heading rule depth ++ "ok"
  | .left rule depth (some failure) =>
    heading rule depth ++ "!!! " ++ failure.failureClass.text ++ ": " ++ failure.message ++
      " at " ++ spanText failure.token.span
  | .rewound rule depth token =>
    heading rule depth ++ "<== rewound to `" ++ token.kind.text ++ "` at " ++
      toString token.span.start

end Event

/-- Where the events of a parse go. -/
inductive TraceSink where
  /-- Events are written in readable form. -/
  | readable
  /-- Events are dropped. -/
  | silent
  deriving DecidableEq, Repr

/-- The lines that an event leaves in a sink. -/
def TraceSink.lines : TraceSink → Event → List String
  | .readable, event => event.text.splitOn "\n"
  | .silent, _ => []

end CorpusQuery
