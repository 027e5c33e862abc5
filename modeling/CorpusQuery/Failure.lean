import CorpusQuery.Diagnostic
import CorpusQuery.Token.Basic

/-!
Failures to parse. A failure is about one token: it tells which kinds would have been accepted in
its place and why parsing could not go on. Its class and its message are computed from these, so
they cannot disagree with the token they describe.

When every alternative of a choice fails, `exhausted` picks the failure to report. The alternative
that got furthest wins; alternatives that failed at the same furthest offset are merged, and a
failure at a token takes the place of a failure at the end of input.
-/

set_option autoImplicit false
set_option relaxedAutoImplicit false

namespace CorpusQuery

/-- Why parsing could not go on at a token. -/
inductive Cause where
  /-- The token is none of the expected kinds. -/
  | unexpected
  /-- The token does not begin what has to stand here. -/
  | missing (what : String)
  /-- The token does not begin a quantifier. -/
  | missingQuantifier
  /-- Every alternative failed at this token. -/
  | noAlternative
  /-- A sign is not touched by the digits behind it. -/
  | detachedSign
  /-- The two halves of an edge part do not touch or do not match. -/
  | incompleteEdge (head tail : Kind)
  /-- Rules are nested more deeply than the limit allows. -/
  | nestingLimit (limit : Nat)
  /-- A reason in the words of the caller. -/
  | stated (message : String)
  deriving DecidableEq, Repr

/-- The class of a failure. -/
inductive FailureClass where
  /-- The token matches no alternative of the rule. -/
  | unexpectedToken
  /-- Every alternative of a choice failed at the same token. -/
  | ambiguityExhausted
  /-- The input ended in the middle of a rule. -/
  | unexpectedEnd
  deriving DecidableEq, Repr

namespace FailureClass

/-- The code of the diagnostics of this class. -/
def code : FailureClass → String
  | .unexpectedToken => "iql::syntax"
  | .ambiguityExhausted => "iql::ambiguity"
  | .unexpectedEnd => "iql::unexpected_eof"

/-- The class in words. -/
def text : FailureClass → String
  | .unexpectedToken => "syntax error"
  | .ambiguityExhausted => "no alternative matched"
  | .unexpectedEnd => "unexpected end of input"

end FailureClass

/-- A failure to parse at one token. -/
structure Failure where
  /-- The offending token. -/
  token : Token
  /-- The kinds that would have been accepted instead. -/
  expected : KindSet
  cause : Cause
  deriving DecidableEq, Repr

namespace Failure

/-- Whether the input ended too early. -/
def atEnd (failure : Failure) : Bool := failure.token.kind == .endOfInput

def failureClass (failure : Failure) : FailureClass :=
  if failure.atEnd then .unexpectedEnd
  else if failure.cause = .noAlternative then .ambiguityExhausted
  else .unexpectedToken

/-- The expected kinds in words. -/
def expectedText (failure : Failure) : String :=
  if failure.expected.size = 1 then failure.expected.text else "one of " ++ failure.expected.text

def message (failure : Failure) : String :=
  match failure.cause with
  | .unexpected =>
    if failure.expected.isEmpty then "unexpected " ++ failure.token.describe
    else "expected " ++ failure.expectedText ++ ", found " ++ failure.token.describe
  | .missing what => "expected " ++ what ++ ", found " ++ failure.token.describe
  | .missingQuantifier => "expected a quantifier, found `" ++ failure.token.kind.text ++ "`"
  | .noAlternative =>
    "no alternative matches " ++ failure.token.describe ++ "; expected " ++ failure.expectedText
  | .detachedSign => "a sign must be directly followed by digits"
  | .incompleteEdge head tail =>
    "incomplete edge: expected `" ++ tail.text ++ "` directly after `" ++ head.text ++ "`"
  | .nestingLimit limit =>
    "nesting limit exceeded (maximum depth is " ++ toString limit ++ ")"
  | .stated message => message

/-- Whether two failures report the same. Causes count only through the message they give. -/
def agrees (first second : Failure) : Bool :=
  first.failureClass == second.failureClass && first.token == second.token &&
    first.expected == second.expected && first.message == second.message

/-! ### Choosing among the failures of alternatives -/

/-- Joins a failure at the same offset to the one that is held. The held token stays, unless it is
the end of input and the other one is not. -/
def merge (held other : Failure) : Failure where
  token := if held.atEnd && !other.atEnd then other.token else held.token
  expected := held.expected ∪ other.expected
  cause := .noAlternative

/-- Compares the failure that is held with the failure of the next alternative. -/
def further (held other : Failure) : Failure :=
  if held.token.span.start < other.token.span.start then other
  else if other.token.span.start = held.token.span.start then held.merge other
  else held

/-- The failure to report after every alternative of a choice failed. -/
def exhausted (first : Failure) (others : List Failure) : Failure := others.foldl further first

/-- The failure as a diagnostic. -/
def toDiagnostic (failure : Failure) : Diagnostic :=
  let label :=
    if failure.failureClass = .unexpectedEnd then "input ends here"
    else if failure.expected.isEmpty then "unexpected token"
    else "expected " ++ failure.expectedText
  let diagnostic := ((Diagnostic.error failure.message).withLabel failure.token.span label).withCode
    failure.failureClass.code
  if failure.failureClass = .ambiguityExhausted then
    diagnostic.withNote "every alternative failed at this token"
  else diagnostic

end Failure

end CorpusQuery
