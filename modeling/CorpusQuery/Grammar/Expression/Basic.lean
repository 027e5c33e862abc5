import CorpusQuery.Grammar.Expression.Continuation
import CorpusQuery.Grammar.Expression.Operand

/-!
Expressions. An expression is an operand followed by continuations, each of which takes what was
read so far as its leftmost part. A rule that asks for a least level stops before a looser
continuation; the right operand of a binary operator asks for one level more than the operator has,
which makes the operators of a family group to the left.
-/

set_option autoImplicit false
set_option relaxedAutoImplicit false

namespace CorpusQuery.Grammar

open CorpusQuery.Parser

/-- What a value is assigned to. -/
def target : Parser Target := do
  match ← look Place.kind with
  | .variableName => .variableName <$> variableName
  | .memberName => .memberName <$> memberName
  | _ =>
    failMissing "a variable or member"
      (.ofList [.variableName, .memberName, .keyword .optional])

/-- Passes the token at hand if it is of the first kind or else of the second. -/
def consumeEither (first second : Kind) : Parser Bool := do
  let found ← consume first
  if found then pure true else consume second

/-- Reads a continuation behind the expression to its left. -/
def Continuation.draft (scope : Scope) (left : Phrase .expression) :
    Continuation → Parser (Draft .expression)
  | .path => do
    let _ ← advance
    let name ← identifier
    pure ⟨.path name, .one left .nil⟩
  | .call => do
    let _ ← advance
    let arguments ← optionalExpressionsUntil scope (.symbol .rightParen)
    pure ⟨.call, .one left (.many arguments .nil)⟩
  | .listAccess => do
    let _ ← advance
    let indices ← expressionsUntil scope (.symbol .rightBracket)
    pure ⟨.listAccess, .one left (.many indices .nil)⟩
  | .annotationAccess => do
    let _ ← advance
    let keys ← expressionsUntil scope (.symbol .rightBrace)
    pure ⟨.annotationAccess, .one left (.many keys .nil)⟩
  | .binary operator => do
    let _ ← advance
    let right ← scope.expression (operator.level + 1)
    pure ⟨.binary operator, .one left (.one right .nil)⟩
  | .assignment => do
    let _ ← advance
    let optional ← consume (.keyword .optional)
    let target ← target
    pure ⟨.assignment optional target, .one left .nil⟩
  | .setPredicate => do
    let all ← consumeEither (.keyword .all) (.symbol .star)
    let negated ← consumeEither (.keyword .not) (.symbol .bang)
    let _ ← expect (.keyword .inKw)
    let set ← scope.expression (Continuation.setPredicate.level + 1)
    pure ⟨.setPredicate all negated, .one left (.one set .nil)⟩
  | .ternary => do
    let _ ← advance
    let consequence ← scope.expression 0
    let _ ← expect (.symbol .colon)
    let alternative ← scope.expression Continuation.ternary.level
    pure ⟨.ternary, .one left (.one consequence (.one alternative .nil))⟩

/-- Continues an expression if something of the level follows it. -/
def continuation (scope : Scope) (least : Nat) (left : Phrase .expression) :
    Parser (Option (Phrase .expression)) := do
  match ← look Continuation.at? with
  | none => pure none
  | some continuation =>
    if continuation.level < least then
      pure none
    else
      some <$> phraseFrom left.span.start (continuation.draft scope left)

/-- An expression whose continuations bind at least as tightly as a level. -/
def expression (scope : Scope) (least : Nat) : Parser (Phrase .expression) := do
  let first ← operand scope
  iterate (continuation scope least) first

end CorpusQuery.Grammar
