import CorpusQuery.Cursor
import CorpusQuery.Phrase.Operator

/-!
How an expression can go on behind an operand. Which continuation a token opens depends on the
tokens behind it, since a star may multiply or begin a set predicate, and on the token just passed,
since calls and accesses have to follow a name or a closing bracket. `Continuation.at?` decides it
by looking only, and `Continuation.level` says how tightly each of them binds.
-/

set_option autoImplicit false
set_option relaxedAutoImplicit false

namespace CorpusQuery.Grammar

/-- The operator that a token stands for behind an operand. -/
def binaryOperator? : Kind → Option BinaryOperator
  | .symbol .star => some .multiply
  | .symbol .slash => some .divide
  | .symbol .percent => some .modulo
  | .symbol .plus => some .add
  | .symbol .minus => some .subtract
  | .symbol .ampersand => some .bitAnd
  | .symbol .doubleAmpersand => some .doubleAnd
  | .symbol .caret => some .bitXor
  | .symbol .pipe => some .bitOr
  | .symbol .shiftLeft => some .shiftLeft
  | .symbol .shiftRight => some .shiftRight
  | .symbol .less => some .less
  | .symbol .lessEqual => some .lessOrEqual
  | .symbol .greater => some .greater
  | .symbol .greaterEqual => some .greaterOrEqual
  | .symbol .matching => some .matching
  | .symbol .notMatching => some .notMatching
  | .symbol .containing => some .containing
  | .symbol .notContaining => some .notContaining
  | .symbol .doubleEqual => some .equal
  | .symbol .notEqual => some .notEqual
  | .keyword .and => some .and
  | .keyword .or | .symbol .doublePipe => some .or
  | _ => none

/-- What can stand behind an operand. -/
inductive Continuation where
  | path
  | call
  | listAccess
  | annotationAccess
  | binary (operator : BinaryOperator)
  | assignment
  | setPredicate
  | ternary
  deriving DecidableEq, Repr

namespace Continuation

/-- How tightly a continuation binds to the operand before it. -/
def level : Continuation → Nat
  | .path => 19
  | .call => 18
  | .listAccess => 17
  | .annotationAccess => 16
  | .binary operator => operator.level
  | .assignment => 4
  | .setPredicate => 3
  | .ternary => 2

/-- What can be called: identifiers, variables and members. -/
def callable : KindSet := .ofList [.identifier, .variableName, .memberName]

/-- Behind what a list can be accessed. -/
def listAccessible : KindSet :=
  callable ∪ .ofList [.symbol .rightParen, .symbol .rightBrace, .symbol .rightBracket]

/-- Behind what annotations can be accessed. -/
def annotationAccessible : KindSet :=
  callable ∪ .ofList [.symbol .rightParen, .symbol .rightBracket]

/-- Whether the token just passed is of one of the kinds. -/
def follows (place : Place) (kinds : KindSet) : Bool := place.previousKind?.any kinds.contains

/-- Whether a token says that all elements are meant. -/
def isUniversal (kind : Kind) : Bool := kind == .keyword .all || kind == .symbol .star

/-- Whether a token negates. -/
def isNegation (kind : Kind) : Bool := kind == .keyword .not || kind == .symbol .bang

/-- Whether a set predicate follows: `IN`, before it possibly a negation, and before that possibly
a universal. -/
def atSetPredicate (place : Place) : Bool :=
  let count := if isUniversal place.kind then 1 else 0
  let count := if isNegation (place.peekKind count) then count + 1 else count
  place.peekKind count == .keyword .inKw

/-- The continuation that follows an operand, if any. -/
def at? (place : Place) : Option Continuation :=
  if atSetPredicate place then
    some .setPredicate
  else
    match place.kind with
    | .symbol .dot => some .path
    | .symbol .leftParen => if follows place callable then some .call else none
    | .symbol .leftBracket => if follows place listAccessible then some .listAccess else none
    | .symbol .leftBrace =>
      if follows place annotationAccessible then some .annotationAccess else none
    | .keyword .asKw => some .assignment
    | .symbol .question => some .ternary
    | kind => (binaryOperator? kind).map .binary

end Continuation

end CorpusQuery.Grammar
