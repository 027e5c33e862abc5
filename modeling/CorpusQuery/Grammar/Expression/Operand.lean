import CorpusQuery.Grammar.Atom
import CorpusQuery.Grammar.Rule

/-!
Operands: what an expression begins with. A literal, a name, a list, an expression in parentheses or
a loop is complete in itself. A cast and a unary operator take an operand of their own, to which
only calls and accesses are added before they take it.
-/

set_option autoImplicit false
set_option relaxedAutoImplicit false

namespace CorpusQuery.Grammar

open CorpusQuery.Parser

/-- The level that the operand of a unary operator asks for. -/
def unaryOperandLevel : Nat := 13

/-- The level that the operand of a cast asks for. -/
def castOperandLevel : Nat := 15

/-! ### Lists of expressions -/

/-- One or more expressions separated by commas, up to and including a closing token. -/
def expressionsUntil (scope : Scope) (close : Kind) : Parser (List (Phrase .expression)) := do
  let items ← separatedBy (.symbol .comma) (scope.expression 0)
  let _ ← expect close
  pure items

/-- Any number of expressions separated by commas, up to and including a closing token. -/
def optionalExpressionsUntil (scope : Scope) (close : Kind) :
    Parser (List (Phrase .expression)) := do
  let isEmpty ← consume close
  if isEmpty then pure [] else expressionsUntil scope close

/-- The items of a list literal in braces. -/
def listItems (scope : Scope) : Parser (List (Phrase .expression)) := do
  let _ ← expect (.symbol .leftBrace)
  optionalExpressionsUntil scope (.symbol .rightBrace)

/-! ### Operands -/

/-- A literal, a name or a list literal. -/
def primary (scope : Scope) : Parser (Draft .expression) := do
  let kind ← look Place.kind
  let next ← look (·.peekKind 1)
  match kind with
  | .keyword .null =>
    let _ ← advance
    pure ⟨.null, .nil⟩
  | .keyword .true =>
    let _ ← advance
    pure ⟨.boolean true, .nil⟩
  | .keyword .false =>
    let _ ← advance
    pure ⟨.boolean false, .nil⟩
  | .pureDigits | .digits =>
    let numeral ← numeral
    pure ⟨.number numeral, .nil⟩
  | .stringLiteral =>
    let token ← advance
    pure ⟨.string token.text, .nil⟩
  | .symbol .leftBrace =>
    let items ← listItems scope
    pure ⟨.list none, .many items .nil⟩
  | .variableName =>
    let name ← variableName
    pure ⟨.variableName name, .nil⟩
  | .memberName =>
    let name ← memberName
    pure ⟨.memberName name, .nil⟩
  | .identifier =>
    let token ← advance
    if next = .symbol .doubleColon then
      let _ ← advance
      let name ← identifier
      pure ⟨.qualified token.text name, .nil⟩
    else
      pure ⟨.identifier token.text, .nil⟩
  | _ =>
    match valueTypes.lookup kind, next with
    | some type, .symbol .leftBracket =>
      let _ ← advance
      let _ ← advance
      let _ ← expect (.symbol .rightBracket)
      let items ← listItems scope
      pure ⟨.list (some type), .many items .nil⟩
    | _, _ => failMissing "an expression" expressionStart

/-- The type of the cast that begins here, if one does: a type in parentheses. -/
def castAt? (place : Place) : Option ValueType :=
  if place.kind = .symbol .leftParen ∧ place.peekKind 2 = .symbol .rightParen then
    valueTypes.lookup (place.peekKind 1)
  else
    none

/-- The operator that a token stands for before an operand. -/
def unaryOperator? : Kind → Option UnaryOperator
  | .keyword .not | .symbol .bang => some .not
  | .symbol .minus => some .minus
  | .symbol .tilde => some .complement
  | _ => none

/-- An expression in parentheses. -/
def wrapping (scope : Scope) : Parser (Draft .expression) := do
  let _ ← advance
  let inner ← scope.expression 0
  let _ ← expect (.symbol .rightParen)
  pure ⟨.wrapping, .one inner .nil⟩

/-- A cast, whose type has been seen. -/
def castTo (scope : Scope) (type : ValueType) : Parser (Draft .expression) := do
  let _ ← advance
  let _ ← advance
  let _ ← advance
  let operand ← scope.expression castOperandLevel
  pure ⟨.cast type, .one operand .nil⟩

/-- A unary operator, which has been seen, and its operand. -/
def unary (scope : Scope) (operator : UnaryOperator) : Parser (Draft .expression) := do
  let _ ← advance
  let operand ← scope.expression unaryOperandLevel
  pure ⟨.unary operator, .one operand .nil⟩

/-- An expression without continuations. -/
def operand (scope : Scope) : Parser (Phrase .expression) := phrase do
  match ← look castAt? with
  | some type => castTo scope type
  | none =>
    let kind ← look Place.kind
    match unaryOperator? kind with
    | some operator => unary scope operator
    | none =>
      if kind = .symbol .leftParen then
        wrapping scope
      else if kind = .keyword .foreach then
        let loop ← scope.loop
        pure ⟨.forEach, .one loop .nil⟩
      else
        primary scope

end CorpusQuery.Grammar
