/-!
The operators of expressions. Binary operators come in families, and all members of a family bind
equally tightly: `Family.level` is the strength of a family, a greater level binding more tightly.
Operators of one family group to the left.
-/

set_option autoImplicit false
set_option relaxedAutoImplicit false

namespace CorpusQuery

/-- The operators before an operand. -/
inductive UnaryOperator where
  /-- Logical negation. -/
  | not
  /-- Arithmetic negation. -/
  | minus
  /-- Bitwise complement. -/
  | complement
  deriving DecidableEq, Repr

/-- The name of a unary operator in an outline. -/
def UnaryOperator.name : UnaryOperator → String
  | .not => "Not"
  | .minus => "Minus"
  | .complement => "BitwiseNot"

/-- The families of binary operators. -/
inductive Family where
  | multiplicative
  | additive
  | bitwise
  | comparison
  /-- Matching and containment of strings. -/
  | string
  | equality
  | conjunction
  | disjunction
  deriving DecidableEq, Repr

namespace Family

/-- How tightly the operators of a family bind. -/
def level : Family → Nat
  | .multiplicative => 12
  | .additive => 11
  | .bitwise => 10
  | .comparison => 9
  | .string => 8
  | .equality => 7
  | .conjunction => 6
  | .disjunction => 5

/-- The name of a family in an outline. -/
def name : Family → String
  | .multiplicative => "Multiplicative"
  | .additive => "Additive"
  | .bitwise => "Bitwise"
  | .comparison => "Comparison"
  | .string => "StringOp"
  | .equality => "Equality"
  | .conjunction => "Conjunction"
  | .disjunction => "Disjunction"

end Family

/-- The operators between two operands. -/
inductive BinaryOperator where
  | multiply
  | divide
  | modulo
  | add
  | subtract
  | bitAnd
  /-- The doubled ampersand, which is as loose as the single one and no conjunction. -/
  | doubleAnd
  | bitXor
  | bitOr
  | shiftLeft
  | shiftRight
  | less
  | lessOrEqual
  | greater
  | greaterOrEqual
  | matching
  | notMatching
  | containing
  | notContaining
  | equal
  | notEqual
  | and
  | or
  deriving DecidableEq, Repr

namespace BinaryOperator

def family : BinaryOperator → Family
  | .multiply | .divide | .modulo => .multiplicative
  | .add | .subtract => .additive
  | .bitAnd | .doubleAnd | .bitXor | .bitOr | .shiftLeft | .shiftRight => .bitwise
  | .less | .lessOrEqual | .greater | .greaterOrEqual => .comparison
  | .matching | .notMatching | .containing | .notContaining => .string
  | .equal | .notEqual => .equality
  | .and => .conjunction
  | .or => .disjunction

/-- How tightly an operator binds. -/
def level (operator : BinaryOperator) : Nat := operator.family.level

/-- The name of an operator within its family, if the family has several. -/
def name? : BinaryOperator → Option String
  | .multiply => some "Multiply"
  | .divide => some "Divide"
  | .modulo => some "Modulo"
  | .add => some "Add"
  | .subtract => some "Subtract"
  | .bitAnd => some "And"
  | .doubleAnd => some "DoubleAnd"
  | .bitXor => some "Xor"
  | .bitOr => some "Or"
  | .shiftLeft => some "ShiftLeft"
  | .shiftRight => some "ShiftRight"
  | .less => some "Less"
  | .lessOrEqual => some "LessOrEqual"
  | .greater => some "Greater"
  | .greaterOrEqual => some "GreaterOrEqual"
  | .matching => some "Matches"
  | .notMatching => some "NotMatches"
  | .containing => some "Contains"
  | .notContaining => some "NotContains"
  | .equal => some "Equal"
  | .notEqual => some "NotEqual"
  | .and => none
  | .or => none

end BinaryOperator

end CorpusQuery
