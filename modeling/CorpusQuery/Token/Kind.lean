import CorpusQuery.Token.Keyword
import CorpusQuery.Token.Symbol

/-!
The kinds of tokens. Reserved words and symbols have one spelling each; digits, strings, names,
variables and members carry their text beside the kind. Kinds are numbered in one sequence, reserved
words first and the end of input last (`index`, with inverse `values`), and that is the order in
which sets of kinds are listed.
-/

set_option autoImplicit false
set_option relaxedAutoImplicit false

namespace CorpusQuery

/-- What a token is, apart from its text and its place. -/
inductive Kind where
  | keyword (keyword : Keyword)
  /-- An unbroken run of digits. -/
  | pureDigits
  /-- Runs of digits separated by underscores. -/
  | digits
  | stringLiteral
  | identifier
  /-- A name behind `@`. -/
  | variableName
  /-- A name behind `$`. -/
  | memberName
  | symbol (symbol : Symbol)
  | endOfInput
  deriving DecidableEq, Repr

namespace Kind

/-- Every kind, in the order of `index`. -/
def values : List Kind :=
  Keyword.values.map keyword ++
    [pureDigits, digits, stringLiteral, identifier, variableName, memberName] ++
    Symbol.values.map symbol ++ [endOfInput]

/-- The place of a kind in the sequence of all kinds. -/
def index : Kind → Nat
  | .keyword word => word.index
  | .pureDigits => 51
  | .digits => 52
  | .stringLiteral => 53
  | .identifier => 54
  | .variableName => 55
  | .memberName => 56
  | .symbol mark => 57 + mark.index
  | .endOfInput => 100

/-- How many kinds there are. -/
def count : Nat := 101

/-- The kind in the words of a message. -/
def text : Kind → String
  | .keyword word => word.spelling
  | .pureDigits => "digits"
  | .digits => "separated digits"
  | .stringLiteral => "string literal"
  | .identifier => "identifier"
  | .variableName => "variable"
  | .memberName => "member"
  | .symbol mark => mark.spelling
  | .endOfInput => "end of input"

/-- The name under which the kind is listed. -/
def name : Kind → String
  | .keyword word => word.name
  | .pureDigits => "PureDigits"
  | .digits => "Digits"
  | .stringLiteral => "StringLiteral"
  | .identifier => "Identifier"
  | .variableName => "Variable"
  | .memberName => "Member"
  | .symbol mark => mark.name
  | .endOfInput => "Eof"

/-- The kind listed under a name. -/
def ofName? (name : String) : Option Kind := values.find? fun kind ↦ kind.name == name

def isKeyword : Kind → Bool
  | .keyword _ => true
  | _ => false

/-- Numbers, strings, truth values and `NULL`. -/
def isLiteral : Kind → Bool
  | .pureDigits | .digits | .stringLiteral => true
  | .keyword .true | .keyword .false | .keyword .null => true
  | _ => false

/-- The symbols from `=` on, which are neither punctuation nor edge glyphs. -/
def isOperator : Kind → Bool
  | .symbol mark => decide (Symbol.assign.index ≤ mark.index)
  | _ => false

def isEdgeGlyph : Kind → Bool
  | .symbol mark => mark.isEdgeGlyph
  | _ => false

theorem index_lt_count (kind : Kind) : kind.index < count := by
  cases kind with
  | keyword word => cases word <;> decide
  | symbol mark => cases mark <;> decide
  | _ => decide

theorem getElem?_values_index (kind : Kind) : values[kind.index]? = some kind := by
  cases kind with
  | keyword word => cases word <;> rfl
  | symbol mark => cases mark <;> rfl
  | _ => rfl

theorem mem_values (kind : Kind) : kind ∈ values :=
  List.mem_of_getElem? (getElem?_values_index kind)

theorem index_injective {first second : Kind} (h : first.index = second.index) :
    first = second := by
  have hfirst := getElem?_values_index first
  rw [h, getElem?_values_index second] at hfirst
  exact (Option.some.inj hfirst).symm

end Kind

end CorpusQuery
