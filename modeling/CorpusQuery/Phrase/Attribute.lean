/-!
The attributes that a phrase carries besides its parts: the small vocabularies of the query language
and its numerals. A numeral keeps the digits of the text, separators included, because nothing here
computes with it. The names are those by which an outline calls the values.
-/

set_option autoImplicit false
set_option relaxedAutoImplicit false

namespace CorpusQuery

/-- The types that casts and list literals can name. -/
inductive ValueType where
  | boolean
  | string
  | int
  | long
  | float
  | double
  deriving DecidableEq, Repr

def ValueType.name : ValueType → String
  | .boolean => "Boolean"
  | .string => "String"
  | .int => "Int"
  | .long => "Long"
  | .float => "Float"
  | .double => "Double"

/-- A number as it is written. -/
inductive Numeral where
  | integer (text : String)
  /-- Digits, a point and digits. -/
  | decimal (text : String)
  deriving DecidableEq, Repr

namespace Numeral

def text : Numeral → String
  | .integer text => text
  | .decimal text => text

def name : Numeral → String
  | .integer _ => "Integer"
  | .decimal _ => "Float"

/-- Changes the text of a numeral. -/
def map (f : String → String) : Numeral → Numeral
  | .integer text => .integer (f text)
  | .decimal text => .decimal (f text)

end Numeral

/-- What a value is assigned to: a variable or a member, by its bare name. -/
inductive Target where
  | variableName (name : String)
  | memberName (name : String)
  deriving DecidableEq, Repr

namespace Target

def kindName : Target → String
  | .variableName _ => "Variable"
  | .memberName _ => "Member"

def name : Target → String
  | .variableName name => name
  | .memberName name => name

end Target

/-- Which rounds of a loop are taken. -/
inductive Parity where
  | even
  | odd
  deriving DecidableEq, Repr

def Parity.name : Parity → String
  | .even => "Even"
  | .odd => "Odd"

/-- How the matches of a structural constraint may lie. -/
inductive MatchFlag where
  | disjoint
  | consecutive
  | reverse
  | rooted
  deriving DecidableEq, Repr

def MatchFlag.name : MatchFlag → String
  | .disjoint => "Disjoint"
  | .consecutive => "Consecutive"
  | .reverse => "Reverse"
  | .rooted => "Rooted"

/-- How the members of a sequence follow each other. -/
inductive Arrangement where
  | unordered
  | ordered
  | adjacent
  deriving DecidableEq, Repr

def Arrangement.name : Arrangement → String
  | .unordered => "Unordered"
  | .ordered => "Ordered"
  | .adjacent => "Adjacent"

/-- How many nodes a dummy node stands for. -/
inductive Cardinality where
  | optional
  | oneOrMore
  | zeroOrMore
  deriving DecidableEq, Repr

def Cardinality.name : Cardinality → String
  | .optional => "Optional"
  | .oneOrMore => "OneOrMore"
  | .zeroOrMore => "ZeroOrMore"

/-- One end of an edge, with or without an arrow head. -/
inductive EdgeEnd where
  | directed
  | undirected
  deriving DecidableEq, Repr

def EdgeEnd.name : EdgeEnd → String
  | .directed => "Directed"
  | .undirected => "Undirected"

/-- How much a quantifier takes when it has the choice. -/
inductive Greed where
  | greedy
  | reluctant
  | possessive
  deriving DecidableEq, Repr

def Greed.name : Greed → String
  | .greedy => "Greedy"
  | .reluctant => "Reluctant"
  | .possessive => "Possessive"

/-- Whether a count is a lower or an upper bound. -/
inductive Bound where
  | atLeast
  | atMost
  deriving DecidableEq, Repr

def Bound.name : Bound → String
  | .atLeast => "AtLeast"
  | .atMost => "AtMost"

/-- How a binding treats its members. -/
inductive BindingModifier where
  | distinct
  | edges
  deriving DecidableEq, Repr

def BindingModifier.name : BindingModifier → String
  | .distinct => "Distinct"
  | .edges => "Edges"

/-- The direction of an order. -/
inductive Direction where
  | ascending
  | descending
  deriving DecidableEq, Repr

def Direction.name : Direction → String
  | .ascending => "Asc"
  | .descending => "Desc"

end CorpusQuery
