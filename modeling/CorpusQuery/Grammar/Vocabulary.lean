import CorpusQuery.Phrase.Attribute
import CorpusQuery.Token.KindSet

/-!
The words of the grammar: tables that say what a token stands for where one of several may stand,
and the sets of kinds with which the rules begin. A token outside the set of a rule makes the rule
fail where it stands, so the sets also decide whether an optional or repeated part follows.
-/

set_option autoImplicit false
set_option relaxedAutoImplicit false

namespace CorpusQuery.Grammar

/-! ### Tables -/

def valueTypes : List (Kind × ValueType) :=
  [(.keyword .boolean, .boolean), (.keyword .string, .string), (.keyword .int, .int),
    (.keyword .long, .long), (.keyword .float, .float), (.keyword .double, .double)]

/-- What a sign adds to the text of a number. -/
def signs : List (Kind × String) := [(.symbol .plus, ""), (.symbol .minus, "-")]

/-- How many nodes a token between brackets stands for. -/
def cardinalities : List (Kind × Cardinality) :=
  [(.symbol .question, .optional), (.symbol .plus, .oneOrMore), (.symbol .star, .zeroOrMore)]

/-- The two ends of the glyphs that are whole edges. -/
def edgeGlyphs : List (Kind × EdgeEnd × EdgeEnd) :=
  [(.symbol .edgeLeft, .directed, .undirected), (.symbol .edgeRight, .undirected, .directed),
    (.symbol .edgeBidirectional, .directed, .directed),
    (.symbol .edgeUndirected, .undirected, .undirected)]

def arrangements : List (Kind × Arrangement) :=
  [(.keyword .unordered, .unordered), (.keyword .ordered, .ordered),
    (.keyword .adjacent, .adjacent)]

def matchFlags : List (Kind × MatchFlag) :=
  [(.keyword .disjoint, .disjoint), (.keyword .consecutive, .consecutive),
    (.keyword .reverse, .reverse), (.keyword .rooted, .rooted)]

def bindingModifiers : List (Kind × BindingModifier) :=
  [(.keyword .distinct, .distinct), (.keyword .edges, .edges)]

def directions : List (Kind × Direction) :=
  [(.keyword .asc, .ascending), (.keyword .desc, .descending)]

/-! ### Beginnings -/

/-- The digits of an integer. -/
def digitKinds : KindSet := .ofList [.pureDigits, .digits]

/-- The tokens between the alternatives of a disjunction. -/
def disjunctionKinds : KindSet := .ofList [.keyword .or, .symbol .doublePipe]

def expressionStart : KindSet :=
  .ofList [.keyword .null, .keyword .true, .keyword .false, .pureDigits, .digits, .stringLiteral,
    .symbol .leftBrace, .variableName, .memberName, .identifier, .symbol .leftParen,
    .keyword .not, .symbol .bang, .symbol .minus, .symbol .tilde, .keyword .foreach] ∪
    .ofKeys valueTypes

def markerStart : KindSet := .ofList [.identifier, .symbol .leftParen]

def quantifierStart : KindSet :=
  .ofList [.keyword .not, .symbol .bang, .keyword .all, .symbol .star, .pureDigits, .symbol .less]

def nodeStart : KindSet := .single (.symbol .leftBracket) ∪ quantifierStart

def nodeStatementStart : KindSet :=
  nodeStart ∪ .ofKeys arrangements ∪ .single (.symbol .leftBrace)

def structuralStart : KindSet :=
  nodeStatementStart ∪ .ofKeys matchFlags ∪ .single (.keyword .first)

end CorpusQuery.Grammar
