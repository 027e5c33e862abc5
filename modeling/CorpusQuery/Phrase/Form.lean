import CorpusQuery.Phrase.Attribute
import CorpusQuery.Phrase.Operator

/-!
The forms of phrases. Every phrase belongs to a category, such as an expression or a node, and has a
form of that category together with the attributes of the form. A form fixes which parts a phrase of
it has: `Form.slots` names them in the order in which they are written, each with its category and
with how often it occurs. A tree that fits its slots is therefore well formed by its type.
-/

set_option autoImplicit false
set_option relaxedAutoImplicit false

namespace CorpusQuery

/-- The categories of phrases. -/
inductive Category where
  | expression
  | loop
  | loopControl
  | boundedRange
  | counter
  | structuralConstraint
  | hitsLimit
  | nodeStatement
  | node
  | element
  | edge
  | marker
  | quantifier
  | simpleQuantifier
  | payload
  | binding
  | selection
  | lane
  | group
  | groupExpression
  | result
  | resultLimit
  | orderExpression
  deriving DecidableEq, Repr

/-- The forms of each category, with their attributes. -/
inductive Form : Category → Type where
  | null : Form .expression
  | boolean (value : Bool) : Form .expression
  | number (numeral : Numeral) : Form .expression
  /-- A string, by its decoded contents. -/
  | string (contents : String) : Form .expression
  | variableName (name : String) : Form .expression
  | memberName (name : String) : Form .expression
  | identifier (name : String) : Form .expression
  | qualified (space name : String) : Form .expression
  /-- A list of items, with the type of its elements if it is given. -/
  | list (elements : Option ValueType) : Form .expression
  | cast (type : ValueType) : Form .expression
  /-- An expression in parentheses. -/
  | wrapping : Form .expression
  | unary (operator : UnaryOperator) : Form .expression
  /-- A loop used as a value. -/
  | forEach : Form .expression
  | binary (operator : BinaryOperator) : Form .expression
  /-- Membership of one element, or of all of them, in a set. -/
  | setPredicate (all negated : Bool) : Form .expression
  | ternary : Form .expression
  | path (name : String) : Form .expression
  | call : Form .expression
  | listAccess : Form .expression
  | annotationAccess : Form .expression
  | assignment (optional : Bool) (target : Target) : Form .expression
  | loop (name : String) : Form .loop
  | loopControl (parity : Option Parity) : Form .loopControl
  | boundedRange : Form .boundedRange
  | counter (name : String) : Form .counter
  /-- Node statements with the flags of their matches, repetitions kept. -/
  | structuralConstraint (flags : List MatchFlag) : Form .structuralConstraint
  | hits (limit : String) : Form .hitsLimit
  | firstHit : Form .hitsLimit
  | grouping : Form .nodeStatement
  | sequence (arrangements : List Arrangement) : Form .nodeStatement
  | singleNode : Form .nodeStatement
  | graphFragment : Form .nodeStatement
  | nodeDisjunction : Form .nodeStatement
  | dummyNode (cardinality : Cardinality) : Form .node
  | properNode (label : Option String) : Form .node
  /-- A node without an edge. -/
  | content : Form .element
  /-- Two nodes and the edge between them. -/
  | connection : Form .element
  | emptyEdge (left right : EdgeEnd) : Form .edge
  | filledEdge (left right : EdgeEnd) (label : Option String) : Form .edge
  | markerCall (name : String) (arguments : List Numeral) : Form .marker
  | markerWrapping : Form .marker
  | markerConjunction : Form .marker
  | markerDisjunction : Form .marker
  /-- Alternative quantifiers, possibly in angle brackets. -/
  | quantifier (bounded : Bool) : Form .quantifier
  | noneOf : Form .simpleQuantifier
  | allOf (greed : Greed) : Form .simpleQuantifier
  | count (value : String) (bound : Option Bound) (greed : Greed) (discontinuous : Bool) :
      Form .simpleQuantifier
  | countRange (low high : String) (greed : Greed) (discontinuous : Bool) : Form .simpleQuantifier
  | everything : Form .payload
  | query : Form .payload
  /-- The members that are bound, never none of them, and the layer they come from. -/
  | binding (modifier : Option BindingModifier) (members : List String) (source : String) :
      Form .binding
  | plainSelection : Form .selection
  | structuralSelection : Form .selection
  | laneSelection : Form .selection
  | lane (name : String) (label : Option String) : Form .lane
  | group : Form .group
  | groupExpression (label : String) : Form .groupExpression
  | result : Form .result
  | resultLimit (first : Bool) (value : String) : Form .resultLimit
  | orderExpression (direction : Direction) : Form .orderExpression
  deriving DecidableEq, Repr

/-- How often a part occurs. -/
inductive Occurrence where
  | one
  | optional
  | many
  deriving DecidableEq, Repr

/-- A place for the parts of one kind. -/
structure Slot where
  field : String
  occurrence : Occurrence
  category : Category
  deriving DecidableEq, Repr

namespace Slot

/-- A part that is always there. -/
abbrev one (field : String) (category : Category) : Slot := ⟨field, .one, category⟩

/-- A part that may be missing. -/
abbrev optional (field : String) (category : Category) : Slot := ⟨field, .optional, category⟩

/-- Any number of parts. -/
abbrev many (field : String) (category : Category) : Slot := ⟨field, .many, category⟩

end Slot

/-- The parts that a phrase of a form has, in the order of their fields. -/
abbrev Form.slots : {category : Category} → Form category → List Slot
  | _, .null | _, .boolean _ | _, .number _ | _, .string _ => []
  | _, .variableName _ | _, .memberName _ | _, .identifier _ | _, .qualified _ _ => []
  | _, .list _ => [.many "item" .expression]
  | _, .cast _ => [.one "operand" .expression]
  | _, .wrapping => [.one "inner" .expression]
  | _, .unary _ => [.one "operand" .expression]
  | _, .forEach => [.one "loop" .loop]
  | _, .binary _ => [.one "lhs" .expression, .one "rhs" .expression]
  | _, .setPredicate _ _ => [.one "element" .expression, .one "set" .expression]
  | _, .ternary =>
    [.one "condition" .expression, .one "then" .expression, .one "else" .expression]
  | _, .path _ => [.one "target" .expression]
  | _, .call => [.one "target" .expression, .many "argument" .expression]
  | _, .listAccess => [.one "target" .expression, .many "index" .expression]
  | _, .annotationAccess => [.one "target" .expression, .many "key" .expression]
  | _, .assignment _ _ => [.one "source" .expression]
  | _, .loop _ =>
    [.one "source" .expression, .one "control" .loopControl, .many "counter" .counter]
  | _, .loopControl _ =>
    [.optional "omit" .expression, .optional "range" .boundedRange,
      .optional "step" .boundedRange, .optional "action" .expression]
  | _, .boundedRange => [.one "lower" .expression, .one "upper" .expression]
  | _, .counter _ => [.one "constraint" .expression]
  | _, .structuralConstraint _ =>
    [.optional "hits_limit" .hitsLimit, .many "statement" .nodeStatement]
  | _, .hits _ | _, .firstHit => []
  | _, .grouping => [.optional "quantifier" .quantifier, .many "statement" .nodeStatement]
  | _, .sequence _ => [.many "statement" .nodeStatement]
  | _, .singleNode => [.one "node" .node]
  | _, .graphFragment => [.many "element" .element]
  | _, .nodeDisjunction => [.one "left" .nodeStatement, .one "right" .nodeStatement]
  | _, .dummyNode _ => []
  | _, .properNode _ =>
    [.optional "quantifier" .quantifier, .optional "marker" .marker,
      .optional "constraint" .expression, .optional "children" .structuralConstraint]
  | _, .content => [.one "node" .node]
  | _, .connection => [.one "source" .node, .one "edge" .edge, .one "target" .node]
  | _, .emptyEdge _ _ => []
  | _, .filledEdge _ _ _ => [.optional "constraint" .expression]
  | _, .markerCall _ _ => []
  | _, .markerWrapping => [.one "inner" .marker]
  | _, .markerConjunction | _, .markerDisjunction => [.one "left" .marker, .one "right" .marker]
  | _, .quantifier _ => [.many "alternative" .simpleQuantifier]
  | _, .noneOf | _, .allOf _ | _, .count _ _ _ _ | _, .countRange _ _ _ _ => []
  | _, .everything => []
  | _, .query =>
    [.many "binding" .binding, .optional "filter" .expression, .one "selection" .selection]
  | _, .binding _ _ _ => []
  | _, .plainSelection => [.one "constraint" .expression]
  | _, .structuralSelection =>
    [.one "constraint" .structuralConstraint, .optional "having" .expression]
  | _, .laneSelection => [.many "lane" .lane, .optional "having" .expression]
  | _, .lane _ _ => [.one "constraint" .structuralConstraint]
  | _, .group => [.many "expression" .groupExpression]
  | _, .groupExpression _ =>
    [.one "selector" .expression, .optional "filter" .expression,
      .optional "default" .expression]
  | _, .result => [.optional "limit" .resultLimit, .many "order" .orderExpression]
  | _, .resultLimit _ _ => []
  | _, .orderExpression _ => [.one "expression" .expression]

end CorpusQuery
