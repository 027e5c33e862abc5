import CorpusQuery.Phrase.Basic

/-!
Outlines: a tree as a flat list of rows, one for each phrase, in the order in which the phrases
begin. A row tells how deeply its phrase lies, which field of the phrase above it holds it, what it
is and where it stands. Attributes that follow from the presence of parts, such as whether a loop
control says anything at all, are listed with the others.
-/

set_option autoImplicit false
set_option relaxedAutoImplicit false

namespace CorpusQuery

/-- A value in a row of an outline. -/
inductive Attribute where
  | missing
  | flag (value : Bool)
  | text (value : String)
  | texts (values : List String)
  | numerals (values : List Numeral)
  deriving DecidableEq, Repr

namespace Attribute

/-- The text of an optional value. -/
def ofOption (value? : Option String) : Attribute := value?.elim .missing .text

end Attribute

/-- A row of an outline. -/
structure Row where
  depth : Nat
  field : String
  kind : String
  span : Span
  attributes : List Attribute
  deriving DecidableEq, Repr

namespace Form

/-- What an outline calls a form. -/
def kindName : {category : Category} → Form category → String
  | _, .null => "Null"
  | _, .boolean _ => "Boolean"
  | _, .number numeral => numeral.name
  | _, .string _ => "String"
  | _, .variableName _ => "Variable"
  | _, .memberName _ => "Member"
  | _, .identifier _ => "Identifier"
  | _, .qualified _ _ => "QualifiedIdentifier"
  | _, .list _ => "List"
  | _, .cast _ => "Cast"
  | _, .wrapping => "Wrapping"
  | _, .unary _ => "Unary"
  | _, .forEach => "ForEach"
  | _, .binary operator => operator.family.name
  | _, .setPredicate _ _ => "SetPredicate"
  | _, .ternary => "Ternary"
  | _, .path _ => "PathAccess"
  | _, .call => "MethodInvocation"
  | _, .listAccess => "ListAccess"
  | _, .annotationAccess => "AnnotationAccess"
  | _, .assignment _ _ => "Assignment"
  | _, .loop _ => "LoopExpression"
  | _, .loopControl _ => "LoopControl"
  | _, .boundedRange => "BoundedRange"
  | _, .counter _ => "Counter"
  | _, .structuralConstraint _ => "StructuralConstraint"
  | _, .hits _ => "Hits"
  | _, .firstHit => "First"
  | _, .grouping => "Grouping"
  | _, .sequence _ => "Sequence"
  | _, .singleNode => "SingleNode"
  | _, .graphFragment => "GraphFragment"
  | _, .nodeDisjunction => "NodeDisjunction"
  | _, .dummyNode _ => "DummyNode"
  | _, .properNode _ => "ProperNode"
  | _, .content => "Content"
  | _, .connection => "Connection"
  | _, .emptyEdge _ _ => "EmptyEdge"
  | _, .filledEdge _ _ _ => "FilledEdge"
  | _, .markerCall _ _ => "MarkerCall"
  | _, .markerWrapping => "MarkerWrapping"
  | _, .markerConjunction => "MarkerConjunction"
  | _, .markerDisjunction => "MarkerDisjunction"
  | _, .quantifier _ => "Quantifier"
  | _, .noneOf => "QuantifierNot"
  | _, .allOf _ => "QuantifierAll"
  | _, .count _ _ _ _ => "QuantifierFixed"
  | _, .countRange _ _ _ _ => "QuantifierRange"
  | _, .everything => "PayloadAll"
  | _, .query => "PayloadQuery"
  | _, .binding _ _ _ => "Binding"
  | _, .plainSelection => "SelectionConstraint"
  | _, .structuralSelection => "SelectionStructural"
  | _, .laneSelection => "SelectionLanes"
  | _, .lane _ _ => "LaneStatement"
  | _, .group => "GroupStatement"
  | _, .groupExpression _ => "GroupExpression"
  | _, .result => "ResultStatement"
  | _, .resultLimit _ _ => "ResultLimit"
  | _, .orderExpression _ => "OrderExpression"

/-- The attributes of a form, for a phrase that has a given number of parts. -/
def attributes : {category : Category} → Form category → (size : Nat) → List Attribute
  | _, .boolean value, _ => [.flag value]
  | _, .number numeral, _ => [.text numeral.text]
  | _, .string contents, _ => [.text contents]
  | _, .variableName name, _ | _, .memberName name, _ | _, .identifier name, _ => [.text name]
  | _, .qualified space name, _ => [.text space, .text name]
  | _, .list elements, _ => [.ofOption (elements.map ValueType.name)]
  | _, .cast type, _ => [.text type.name]
  | _, .unary operator, _ => [.text operator.name]
  | _, .binary operator, _ => operator.name?.toList.map .text
  | _, .setPredicate all negated, _ => [.flag all, .flag negated]
  | _, .path name, _ => [.text name]
  | _, .assignment optional target, _ => [.flag optional, .text target.kindName, .text target.name]
  | _, .loop name, _ => [.text name]
  | _, .loopControl parity, size =>
    [.ofOption (parity.map Parity.name), .flag (parity.isNone && size == 0)]
  | _, .counter name, _ => [.text name]
  | _, .structuralConstraint flags, _ => [.texts (flags.map MatchFlag.name)]
  | _, .hits limit, _ => [.text limit]
  | _, .sequence arrangements, _ => [.texts (arrangements.map Arrangement.name)]
  | _, .dummyNode cardinality, _ => [.text cardinality.name]
  | _, .properNode label, size => [.ofOption label, .flag (label.isNone && size == 0)]
  | _, .emptyEdge left right, _ => [.text left.name, .text right.name]
  | _, .filledEdge left right label, _ => [.text left.name, .text right.name, .ofOption label]
  | _, .markerCall name arguments, _ => [.text name, .numerals arguments]
  | _, .quantifier bounded, size => [.flag bounded, .flag (!bounded && size == 1)]
  | _, .allOf greed, _ => [.text greed.name]
  | _, .count value bound greed discontinuous, _ =>
    [.text value, .ofOption (bound.map Bound.name), .text greed.name, .flag discontinuous]
  | _, .countRange low high greed discontinuous, _ =>
    [.text low, .text high, .text greed.name, .flag discontinuous]
  | _, .binding modifier members source, _ =>
    [.ofOption (modifier.map BindingModifier.name), .texts members, .text source]
  | _, .lane name label, _ => [.text name, .ofOption label]
  | _, .groupExpression label, _ => [.text label]
  | _, .resultLimit first value, _ => [.flag first, .text value]
  | _, .orderExpression direction, _ => [.text direction.name]
  | _, _, _ => []

end Form

namespace Tree

/-- The rows of a tree at a depth and in a field, put before other rows. The parts of a phrase lie
one deeper, in the fields of their slots. -/
def rowsBefore : {role : Role} → Tree role → (depth : Nat) → (field : String) → List Row → List Row
  | _, .phrase form span parts, depth, field, rows =>
    ⟨depth, field, form.kindName, span, form.attributes parts.size⟩ ::
      parts.rowsBefore (depth + 1) field rows
  | _, .nil, _, _, rows => rows
  | _, @one name _ _ part rest, depth, field, rows =>
    part.rowsBefore depth name (rest.rowsBefore depth field rows)
  | _, .absent rest, depth, field, rows => rest.rowsBefore depth field rows
  | _, @present name _ _ part rest, depth, field, rows =>
    part.rowsBefore depth name (rest.rowsBefore depth field rows)
  | _, .done rest, depth, field, rows => rest.rowsBefore depth field rows
  | _, @more name _ _ part rest, depth, field, rows =>
    part.rowsBefore depth name (rest.rowsBefore depth field rows)

end Tree

/-- The outline of a phrase, which itself is the root. -/
def Phrase.outline {category : Category} (phrase : Phrase category) : List Row :=
  phrase.rowsBefore 0 "root" []

end CorpusQuery
