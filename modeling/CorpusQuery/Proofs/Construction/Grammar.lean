import CorpusQuery.Proofs.Construction.Basic

/-!
Every rule of the grammar is one construction over any two scopes (`Rule.alike_body`), and so is
every entry (`Entry.alike_complete`). The three choices of the grammar between a tried reading and a
second one are brought into the form `Parser.either` on the way.
-/

set_option autoImplicit false
set_option relaxedAutoImplicit false

namespace CorpusQuery

open CorpusQuery.Parser

namespace Grammar

variable {scope other : Scope}

/-! ### Names and numbers -/

theorem alike_variableName : Alike scope other variableName variableName :=
  (Alike.elementary (.expect _)).map _

theorem alike_memberName : Alike scope other memberName memberName :=
  (Alike.elementary (.expect _)).map _

theorem alike_identifier : Alike scope other identifier identifier :=
  (Alike.elementary (.expect _)).map _

theorem alike_label? : Alike scope other label? label? := by
  refine .bind (.elementary (.check _)) fun _ ↦ .bind (.elementary (.look _)) fun _ ↦ .ite ?_ ?_
  · exact .bind alike_memberName fun _ ↦ .bind (.elementary (.expect _)) fun _ ↦ .pure _
  · exact .pure _

theorem alike_integer : Alike scope other integer integer := by
  refine .bind (.elementary (.consumeAny _)) fun found ↦ ?_
  cases found with
  | none => exact .elementary (.fail _ rfl)
  | some token => exact .pure _

theorem alike_numeral : Alike scope other numeral numeral := by
  refine .bind (.elementary (.look _)) fun _ ↦ .ite ?_ (alike_integer.map _)
  exact .bind (.elementary .advance) fun _ ↦ .bind (.elementary .advance) fun _ ↦
    .bind (.elementary .advance) fun _ ↦ .pure _

theorem alike_signedNumeral : Alike scope other signedNumeral signedNumeral := by
  refine .bind (.oneOf _) fun found ↦ ?_
  cases found with
  | none => exact alike_numeral
  | some sign =>
    refine .bind (.elementary (.look _)) fun _ ↦ .ite (alike_numeral.map _) ?_
    exact .bind (.elementary (.expecting _)) fun _ ↦
      .elementary (.fail _ rfl)

/-! ### Expressions -/

theorem alike_expressionsUntil (close : Kind) :
    Alike scope other (expressionsUntil scope close) (expressionsUntil other close) :=
  .bind (.separatedBy .expression (.nested _)) fun _ ↦
    .bind (.elementary (.expect _)) fun _ ↦ .pure _

theorem alike_optionalExpressionsUntil (close : Kind) :
    Alike scope other (optionalExpressionsUntil scope close)
      (optionalExpressionsUntil other close) :=
  .bind (.elementary (.consume _)) fun _ ↦ .ite (.pure _) (alike_expressionsUntil close)

theorem alike_listItems : Alike scope other (listItems scope) (listItems other) :=
  .bind (.elementary (.expect _)) fun _ ↦ alike_optionalExpressionsUntil _

theorem alike_primary : Alike scope other (primary scope) (primary other) := by
  refine .bind (.elementary (.look _)) fun kind ↦ .bind (.elementary (.look _)) fun next ↦ ?_
  split
  · exact .bind (.elementary .advance) fun _ ↦ .pure _
  · exact .bind (.elementary .advance) fun _ ↦ .pure _
  · exact .bind (.elementary .advance) fun _ ↦ .pure _
  · exact .bind alike_numeral fun _ ↦ .pure _
  · exact .bind alike_numeral fun _ ↦ .pure _
  · exact .bind (.elementary .advance) fun _ ↦ .pure _
  · exact .bind alike_listItems fun _ ↦ .pure _
  · exact .bind alike_variableName fun _ ↦ .pure _
  · exact .bind alike_memberName fun _ ↦ .pure _
  · refine .bind (.elementary .advance) fun _ ↦ .ite ?_ (.pure _)
    exact .bind (.elementary .advance) fun _ ↦ .bind alike_identifier fun _ ↦ .pure _
  · split
    · exact .bind (.elementary .advance) fun _ ↦ .bind (.elementary .advance) fun _ ↦
        .bind (.elementary (.expect _)) fun _ ↦ .bind alike_listItems fun _ ↦ .pure _
    · exact .elementary (.failMissing _ _)

theorem alike_castTo (type : ValueType) :
    Alike scope other (castTo scope type) (castTo other type) :=
  .bind (.elementary .advance) fun _ ↦ .bind (.elementary .advance) fun _ ↦
    .bind (.elementary .advance) fun _ ↦ .bind (.nested _) fun _ ↦ .pure _

theorem alike_operand : Alike scope other (operand scope) (operand other) := by
  refine .phrase (.bind (.elementary (.look _)) fun type? ↦ ?_)
  cases type? with
  | some type => exact alike_castTo type
  | none =>
    refine .bind (.elementary (.look _)) fun kind ↦ ?_
    cases unaryOperator? kind with
    | some operator =>
      exact .bind (.elementary .advance) fun _ ↦ .bind (.nested _) fun _ ↦ .pure _
    | none =>
      refine .ite ?_ (.ite (.bind (.nested _) fun _ ↦ .pure _) alike_primary)
      exact .bind (.elementary .advance) fun _ ↦ .bind (.nested _) fun _ ↦
        .bind (.elementary (.expect _)) fun _ ↦ .pure _

theorem alike_target : Alike scope other target target := by
  refine .bind (.elementary (.look _)) fun kind ↦ ?_
  split
  · exact alike_variableName.map _
  · exact alike_memberName.map _
  · exact .elementary (.failMissing _ _)

theorem alike_consumeEither (first second : Kind) :
    Alike scope other (consumeEither first second) (consumeEither first second) :=
  .bind (.elementary (.consume _)) fun _ ↦ .ite (.pure _) (.elementary (.consume _))

theorem alike_draft (left : Phrase .expression) (continuation : Continuation) :
    Alike scope other (continuation.draft scope left) (continuation.draft other left) := by
  cases continuation with
  | path => exact .bind (.elementary .advance) fun _ ↦ .bind alike_identifier fun _ ↦ .pure _
  | call =>
    exact .bind (.elementary .advance) fun _ ↦
      .bind (alike_optionalExpressionsUntil _) fun _ ↦ .pure _
  | listAccess =>
    exact .bind (.elementary .advance) fun _ ↦ .bind (alike_expressionsUntil _) fun _ ↦ .pure _
  | annotationAccess =>
    exact .bind (.elementary .advance) fun _ ↦ .bind (alike_expressionsUntil _) fun _ ↦ .pure _
  | binary operator =>
    exact .bind (.elementary .advance) fun _ ↦ .bind (.nested _) fun _ ↦ .pure _
  | assignment =>
    exact .bind (.elementary .advance) fun _ ↦ .bind (.elementary (.consume _)) fun _ ↦
      .bind alike_target fun _ ↦ .pure _
  | setPredicate =>
    exact .bind (alike_consumeEither _ _) fun _ ↦ .bind (alike_consumeEither _ _) fun _ ↦
      .bind (.elementary (.expect _)) fun _ ↦ .bind (.nested _) fun _ ↦ .pure _
  | ternary =>
    exact .bind (.elementary .advance) fun _ ↦ .bind (.nested _) fun _ ↦
      .bind (.elementary (.expect _)) fun _ ↦ .bind (.nested _) fun _ ↦ .pure _

theorem alike_continuation (least : Nat) (left : Phrase .expression) :
    Alike scope other (continuation scope least left) (continuation other least left) := by
  refine .bind (.elementary (.look _)) fun found ↦ ?_
  cases found with
  | none => exact .pure _
  | some continuation => exact .ite (.pure _) ((Alike.phraseFrom _ (alike_draft _ _)).map _)

theorem alike_expression (least : Nat) :
    Alike scope other (expression scope least) (expression other least) :=
  .bind alike_operand fun first ↦ .iterate (.expression least) (alike_continuation least) first

/-! ### Loops -/

theorem alike_boundedRange : Alike scope other (boundedRange scope) (boundedRange other) :=
  .phrase (.bind (.elementary (.expect _)) fun _ ↦ .bind (.nested _) fun _ ↦
    .bind (.elementary (.expect _)) fun _ ↦ .bind (.nested _) fun _ ↦
      .bind (.elementary (.expect _)) fun _ ↦ .pure _)

theorem alike_parity? : Alike scope other parity? parity? :=
  .bind (.elementary (.consume _)) fun _ ↦
    .ite (.pure _) (.bind (.elementary (.consume _)) fun _ ↦ .pure _)

theorem alike_loopControl : Alike scope other (loopControl scope) (loopControl other) :=
  .phrase (.bind alike_parity? fun _ ↦ .bind (.behind _ (.nested _)) fun _ ↦
    .bind (.behind _ alike_boundedRange) fun _ ↦ .bind (.behind _ alike_boundedRange) fun _ ↦
      .bind (.behind _ (.nested _)) fun _ ↦ .bind (.elementary (.expect _)) fun _ ↦ .pure _)

theorem alike_counted : Alike scope other (counted scope) (counted other) :=
  .bind (.nested _) fun _ ↦ .bind (.elementary (.expect _)) fun _ ↦
    .bind alike_variableName fun _ ↦ .pure _

theorem alike_counters : Alike scope other (counters scope) (counters other) :=
  .bind (.elementary (.consume _)) fun _ ↦
    .ite (.separatedBy .counter (.phrase (alike_counted.bind fun _ ↦ .pure _))) (.pure _)

theorem alike_loop : Alike scope other (loop scope) (loop other) :=
  .phrase (.bind (.elementary (.expect _)) fun _ ↦ .bind alike_counted fun _ ↦
    .bind alike_loopControl fun _ ↦ .bind alike_counters fun _ ↦ .pure _)

/-! ### Quantifiers and markers -/

theorem alike_greed (possessive : Kind) : Alike scope other (greed possessive) (greed possessive) :=
  .bind (.elementary (.consume _)) fun _ ↦
    .ite (.pure _) (.bind (.elementary (.consume _)) fun _ ↦ .pure _)

theorem alike_countFrom (low : String) : Alike scope other (countFrom low) (countFrom low) := by
  refine .bind (.elementary (.consume _)) fun _ ↦ .ite ?_ ?_
  · exact .bind (.elementary (.expect _)) fun _ ↦ .bind (alike_greed _) fun _ ↦
      .bind (.elementary (.consume _)) fun _ ↦ .pure _
  · refine .bind (.elementary (.consume _)) fun _ ↦ .ite (.bind (.pure _) fun _ ↦ ?_)
      (.bind (.elementary (.consume _)) fun _ ↦ ?_)
    all_goals
      exact .bind (alike_greed _) fun _ ↦ .bind (.elementary (.consume _)) fun _ ↦ .pure _

theorem alike_simpleQuantifier : Alike scope other simpleQuantifier simpleQuantifier := by
  refine .phrase (.bind (.elementary (.look _)) fun first ↦ ?_)
  split
  · exact .bind (.elementary .advance) fun _ ↦ .pure _
  · exact .bind (.elementary .advance) fun _ ↦ .pure _
  · exact .bind (.elementary .advance) fun _ ↦ .bind (alike_greed _) fun _ ↦ .pure _
  · exact .bind (.elementary .advance) fun _ ↦ .bind (alike_greed _) fun _ ↦ .pure _
  · exact .bind (.elementary .advance) fun _ ↦ alike_countFrom _
  · exact .bind (.elementary (.expecting _)) fun _ ↦
      .elementary (.fail _ rfl)

theorem alike_quantifier : Alike scope other quantifier quantifier :=
  .phrase (.bind (.elementary (.consume _)) fun _ ↦
    .bind (.separatedBy .simpleQuantifier alike_simpleQuantifier) fun _ ↦
      .ite (.bind (.elementary (.expect _)) fun _ ↦ .pure _) (.pure _))

theorem alike_quantifier? : Alike scope other quantifier? quantifier? :=
  .bind (.elementary (.checkAny _)) fun _ ↦ .ite (alike_quantifier.map _) (.pure _)

theorem alike_markerArguments : Alike scope other markerArguments markerArguments :=
  .bind (.elementary (.consume _)) fun _ ↦
    .ite (.bind (.separatedBy .argument alike_signedNumeral) fun _ ↦
      .bind (.elementary (.expect _)) fun _ ↦ .pure _) (.pure _)

theorem alike_markerOperand : Alike scope other (markerOperand scope) (markerOperand other) := by
  refine .phrase (.bind (.elementary (.consume _)) fun _ ↦ .ite ?_ ?_)
  · exact .bind (.nested _) fun _ ↦ .bind (.elementary (.expect _)) fun _ ↦ .pure _
  · refine .bind (.elementary (.check _)) fun _ ↦ .ite ?_ (.elementary (.failMissing _ _))
    exact .bind (.elementary .advance) fun _ ↦ .bind alike_markerArguments fun _ ↦ .pure _

theorem alike_markerContinuation (least : Nat) (left : Phrase .marker) :
    Alike scope other (markerContinuation scope least left)
      (markerContinuation other least left) := by
  refine .bind (.elementary (.look _)) fun kind ↦ ?_
  cases Connective.ofKind? kind with
  | none => exact .pure _
  | some connective =>
    refine .ite (.pure _) ((Alike.phraseFrom _ ?_).map _)
    exact .bind (.elementary .advance) fun _ ↦ .bind (.nested _) fun _ ↦ .pure _

theorem alike_marker (least : Nat) : Alike scope other (marker scope least) (marker other least) :=
  .bind alike_markerOperand fun first ↦
    .iterate (.marker least) (alike_markerContinuation least) first

/-! ### Edges and nodes -/

theorem alike_atEdge : Alike scope other atEdge atEdge :=
  .bind (.elementary (.expecting _)) fun _ ↦ .elementary (.look _)

theorem alike_halves (head tail : Kind) : Alike scope other (halves head tail) (halves head tail) :=
  .bind (.elementary (.expect _)) fun _ ↦ .bind (.elementary (.expecting _)) fun _ ↦
    .bind (.elementary (.look _)) fun _ ↦
      .ite (.bind (.elementary .advance) fun _ ↦ .pure _)
        (.elementary (.fail _ rfl))

theorem alike_edgeEnd (head tail : Kind) :
    Alike scope other (edgeEnd head tail) (edgeEnd head tail) :=
  .bind (.elementary (.check _)) fun _ ↦ .bind (.elementary (.look _)) fun _ ↦
    .ite (.bind (alike_halves _ _) fun _ ↦ .pure _) (.bind (alike_halves _ _) fun _ ↦ .pure _)

theorem alike_edgeConstraint? :
    Alike scope other (edgeConstraint? scope) (edgeConstraint? other) :=
  .bind (.elementary (.check _)) fun _ ↦ .ite (.pure _) ((Alike.nested (.expression 0)).map _)

theorem alike_edge : Alike scope other (edge scope) (edge other) := by
  refine .phrase (.bind (.oneOf _) fun found ↦ ?_)
  cases found with
  | some ends => exact .pure _
  | none =>
    exact .bind (alike_edgeEnd _ _) fun _ ↦ .bind (.elementary (.expect _)) fun _ ↦
      .bind alike_label? fun _ ↦ .bind alike_edgeConstraint? fun _ ↦
        .bind (.elementary (.expect _)) fun _ ↦ .bind (alike_edgeEnd _ _) fun _ ↦ .pure _

theorem alike_elementFrom (source : Phrase .node) :
    Alike scope other (elementFrom scope source) (elementFrom other source) :=
  .phraseFrom _ (.bind alike_atEdge fun _ ↦
    .ite (.bind alike_edge fun _ ↦ .bind (.nested _) fun _ ↦ .pure _) (.pure _))

theorem alike_children? : Alike scope other (children? scope) (children? other) :=
  .bind (.elementary (.checkAny _)) fun _ ↦
    .ite ((Alike.nested .structuralConstraint).map _) (.pure _)

theorem alike_leadingConstraint :
    Alike scope other (leadingConstraint scope) (leadingConstraint other) :=
  .bind (.nested _) fun _ ↦ .bind (.elementary (.check _)) fun _ ↦
    .ite (.pure _) (.bind (.elementary (.look _)) fun _ ↦ .bind (.elementary (.checkAny _)) fun _ ↦
      .ite (.pure _) (.elementary (.fail _ rfl)))

theorem alike_onlyChildren : Alike scope other (onlyChildren scope) (onlyChildren other) :=
  .bind alike_children? fun _ ↦ .bind (.elementary (.expect _)) fun _ ↦ .pure _

/-- The contents of a node as a choice between two readings. -/
theorem nodeContent_eq_either (scope : Scope) :
    nodeContent scope = (do
      let isEmpty ← consume (.symbol .rightBracket)
      if isEmpty then
        pure ⟨none, none⟩
      else
        either "node constraint" scope.depth (leadingConstraint scope)
          (fun constraint ↦ do
            let children ← children? scope
            let _ ← expect (.symbol .rightBracket)
            pure ⟨some constraint, children⟩)
          (attempt "node children" scope.depth (onlyChildren scope)) pure) := by
  refine bind_congr fun isEmpty ↦ congrArg _ (bind_congr fun result ↦ ?_)
  cases result with
  | ok constraint => rfl
  | error failure => exact (bind_pure _).symm

theorem alike_nodeContent : Alike scope other (nodeContent scope) (nodeContent other) := by
  rw [nodeContent_eq_either, nodeContent_eq_either]
  refine .bind (.elementary (.consume _)) fun _ ↦ .ite (.pure _) ?_
  refine .either _ alike_leadingConstraint (fun constraint ↦ ?_)
    (.attempt _ alike_onlyChildren) .pure
  exact .bind alike_children? fun _ ↦ .bind (.elementary (.expect _)) fun _ ↦ .pure _

theorem alike_leadingMarker : Alike scope other (leadingMarker scope) (leadingMarker other) :=
  .bind (.nested _) fun _ ↦ .bind (.elementary (.expect _)) fun _ ↦ .pure _

/-- The marker and the contents of a node as a choice between two readings. -/
theorem markedContent_eq_either (scope : Scope) :
    markedContent scope =
      either "marker" scope.depth (leadingMarker scope)
        (fun marker ↦ do
          let content ← nodeContent scope
          pure (some marker, content))
        (nodeContent scope) (fun content ↦ pure (none, content)) := by
  refine bind_congr fun result ↦ ?_
  cases result with
  | ok marker => rfl
  | error failure => rfl

theorem alike_markedContent : Alike scope other (markedContent scope) (markedContent other) := by
  rw [markedContent_eq_either, markedContent_eq_either]
  refine .either _ alike_leadingMarker (fun marker ↦ ?_) alike_nodeContent fun _ ↦ .pure _
  exact alike_nodeContent.bind fun _ ↦ .pure _

theorem alike_node : Alike scope other (node scope) (node other) := by
  refine .phrase (.bind (.elementary (.look _)) fun dummy? ↦ ?_)
  cases dummy? with
  | some cardinality =>
    exact .bind (.elementary .advance) fun _ ↦ .bind (.elementary .advance) fun _ ↦
      .bind (.elementary .advance) fun _ ↦ .pure _
  | none =>
    exact .bind alike_quantifier? fun _ ↦ .bind (.elementary (.expect _)) fun _ ↦
      .bind alike_label? fun _ ↦ .bind alike_markedContent fun _ ↦ .pure _

/-! ### Node statements -/

theorem alike_nodeStatements : Alike scope other (nodeStatements scope) (nodeStatements other) := by
  refine .bind (.nested _) fun _ ↦ .bind (.many .nodeStatement ?_) fun _ ↦ .pure _
  exact .bind (.elementary (.checkAny _)) fun _ ↦
    .ite ((Alike.nested (.nodeStatement 0)).map _) (.pure _)

theorem alike_atGrouping : Alike scope other atGrouping atGrouping :=
  .bind (.elementary (.check _)) fun _ ↦ .ite (.pure _)
    (.bind (.elementary (.checkAny _)) fun _ ↦
      .ite (.lookahead (.bind alike_quantifier fun _ ↦ .elementary (.look _))) (.pure _))

theorem alike_grouping : Alike scope other (grouping scope) (grouping other) :=
  .bind alike_quantifier? fun _ ↦ .bind (.elementary (.expect _)) fun _ ↦
    .bind alike_nodeStatements fun _ ↦ .bind (.elementary (.expect _)) fun _ ↦ .pure _

theorem alike_sequence : Alike scope other (sequence scope) (sequence other) :=
  .bind (.many .arrangement (.oneOf _)) fun _ ↦ .bind alike_nodeStatements fun _ ↦ .pure _

theorem alike_nodes : Alike scope other (nodes scope) (nodes other) := by
  refine .bind (.nested _) fun node ↦ .bind alike_atEdge fun _ ↦
    .ite (.bind (.pure _) fun _ ↦ ?_) (.bind (.elementary (.check _)) fun _ ↦ ?_)
  all_goals
    refine .ite ?_ (.pure _)
    refine .bind (alike_elementFrom node) fun _ ↦
      .bind (.many (.behind .element) (.behind _ ?_)) fun _ ↦ .pure _
    exact .bind (.nested _) fun source ↦ alike_elementFrom source

theorem alike_nodeStatementOperand :
    Alike scope other (nodeStatementOperand scope) (nodeStatementOperand other) :=
  .phrase (.bind (.elementary (.checkAny _)) fun _ ↦
    .ite alike_sequence (.bind alike_atGrouping fun _ ↦ .ite alike_grouping alike_nodes))

theorem alike_nodeStatementContinuation (least : Nat) (left : Phrase .nodeStatement) :
    Alike scope other (nodeStatementContinuation scope least left)
      (nodeStatementContinuation other least left) := by
  refine .ite (.pure _) (.bind (.elementary (.checkAny _)) fun _ ↦ .ite ?_ (.pure _))
  refine (Alike.phraseFrom _ ?_).map _
  exact .bind (.elementary .advance) fun _ ↦ .bind (.nested _) fun _ ↦ .pure _

theorem alike_nodeStatement (least : Nat) :
    Alike scope other (nodeStatement scope least) (nodeStatement other least) :=
  .bind alike_nodeStatementOperand fun first ↦
    .iterate (.nodeStatement least) (alike_nodeStatementContinuation least) first

theorem alike_hitsLimit? : Alike scope other hitsLimit? hitsLimit? := by
  refine .bind (.elementary (.check _)) fun _ ↦ .ite ?_ ?_
  · exact (Alike.phrase (.bind (.elementary .advance) fun _ ↦ .pure _)).map _
  · refine .bind (.elementary (.check _)) fun _ ↦ .bind (.elementary (.look _)) fun _ ↦
      .ite ?_ (.pure _)
    exact (Alike.phrase (.bind (.elementary .advance) fun _ ↦ .bind (.elementary .advance) fun _ ↦
      .pure _)).map _

theorem alike_structuralConstraint :
    Alike scope other (structuralConstraint scope) (structuralConstraint other) :=
  .phrase (.bind alike_hitsLimit? fun _ ↦ .bind (.many .matchFlag (.oneOf _)) fun _ ↦
    .bind alike_nodeStatements fun _ ↦ .pure _)

/-! ### Queries -/

theorem alike_clause (word connective : Keyword) :
    Alike scope other (scope.clause word connective) (other.clause word connective) :=
  .behind _ (.bind (.elementary (.expect _)) fun _ ↦ .nested _)

theorem alike_binding : Alike scope other binding binding :=
  .phrase (.bind (.oneOf _) fun _ ↦ .bind (.separatedBy .memberName alike_memberName) fun _ ↦
    .bind (.elementary (.expect _)) fun _ ↦ .bind alike_identifier fun _ ↦ .pure _)

theorem alike_bindings : Alike scope other bindings bindings :=
  .bind (.elementary (.consume _)) fun _ ↦ .ite (.separatedBy .binding alike_binding) (.pure _)

theorem alike_payload : Alike scope other (payload scope) (payload other) := by
  refine .phrase (.bind (.elementary (.check _)) fun _ ↦ .bind (.elementary (.look _)) fun _ ↦
    .ite (.bind (.elementary .advance) fun _ ↦ .pure _) ?_)
  exact .bind alike_bindings fun _ ↦ .bind (alike_clause _ _) fun _ ↦
    .bind (.elementary (.expect _)) fun _ ↦ .bind (.nested _) fun _ ↦ .pure _

theorem alike_having? : Alike scope other (having? scope) (having? other) := .behind _ (.nested _)

theorem alike_lane : Alike scope other (lane scope) (lane other) :=
  .phrase (.bind (.elementary (.expect _)) fun _ ↦ .bind alike_identifier fun _ ↦
    .bind (.behind _ alike_memberName) fun _ ↦ .bind (.nested _) fun _ ↦ .pure _)

theorem alike_plainSelection : Alike scope other (plainSelection scope) (plainSelection other) :=
  .bind (.nested _) fun _ ↦ .bind (.elementary (.expect _)) fun _ ↦ .pure _

theorem alike_structuralSelection :
    Alike scope other (structuralSelection scope) (structuralSelection other) := by
  refine .bind (.elementary (.check _)) fun _ ↦ .ite ?_ ?_
  · exact .bind (.separatedBy .lane alike_lane) fun _ ↦ .bind alike_having? fun _ ↦ .pure _
  · exact .bind (.nested _) fun _ ↦ .bind alike_having? fun _ ↦ .pure _

/-- A selection as a choice between two readings. -/
theorem selection_eq_either (scope : Scope) :
    selection scope =
      phrase (either "selection constraint" scope.depth (plainSelection scope) pure
        (attempt "structural selection" scope.depth (structuralSelection scope)) pure) := by
  refine congrArg phrase (bind_congr fun result ↦ ?_)
  cases result with
  | ok draft => rfl
  | error failure => exact (bind_pure _).symm

theorem alike_selection : Alike scope other (selection scope) (selection other) := by
  rw [selection_eq_either, selection_eq_either]
  exact .phrase (.either _ alike_plainSelection .pure (.attempt _ alike_structuralSelection) .pure)

theorem alike_groupExpression :
    Alike scope other (groupExpression scope) (groupExpression other) :=
  .phrase (.bind (.elementary (.expect _)) fun _ ↦ .bind (.nested _) fun _ ↦
    .bind (alike_clause _ _) fun _ ↦ .bind (.elementary (.expect _)) fun _ ↦
      .bind (.elementary (.expect _)) fun _ ↦ .bind (.behind _ (.nested _)) fun _ ↦ .pure _)

theorem alike_group : Alike scope other (group scope) (group other) :=
  .phrase (.bind (.elementary (.expect _)) fun _ ↦
    .bind (.separatedBy .groupExpression alike_groupExpression) fun _ ↦ .pure _)

theorem alike_resultLimit? : Alike scope other resultLimit? resultLimit? := by
  refine .bind (.elementary (.check _)) fun _ ↦ .ite ((Alike.phrase ?_).map _) (.pure _)
  exact .bind (.elementary .advance) fun _ ↦ .bind (.elementary (.consume _)) fun _ ↦
    .bind alike_integer fun _ ↦ .pure _

theorem alike_orderExpression :
    Alike scope other (orderExpression scope) (orderExpression other) := by
  refine .phrase (.bind (.nested _) fun _ ↦ .bind (.oneOf _) fun found ↦ ?_)
  cases found with
  | some direction => exact .pure _
  | none => exact .elementary (.failMissing _ _)

theorem alike_orders : Alike scope other (orders scope) (orders other) :=
  .bind (.elementary (.consume _)) fun _ ↦
    .ite (.bind (.elementary (.expect _)) fun _ ↦
      .separatedBy .orderExpression alike_orderExpression) (.pure _)

theorem alike_result : Alike scope other (result scope) (result other) :=
  .bind (.elementary (.look _)) fun _ ↦ .bind alike_resultLimit? fun _ ↦
    .bind alike_orders fun _ ↦ .bind (.elementary (.look _)) fun _ ↦ .pure _

end Grammar

/-! ### Rules and entries -/

open CorpusQuery.Grammar

variable {scope other : Scope}

theorem Rule.alike_body (rule : Rule) : Alike scope other (rule.body scope) (rule.body other) := by
  cases rule with
  | expression least => exact alike_expression least
  | loop => exact alike_loop
  | structuralConstraint => exact alike_structuralConstraint
  | nodeStatement least => exact alike_nodeStatement least
  | node => exact alike_node
  | marker least => exact alike_marker least
  | payload => exact alike_payload
  | selection => exact alike_selection

theorem Entry.alike_body (entry : Entry) :
    Alike scope other (entry.body scope) (entry.body other) := by
  cases entry with
  | expression => exact .nested _
  | nodeStatement => exact .nested _
  | structuralConstraint => exact .nested _
  | selection => exact .nested _
  | payload => exact .nested _
  | group => exact alike_group
  | result => exact alike_result

theorem Entry.alike_complete (entry : Entry) :
    Alike scope other (entry.complete scope) (entry.complete other) :=
  entry.alike_body.bind fun _ ↦ .bind (.elementary (.expect _)) fun _ ↦ .pure _

end CorpusQuery
