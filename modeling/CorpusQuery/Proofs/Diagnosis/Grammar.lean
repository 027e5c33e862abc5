import CorpusQuery.Proofs.Diagnosis.Expectation

/-!
Every failure of the grammar says what would have been accepted (`Rule.informs_run`). Most of the
grammar fails only where a test does. The exceptions are a number without digits, a sign and an edge
part without their second half, something else than a quantifier and a node constraint that nothing
suitable follows; each of them is raised behind a test of the same token.
-/

set_option autoImplicit false
set_option relaxedAutoImplicit false

namespace CorpusQuery

open CorpusQuery.Parser CorpusQuery.Grammar

/-- What the rules of a scope have to promise: they keep the failure at the limit, and their own
failures say what would have been accepted. -/
structure Scope.Informative (scope : Scope) : Prop where
  sticky : ∀ rule, Sticky (scope.nested rule)
  nested : ∀ rule, Informs (scope.nested rule)

namespace Grammar

/-! ### Names and numbers -/

theorem informs_variableName : Informs variableName := (Informs.expect _).map _

theorem informs_memberName : Informs memberName := (Informs.expect _).map _

theorem informs_identifier : Informs identifier := (Informs.expect _).map _

theorem informs_label? : Informs label? := by
  refine .bind (.check _) fun _ ↦ .bind (.look _) fun _ ↦ .ite ?_ (.pure _)
  exact .bind informs_memberName fun _ ↦ .bind (.expect _) fun _ ↦ .pure _

/-- Digits are tested for before their lack is a failure. -/
theorem informs_integer : Informs integer := by
  intro session
  cases hdigits : digitKinds.contains session.cursor.kind with
  | true =>
    refine .bind (Informs.consumeAny _ session) fun found after hrun ↦ ?_
    cases (consumeAny_of_contains hdigits).symm.trans hrun
    exact .of_ok rfl
  | false =>
    refine .bind (Informs.consumeAny _ session) fun found after hrun ↦ ?_
    cases (consumeAny_of_not_contains hdigits).symm.trans hrun
    exact .fail (isEmpty_tested session rfl)

theorem informs_numeral : Informs numeral := by
  refine .bind (.look _) fun _ ↦ .ite ?_ (informs_integer.map _)
  exact .bind .advance fun _ ↦ .bind .advance fun _ ↦ .bind .advance fun _ ↦ .pure _

theorem informs_signedNumeral : Informs signedNumeral := by
  refine .bind (.oneOf _) fun found ↦ ?_
  cases found with
  | none => exact informs_numeral
  | some sign => exact .bind (.look _) fun _ ↦ .ite (informs_numeral.map _) (.expecting_fail rfl _)

/-! ### Quantifiers -/

theorem informs_greed (possessive : Kind) : Informs (greed possessive) :=
  .bind (.consume _) fun _ ↦ .ite (.pure _) (.bind (.consume _) fun _ ↦ .pure _)

theorem informs_countFrom (low : String) : Informs (countFrom low) := by
  refine .bind (.consume _) fun _ ↦ .ite ?_ ?_
  · exact .bind (.expect _) fun _ ↦ .bind (informs_greed _) fun _ ↦
      .bind (.consume _) fun _ ↦ .pure _
  · refine .bind (.consume _) fun _ ↦ .ite (.bind (.pure _) fun _ ↦ ?_)
      (.bind (.consume _) fun _ ↦ ?_)
    all_goals
      exact .bind (informs_greed _) fun _ ↦ .bind (.consume _) fun _ ↦ .pure _

theorem informs_simpleQuantifier : Informs simpleQuantifier := by
  refine .phrase (.bind (.look _) fun first ↦ ?_)
  split
  · exact .bind .advance fun _ ↦ .pure _
  · exact .bind .advance fun _ ↦ .pure _
  · exact .bind .advance fun _ ↦ .bind (informs_greed _) fun _ ↦ .pure _
  · exact .bind .advance fun _ ↦ .bind (informs_greed _) fun _ ↦ .pure _
  · exact .bind .advance fun _ ↦ informs_countFrom _
  · exact .expecting_fail rfl _

theorem informs_quantifier : Informs quantifier :=
  .phrase (.bind (.consume _) fun _ ↦ .bind (.separatedBy _ informs_simpleQuantifier) fun _ ↦
    .ite (.bind (.expect _) fun _ ↦ .pure _) (.pure _))

theorem informs_quantifier? : Informs quantifier? :=
  .bind (.checkAny _) fun _ ↦ .ite (informs_quantifier.map _) (.pure _)

/-! ### Parts of edges and markers -/

/-- The second half of an edge part is noted as acceptable before its lack is a failure. -/
theorem informs_halves (head tail : Kind) : Informs (halves head tail) := by
  refine .bind (.expect _) fun _ session ↦ ?_
  refine .bind (Informs.expecting _ session) fun _ after hrun ↦ ?_
  cases hrun
  refine .bind (Informs.look _ _) fun complete after hlook ↦ ?_
  cases hlook
  refine .ite ?_ (.fail (isEmpty_tested session (KindSet.isEmpty_single tail)))
  exact Informs.bind .advance (fun _ ↦ .pure _) _

theorem informs_edgeEnd (head tail : Kind) : Informs (edgeEnd head tail) :=
  .bind (.check _) fun _ ↦ .bind (.look _) fun _ ↦
    .ite (.bind (informs_halves _ _) fun _ ↦ .pure _) (.bind (informs_halves _ _) fun _ ↦ .pure _)

theorem informs_atEdge : Informs atEdge := .bind (.expecting _) fun _ ↦ .look _

theorem informs_markerArguments : Informs markerArguments :=
  .bind (.consume _) fun _ ↦
    .ite (.bind (.separatedBy _ informs_signedNumeral) fun _ ↦ .bind (.expect _) fun _ ↦ .pure _)
      (.pure _)

theorem informs_atGrouping : Informs atGrouping :=
  .bind (.check _) fun _ ↦ .ite (.pure _)
    (.bind (.checkAny _) fun _ ↦ .ite (.lookahead _) (.pure _))

theorem informs_hitsLimit? : Informs hitsLimit? := by
  refine .bind (.check _) fun _ ↦ .ite ?_ ?_
  · exact (Informs.phrase (.bind .advance fun _ ↦ .pure _)).map _
  · refine .bind (.check _) fun _ ↦ .bind (.look _) fun _ ↦ .ite ?_ (.pure _)
    exact (Informs.phrase (.bind .advance fun _ ↦ .bind .advance fun _ ↦ .pure _)).map _

/-! ### Parts of queries -/

theorem informs_target : Informs target := by
  refine .bind (.look _) fun kind ↦ ?_
  split
  · exact informs_variableName.map _
  · exact informs_memberName.map _
  · exact .failMissing _ rfl

theorem informs_consumeEither (first second : Kind) : Informs (consumeEither first second) :=
  .bind (.consume _) fun _ ↦ .ite (.pure _) (.consume _)

theorem informs_parity? : Informs parity? :=
  .bind (.consume _) fun _ ↦ .ite (.pure _) (.bind (.consume _) fun _ ↦ .pure _)

theorem informs_binding : Informs binding :=
  .phrase (.bind (.oneOf _) fun _ ↦ .bind (.separatedBy _ informs_memberName) fun _ ↦
    .bind (.expect _) fun _ ↦ .bind informs_identifier fun _ ↦ .pure _)

theorem informs_bindings : Informs bindings :=
  .bind (.consume _) fun _ ↦ .ite (.separatedBy _ informs_binding) (.pure _)

theorem informs_resultLimit? : Informs resultLimit? := by
  refine .bind (.check _) fun _ ↦ .ite ((Informs.phrase ?_).map _) (.pure _)
  exact .bind .advance fun _ ↦ .bind (.consume _) fun _ ↦ .bind informs_integer fun _ ↦ .pure _

section Nested

variable {scope : Scope} (hs : scope.Informative)

include hs

/-! ### Expressions -/

theorem informs_expressionsUntil (close : Kind) : Informs (expressionsUntil scope close) :=
  .bind (.separatedBy _ (hs.nested _)) fun _ ↦ .bind (.expect _) fun _ ↦ .pure _

theorem informs_optionalExpressionsUntil (close : Kind) :
    Informs (optionalExpressionsUntil scope close) :=
  .bind (.consume _) fun _ ↦ .ite (.pure _) (informs_expressionsUntil hs close)

theorem informs_listItems : Informs (listItems scope) :=
  .bind (.expect _) fun _ ↦ informs_optionalExpressionsUntil hs _

theorem informs_primary : Informs (primary scope) := by
  refine .bind (.look _) fun kind ↦ .bind (.look _) fun next ↦ ?_
  split
  · exact .bind .advance fun _ ↦ .pure _
  · exact .bind .advance fun _ ↦ .pure _
  · exact .bind .advance fun _ ↦ .pure _
  · exact .bind informs_numeral fun _ ↦ .pure _
  · exact .bind informs_numeral fun _ ↦ .pure _
  · exact .bind .advance fun _ ↦ .pure _
  · exact .bind (informs_listItems hs) fun _ ↦ .pure _
  · exact .bind informs_variableName fun _ ↦ .pure _
  · exact .bind informs_memberName fun _ ↦ .pure _
  · refine .bind .advance fun _ ↦ .ite ?_ (.pure _)
    exact .bind .advance fun _ ↦ .bind informs_identifier fun _ ↦ .pure _
  · split
    · exact .bind .advance fun _ ↦ .bind .advance fun _ ↦ .bind (.expect _) fun _ ↦
        .bind (informs_listItems hs) fun _ ↦ .pure _
    · exact .failMissing _ rfl

theorem informs_operand : Informs (operand scope) := by
  refine .phrase (.bind (.look _) fun type? ↦ ?_)
  cases type? with
  | some type =>
    exact .bind .advance fun _ ↦ .bind .advance fun _ ↦ .bind .advance fun _ ↦
      .bind (hs.nested _) fun _ ↦ .pure _
  | none =>
    refine .bind (.look _) fun kind ↦ ?_
    cases unaryOperator? kind with
    | some operator => exact .bind .advance fun _ ↦ .bind (hs.nested _) fun _ ↦ .pure _
    | none =>
      refine .ite ?_ (.ite (.bind (hs.nested .loop) fun _ ↦ .pure _) (informs_primary hs))
      exact .bind .advance fun _ ↦ .bind (hs.nested _) fun _ ↦ .bind (.expect _) fun _ ↦ .pure _

theorem informs_draft (left : Phrase .expression) (continuation : Continuation) :
    Informs (continuation.draft scope left) := by
  cases continuation with
  | path => exact .bind .advance fun _ ↦ .bind informs_identifier fun _ ↦ .pure _
  | call =>
    exact .bind .advance fun _ ↦ .bind (informs_optionalExpressionsUntil hs _) fun _ ↦ .pure _
  | listAccess => exact .bind .advance fun _ ↦ .bind (informs_expressionsUntil hs _) fun _ ↦ .pure _
  | annotationAccess =>
    exact .bind .advance fun _ ↦ .bind (informs_expressionsUntil hs _) fun _ ↦ .pure _
  | binary operator => exact .bind .advance fun _ ↦ .bind (hs.nested _) fun _ ↦ .pure _
  | assignment =>
    exact .bind .advance fun _ ↦ .bind (.consume _) fun _ ↦ .bind informs_target fun _ ↦ .pure _
  | setPredicate =>
    exact .bind (informs_consumeEither _ _) fun _ ↦ .bind (informs_consumeEither _ _) fun _ ↦
      .bind (.expect _) fun _ ↦ .bind (hs.nested _) fun _ ↦ .pure _
  | ternary =>
    exact .bind .advance fun _ ↦ .bind (hs.nested _) fun _ ↦ .bind (.expect _) fun _ ↦
      .bind (hs.nested _) fun _ ↦ .pure _

theorem informs_continuation (least : Nat) (left : Phrase .expression) :
    Informs (continuation scope least left) := by
  refine .bind (.look _) fun found ↦ ?_
  cases found with
  | none => exact .pure _
  | some continuation =>
    exact .ite (.pure _) ((Informs.phraseFrom _ (informs_draft hs left continuation)).map _)

theorem informs_expression (least : Nat) : Informs (expression scope least) :=
  .bind (informs_operand hs) fun first ↦ .iterate (informs_continuation hs least) first

/-! ### Loops -/

theorem informs_boundedRange : Informs (boundedRange scope) :=
  .phrase (.bind (.expect _) fun _ ↦ .bind (hs.nested _) fun _ ↦ .bind (.expect _) fun _ ↦
    .bind (hs.nested _) fun _ ↦ .bind (.expect _) fun _ ↦ .pure _)

theorem informs_loopControl : Informs (loopControl scope) :=
  .phrase (.bind informs_parity? fun _ ↦ .bind (.behind _ (hs.nested _)) fun _ ↦
    .bind (.behind _ (informs_boundedRange hs)) fun _ ↦
      .bind (.behind _ (informs_boundedRange hs)) fun _ ↦
        .bind (.behind _ (hs.nested _)) fun _ ↦ .bind (.expect _) fun _ ↦ .pure _)

theorem informs_counted : Informs (counted scope) :=
  .bind (hs.nested _) fun _ ↦ .bind (.expect _) fun _ ↦
    .bind informs_variableName fun _ ↦ .pure _

theorem informs_counters : Informs (counters scope) :=
  .bind (.consume _) fun _ ↦
    .ite (.separatedBy _ (.phrase ((informs_counted hs).bind fun _ ↦ .pure _))) (.pure _)

theorem informs_loop : Informs (loop scope) :=
  .phrase (.bind (.expect _) fun _ ↦ .bind (informs_counted hs) fun _ ↦
    .bind (informs_loopControl hs) fun _ ↦ .bind (informs_counters hs) fun _ ↦ .pure _)

/-! ### Markers -/

theorem informs_markerOperand : Informs (markerOperand scope) := by
  refine .phrase (.bind (.consume _) fun _ ↦ .ite ?_ ?_)
  · exact .bind (hs.nested _) fun _ ↦ .bind (.expect _) fun _ ↦ .pure _
  · refine .bind (.check _) fun _ ↦ .ite ?_ (.failMissing _ rfl)
    exact .bind .advance fun _ ↦ .bind informs_markerArguments fun _ ↦ .pure _

theorem informs_markerContinuation (least : Nat) (left : Phrase .marker) :
    Informs (markerContinuation scope least left) := by
  refine .bind (.look _) fun kind ↦ ?_
  cases Connective.ofKind? kind with
  | none => exact .pure _
  | some connective =>
    refine .ite (.pure _) ((Informs.phraseFrom _ ?_).map _)
    exact .bind .advance fun _ ↦ .bind (hs.nested _) fun _ ↦ .pure _

theorem informs_marker (least : Nat) : Informs (marker scope least) :=
  .bind (informs_markerOperand hs) fun first ↦ .iterate (informs_markerContinuation hs least) first

/-! ### Edges and nodes -/

theorem informs_edgeConstraint? : Informs (edgeConstraint? scope) :=
  .bind (.check _) fun _ ↦ .ite (.pure _) ((hs.nested (.expression 0)).map _)

theorem informs_edge : Informs (edge scope) := by
  refine .phrase (.bind (.oneOf _) fun found ↦ ?_)
  cases found with
  | some ends => exact .pure _
  | none =>
    exact .bind (informs_edgeEnd _ _) fun _ ↦ .bind (.expect _) fun _ ↦
      .bind informs_label? fun _ ↦ .bind (informs_edgeConstraint? hs) fun _ ↦
        .bind (.expect _) fun _ ↦ .bind (informs_edgeEnd _ _) fun _ ↦ .pure _

theorem informs_elementFrom (source : Phrase .node) : Informs (elementFrom scope source) :=
  .phraseFrom _ (.bind informs_atEdge fun _ ↦
    .ite (.bind (informs_edge hs) fun _ ↦ .bind (hs.nested .node) fun _ ↦ .pure _) (.pure _))

theorem informs_children? : Informs (children? scope) :=
  .bind (.checkAny _) fun _ ↦ .ite ((hs.nested .structuralConstraint).map _) (.pure _)

/-- What may follow a constraint is tested for before its lack is a failure. -/
theorem informs_leadingConstraint : Informs (leadingConstraint scope) := by
  refine .bind (hs.nested _) fun _ ↦ .bind (.check _) fun _ ↦ .ite (.pure _) ?_
  refine .bind (.look _) fun _ session ↦ ?_
  refine .bind (Informs.checkAny _ session) fun _ after hrun ↦ ?_
  cases hrun
  exact .ite (.of_ok rfl) (.fail (isEmpty_tested session rfl))

theorem informs_onlyChildren : Informs (onlyChildren scope) :=
  .bind (informs_children? hs) fun _ ↦ .bind (.expect _) fun _ ↦ .pure _

theorem informs_nodeContent : Informs (nodeContent scope) := by
  have hchildren : Alike scope scope (attempt "node children" scope.depth (onlyChildren scope))
    (attempt "node children" scope.depth (onlyChildren scope)) := .attempt _ alike_onlyChildren
  rw [nodeContent_eq_either]
  refine .bind (.consume _) fun _ ↦ .ite (.pure _) ?_
  refine .either _ _ (informs_leadingConstraint hs) (fun constraint ↦ ?_)
    (hchildren.sticky hs.sticky) (.attempt _ _ (informs_onlyChildren hs)) .pure
  exact .bind (informs_children? hs) fun _ ↦ .bind (.expect _) fun _ ↦ .pure _

theorem informs_leadingMarker : Informs (leadingMarker scope) :=
  .bind (hs.nested _) fun _ ↦ .bind (.expect _) fun _ ↦ .pure _

theorem informs_markedContent : Informs (markedContent scope) := by
  have hcontent : Alike scope scope (nodeContent scope) (nodeContent scope) := alike_nodeContent
  rw [markedContent_eq_either]
  refine .either _ _ (informs_leadingMarker hs) (fun marker ↦ ?_) (hcontent.sticky hs.sticky)
    (informs_nodeContent hs) fun _ ↦ .pure _
  exact .bind (informs_nodeContent hs) fun _ ↦ .pure _

theorem informs_node : Informs (node scope) := by
  refine .phrase (.bind (.look _) fun dummy? ↦ ?_)
  cases dummy? with
  | some cardinality =>
    exact .bind .advance fun _ ↦ .bind .advance fun _ ↦ .bind .advance fun _ ↦ .pure _
  | none =>
    exact .bind informs_quantifier? fun _ ↦ .bind (.expect _) fun _ ↦ .bind informs_label? fun _ ↦
      .bind (informs_markedContent hs) fun _ ↦ .pure _

/-! ### Node statements -/

theorem informs_nodeStatements : Informs (nodeStatements scope) := by
  refine .bind (hs.nested _) fun _ ↦ .bind (.many ?_) fun _ ↦ .pure _
  exact .bind (.checkAny _) fun _ ↦ .ite ((hs.nested (.nodeStatement 0)).map _) (.pure _)

theorem informs_grouping : Informs (grouping scope) :=
  .bind informs_quantifier? fun _ ↦ .bind (.expect _) fun _ ↦
    .bind (informs_nodeStatements hs) fun _ ↦ .bind (.expect _) fun _ ↦ .pure _

theorem informs_sequence : Informs (sequence scope) :=
  .bind (.many (.oneOf _)) fun _ ↦ .bind (informs_nodeStatements hs) fun _ ↦ .pure _

theorem informs_nodes : Informs (nodes scope) := by
  refine .bind (hs.nested .node) fun node ↦ .bind informs_atEdge fun _ ↦
    .ite (.bind (.pure _) fun _ ↦ ?_) (.bind (.check _) fun _ ↦ ?_)
  all_goals
    refine .ite ?_ (.pure _)
    refine .bind (informs_elementFrom hs node) fun _ ↦
      .bind (.many (.behind _ ?_)) fun _ ↦ .pure _
    exact .bind (hs.nested .node) fun source ↦ informs_elementFrom hs source

theorem informs_nodeStatementOperand : Informs (nodeStatementOperand scope) :=
  .phrase (.bind (.checkAny _) fun _ ↦ .ite (informs_sequence hs)
    (.bind informs_atGrouping fun _ ↦ .ite (informs_grouping hs) (informs_nodes hs)))

theorem informs_nodeStatementContinuation (least : Nat) (left : Phrase .nodeStatement) :
    Informs (nodeStatementContinuation scope least left) := by
  refine .ite (.pure _) (.bind (.checkAny _) fun _ ↦ .ite ?_ (.pure _))
  refine (Informs.phraseFrom _ ?_).map _
  exact .bind .advance fun _ ↦ .bind (hs.nested _) fun _ ↦ .pure _

theorem informs_nodeStatement (least : Nat) : Informs (nodeStatement scope least) :=
  .bind (informs_nodeStatementOperand hs) fun first ↦
    .iterate (informs_nodeStatementContinuation hs least) first

theorem informs_structuralConstraint : Informs (structuralConstraint scope) :=
  .phrase (.bind informs_hitsLimit? fun _ ↦ .bind (.many (.oneOf _)) fun _ ↦
    .bind (informs_nodeStatements hs) fun _ ↦ .pure _)

/-! ### Queries -/

theorem informs_clause (word connective : Keyword) : Informs (scope.clause word connective) :=
  .behind _ (.bind (.expect _) fun _ ↦ hs.nested _)

theorem informs_payload : Informs (payload scope) := by
  refine .phrase (.bind (.check _) fun _ ↦ .bind (.look _) fun _ ↦
    .ite (.bind .advance fun _ ↦ .pure _) ?_)
  exact .bind informs_bindings fun _ ↦ .bind (informs_clause hs _ _) fun _ ↦
    .bind (.expect _) fun _ ↦ .bind (hs.nested .selection) fun _ ↦ .pure _

theorem informs_having? : Informs (having? scope) := .behind _ (hs.nested _)

theorem informs_lane : Informs (lane scope) :=
  .phrase (.bind (.expect _) fun _ ↦ .bind informs_identifier fun _ ↦
    .bind (.behind _ informs_memberName) fun _ ↦
      .bind (hs.nested .structuralConstraint) fun _ ↦ .pure _)

theorem informs_plainSelection : Informs (plainSelection scope) :=
  .bind (hs.nested _) fun _ ↦ .bind (.expect _) fun _ ↦ .pure _

theorem informs_structuralSelection : Informs (structuralSelection scope) := by
  refine .bind (.check _) fun _ ↦ .ite ?_ ?_
  · exact .bind (.separatedBy _ (informs_lane hs)) fun _ ↦
      .bind (informs_having? hs) fun _ ↦ .pure _
  · exact .bind (hs.nested .structuralConstraint) fun _ ↦
      .bind (informs_having? hs) fun _ ↦ .pure _

theorem informs_selection : Informs (selection scope) := by
  have hstructural : Alike scope scope
      (attempt "structural selection" scope.depth (structuralSelection scope))
      (attempt "structural selection" scope.depth (structuralSelection scope)) :=
    .attempt _ alike_structuralSelection
  rw [selection_eq_either]
  exact .phrase (.either _ _ (informs_plainSelection hs) .pure (hstructural.sticky hs.sticky)
    (.attempt _ _ (informs_structuralSelection hs)) .pure)

theorem informs_groupExpression : Informs (groupExpression scope) :=
  .phrase (.bind (.expect _) fun _ ↦ .bind (hs.nested _) fun _ ↦
    .bind (informs_clause hs _ _) fun _ ↦ .bind (.expect _) fun _ ↦ .bind (.expect _) fun _ ↦
      .bind (.behind _ (hs.nested _)) fun _ ↦ .pure _)

theorem informs_group : Informs (group scope) :=
  .phrase (.bind (.expect _) fun _ ↦
    .bind (.separatedBy _ (informs_groupExpression hs)) fun _ ↦ .pure _)

theorem informs_orderExpression : Informs (orderExpression scope) := by
  refine .phrase (.bind (hs.nested _) fun _ ↦ .bind (.oneOf _) fun found ↦ ?_)
  cases found with
  | some direction => exact .pure _
  | none => exact .failMissing _ rfl

theorem informs_orders : Informs (orders scope) :=
  .bind (.consume _) fun _ ↦
    .ite (.bind (.expect _) fun _ ↦ .separatedBy _ (informs_orderExpression hs)) (.pure _)

theorem informs_result : Informs (result scope) :=
  .bind (.look _) fun _ ↦ .bind informs_resultLimit? fun _ ↦ .bind (informs_orders hs) fun _ ↦
    .bind (.look _) fun _ ↦ .pure _

end Nested

end Grammar

/-! ### Rules and entries -/

theorem Rule.informs_body {scope : Scope} (hs : scope.Informative) (rule : Rule) :
    Informs (rule.body scope) := by
  cases rule with
  | expression least => exact informs_expression hs least
  | loop => exact informs_loop hs
  | structuralConstraint => exact informs_structuralConstraint hs
  | nodeStatement least => exact informs_nodeStatement hs least
  | node => exact informs_node hs
  | marker least => exact informs_marker hs least
  | payload => exact informs_payload hs
  | selection => exact informs_selection hs

/-- Every failure of a rule says what would have been accepted, unless the limit was met. -/
theorem Rule.informs_run (limit room : Nat) (rule : Rule) : Informs (rule.run limit room) := by
  induction room generalizing rule with
  | zero => exact .exceed limit
  | succ room ih => exact .enter _ _ (rule.informs_body ⟨sticky_run limit room, ih⟩)

theorem Entry.informs_complete (entry : Entry) (limit : Nat) :
    Informs (entry.complete (.top limit)) := by
  have hs : (Scope.top limit).Informative :=
    ⟨Rule.sticky_run limit limit, Rule.informs_run limit limit⟩
  refine .bind ?_ fun _ ↦ .bind (.expect _) fun _ ↦ .pure _
  cases entry with
  | expression => exact hs.nested _
  | nodeStatement => exact hs.nested _
  | structuralConstraint => exact hs.nested .structuralConstraint
  | selection => exact hs.nested .selection
  | payload => exact hs.nested _
  | group => exact informs_group hs
  | result => exact informs_result hs

end CorpusQuery
