import CorpusQuery.Proofs.Shape.Statement

/-!
The shapes of whole trees. Every rule of the grammar reads trees in which every phrase has the shape
that its form asks for, if the rules that it nests do, and so does every entry
(`Entry.shaped_of_outcome`). What is left to say beside the loops is which lists are written with
something in them.
-/

set_option autoImplicit false
set_option relaxedAutoImplicit false

namespace CorpusQuery

open CorpusQuery.Parser CorpusQuery.Grammar

namespace Grammar

variable {total : Nat} {scope : Scope} (hs : scope.Shaping total)

include hs

/-! ### Expressions -/

theorem shaped_expressionsUntil (close : Kind) :
    Yields total (expressionsUntil scope close) fun items ↦
      items ≠ [] ∧ ∀ item ∈ items, item.Shaped :=
  (Yields.series (hs.nested (.expression 0))).bind fun _ hitems ↦
    .skip (.expect _) fun _ ↦ .pure hitems

theorem shaped_optionalExpressionsUntil (close : Kind) :
    Yields total (optionalExpressionsUntil scope close) fun items ↦ ∀ item ∈ items, item.Shaped :=
  .skip (.consume _) fun _ ↦ .ite (.pure (List.forall_mem_nil _))
    ((shaped_expressionsUntil hs close).weaken fun _ h ↦ h.2)

theorem shaped_listItems :
    Yields total (listItems scope) fun items ↦ ∀ item ∈ items, item.Shaped :=
  .skip (.expect _) fun _ ↦ shaped_optionalExpressionsUntil hs _

theorem shaped_primary : Yields total (primary scope) Draft.Shaped := by
  refine .skip (.look _) fun kind ↦ .skip (.look _) fun next ↦ ?_
  split
  · exact .skip .advance fun _ ↦ .pure ⟨trivial, trivial⟩
  · exact .skip .advance fun _ ↦ .pure ⟨trivial, trivial⟩
  · exact .skip .advance fun _ ↦ .pure ⟨trivial, trivial⟩
  · exact hs.skip alike_numeral fun _ ↦ .pure ⟨trivial, trivial⟩
  · exact hs.skip alike_numeral fun _ ↦ .pure ⟨trivial, trivial⟩
  · exact .skip .advance fun _ ↦ .pure ⟨trivial, trivial⟩
  · exact (shaped_listItems hs).bind fun _ hitems ↦
      .pure ⟨trivial, Tree.shaped_many hitems trivial⟩
  · exact hs.skip alike_variableName fun _ ↦ .pure ⟨trivial, trivial⟩
  · exact hs.skip alike_memberName fun _ ↦ .pure ⟨trivial, trivial⟩
  · exact .skip .advance fun _ ↦ .ite (.skip .advance fun _ ↦ hs.skip alike_identifier fun _ ↦
      .pure ⟨trivial, trivial⟩) (.pure ⟨trivial, trivial⟩)
  · split
    · exact .skip .advance fun _ ↦ .skip .advance fun _ ↦ .skip (.expect _) fun _ ↦
        (shaped_listItems hs).bind fun _ hitems ↦
          .pure ⟨trivial, Tree.shaped_many hitems trivial⟩
    · exact .failMissing

theorem shaped_operand : Yields total (operand scope) Tree.Shaped := by
  refine .shaped (.skip (.look _) fun type? ↦ ?_)
  cases type? with
  | some type =>
    exact .skip .advance fun _ ↦ .skip .advance fun _ ↦ .skip .advance fun _ ↦
      (hs.nested (.expression _)).bind fun _ hoperand ↦ .pure ⟨trivial, hoperand, trivial⟩
  | none =>
    refine .skip (.look _) fun kind ↦ ?_
    cases unaryOperator? kind with
    | some operator =>
      exact .skip .advance fun _ ↦ (hs.nested (.expression _)).bind fun _ hoperand ↦
        .pure ⟨trivial, hoperand, trivial⟩
    | none =>
      refine .ite ?_ (.ite ?_ (shaped_primary hs))
      · exact .skip .advance fun _ ↦ (hs.nested (.expression 0)).bind fun _ hinner ↦
          .skip (.expect _) fun _ ↦ .pure ⟨trivial, hinner, trivial⟩
      · exact (hs.nested .loop).bind fun _ hloop ↦ .pure ⟨trivial, hloop, trivial⟩

theorem shaped_continuationDraft {left : Phrase .expression} (hleft : left.Shaped)
    (continuation : Continuation) : Yields total (continuation.draft scope left) Draft.Shaped := by
  cases continuation with
  | path =>
    exact .skip .advance fun _ ↦ hs.skip alike_identifier fun _ ↦ .pure ⟨trivial, hleft, trivial⟩
  | call =>
    exact .skip .advance fun _ ↦ (shaped_optionalExpressionsUntil hs _).bind fun _ hitems ↦
      .pure ⟨trivial, hleft, Tree.shaped_many hitems trivial⟩
  | listAccess =>
    refine .skip .advance fun _ ↦ (shaped_expressionsUntil hs _).bind fun _ hitems ↦
      .pure ⟨?_, hleft, Tree.shaped_many hitems.2 trivial⟩
    simpa [Form.Shapes, Tree.rest] using hitems.1
  | annotationAccess =>
    refine .skip .advance fun _ ↦ (shaped_expressionsUntil hs _).bind fun _ hitems ↦
      .pure ⟨?_, hleft, Tree.shaped_many hitems.2 trivial⟩
    simpa [Form.Shapes, Tree.rest] using hitems.1
  | binary operator =>
    exact .skip .advance fun _ ↦ (hs.nested (.expression _)).bind fun _ hright ↦
      .pure ⟨trivial, hleft, hright, trivial⟩
  | assignment =>
    exact .skip .advance fun _ ↦ .skip (.consume _) fun _ ↦ hs.skip alike_target fun _ ↦
      .pure ⟨trivial, hleft, trivial⟩
  | setPredicate =>
    exact hs.skip (alike_consumeEither _ _) fun _ ↦ hs.skip (alike_consumeEither _ _) fun _ ↦
      .skip (.expect _) fun _ ↦ (hs.nested (.expression _)).bind fun _ hset ↦
        .pure ⟨trivial, hleft, hset, trivial⟩
  | ternary =>
    exact .skip .advance fun _ ↦ (hs.nested (.expression 0)).bind fun _ hconsequence ↦
      .skip (.expect _) fun _ ↦ (hs.nested (.expression _)).bind fun _ halternative ↦
        .pure ⟨trivial, hleft, hconsequence, halternative, trivial⟩

theorem shaped_continuation (least : Nat) {left : Phrase .expression} (hleft : left.Shaped) :
    Yields total (continuation scope least left) fun next? ↦ ∀ next ∈ next?, next.Shaped := by
  refine .skip (.look _) fun continuation? ↦ ?_
  cases continuation? with
  | none => exact .pure nofun
  | some continuation =>
    exact .ite (.pure nofun) (shaped_continuationDraft hs hleft continuation).shapedFrom.some

theorem shaped_expression (least : Nat) : Yields total (expression scope least) Tree.Shaped :=
  (shaped_operand hs).bind fun _ hfirst ↦
    .iterate (fun _ hleft ↦ shaped_continuation hs least hleft) hfirst

/-! ### Loops -/

theorem shaped_boundedRange : Yields total (boundedRange scope) Tree.Shaped :=
  .shaped (.skip (.expect _) fun _ ↦ (hs.nested (.expression 0)).bind fun _ hlower ↦
    .skip (.expect _) fun _ ↦ (hs.nested (.expression 0)).bind fun _ hupper ↦
      .skip (.expect _) fun _ ↦ .pure ⟨trivial, hlower, hupper, trivial⟩)

theorem shaped_loopControl : Yields total (loopControl scope) Tree.Shaped :=
  .shaped (hs.skip alike_parity? fun _ ↦ (hs.nested (.expression 0)).behind.bind fun _ homitted ↦
    (shaped_boundedRange hs).behind.bind fun _ hrange ↦
      (shaped_boundedRange hs).behind.bind fun _ hstep ↦
        (hs.nested (.expression 0)).behind.bind fun _ haction ↦ .skip (.expect _) fun _ ↦
          .pure ⟨trivial, Tree.shaped_optional homitted (Tree.shaped_optional hrange
            (Tree.shaped_optional hstep (Tree.shaped_optional haction trivial)))⟩)

theorem shaped_counted : Yields total (counted scope) fun counted ↦ counted.1.Shaped :=
  (hs.nested (.expression _)).bind fun _ hsource ↦ .skip (.expect _) fun _ ↦
    hs.skip alike_variableName fun _ ↦ .pure hsource

theorem shaped_counters : Yields total (counters scope) fun counters ↦
    ∀ counter ∈ counters, counter.Shaped := by
  have hcounter : Yields total (counter scope) Tree.Shaped :=
    .shaped ((shaped_counted hs).bind fun _ hcounted ↦ .pure ⟨trivial, hcounted, trivial⟩)
  exact .skip (.consume _) fun _ ↦ .ite hcounter.separatedBy (.pure (List.forall_mem_nil _))

theorem shaped_loop : Yields total (loop scope) Tree.Shaped :=
  .shaped (.skip (.expect _) fun _ ↦ (shaped_counted hs).bind fun _ hcounted ↦
    (shaped_loopControl hs).bind fun _ hcontrol ↦ (shaped_counters hs).bind fun _ hcounters ↦
      .pure ⟨trivial, hcounted, hcontrol, Tree.shaped_many hcounters trivial⟩)

/-! ### Nodes -/

/-- Both parts of the contents of a node are shaped. -/
structure NodeContent.Shaped (content : NodeContent) : Prop where
  constraint : ∀ constraint ∈ content.constraint, constraint.Shaped
  children : ∀ children ∈ content.children, children.Shaped

theorem shaped_children? : Yields total (children? scope) fun children? ↦
    ∀ children ∈ children?, children.Shaped :=
  .skip (.checkAny _) fun _ ↦ .ite (hs.nested .structuralConstraint).some (.pure nofun)

theorem shaped_leadingConstraint : Yields total (leadingConstraint scope) Tree.Shaped :=
  (hs.nested (.expression 0)).bind fun _ hconstraint ↦ .skip (.check _) fun _ ↦
    .ite (.pure hconstraint) (.skip (.look _) fun _ ↦ .skip (.checkAny _) fun _ ↦
      .ite (.pure hconstraint) .fail)

theorem shaped_nodeContent : Yields total (nodeContent scope) NodeContent.Shaped := by
  rw [nodeContent_eq_either]
  have honly : Yields total (onlyChildren scope) NodeContent.Shaped :=
    (shaped_children? hs).bind fun _ hchildren ↦ .skip (.expect _) fun _ ↦ .pure ⟨nofun, hchildren⟩
  refine .skip (.consume _) fun _ ↦ .ite (.pure ⟨nofun, nofun⟩)
    (.either (shaped_leadingConstraint hs) (fun constraint hconstraint ↦ ?_) honly.attempt
      fun _ hcontent ↦ .pure hcontent)
  exact (shaped_children? hs).bind fun _ hchildren ↦ .skip (.expect _) fun _ ↦
    .pure ⟨fun _ hmem ↦ Option.some.inj hmem ▸ hconstraint, hchildren⟩

theorem shaped_markedContent : Yields total (markedContent scope) fun marked ↦
    (∀ marker ∈ marked.1, marker.Shaped) ∧ NodeContent.Shaped marked.2 := by
  rw [markedContent_eq_either]
  have hmarker : Yields total (leadingMarker scope) Tree.Shaped :=
    (hs.nested (.marker 0)).bind fun _ hmarker ↦ .skip (.expect _) fun _ ↦ .pure hmarker
  refine .either hmarker (fun marker hmarker ↦ ?_) (shaped_nodeContent hs)
    fun _ hcontent ↦ .pure ⟨fun marker hmem ↦ absurd hmem (Option.not_mem_none marker), hcontent⟩
  exact (shaped_nodeContent hs).bind fun _ hcontent ↦
    .pure ⟨fun _ hmem ↦ Option.some.inj hmem ▸ hmarker, hcontent⟩

theorem shaped_node : Yields total (node scope) Tree.Shaped := by
  refine .shaped (.skip (.look _) fun dummy? ↦ ?_)
  cases dummy? with
  | some cardinality =>
    exact .skip .advance fun _ ↦ .skip .advance fun _ ↦ .skip .advance fun _ ↦
      .pure ⟨trivial, trivial⟩
  | none =>
    exact (shaped_quantifier? hs).bind fun _ hquantifier ↦ .skip (.expect _) fun _ ↦
      hs.skip alike_label? fun _ ↦ (shaped_markedContent hs).bind fun _ ⟨hmarker, hcontent⟩ ↦
        .pure ⟨trivial, Tree.shaped_optional hquantifier (Tree.shaped_optional hmarker
          (Tree.shaped_optional hcontent.constraint
            (Tree.shaped_optional hcontent.children trivial)))⟩

theorem shaped_structuralConstraint :
    Yields total (structuralConstraint scope) Tree.Shaped := by
  have hlimit : Yields total hitsLimit? fun limit? ↦ ∀ limit ∈ limit?, limit.Shaped :=
    .skip (.check _) fun _ ↦ .ite
      (Yields.some (.shaped (.skip .advance fun _ ↦ .pure ⟨trivial, trivial⟩)))
      (.skip (.check _) fun _ ↦ .skip (.look _) fun _ ↦ .ite
        (Yields.some (.shaped (.skip .advance fun _ ↦ .skip .advance fun _ ↦
          .pure ⟨trivial, trivial⟩))) (.pure nofun))
  refine .shaped (hlimit.bind fun _ hlimit ↦ hs.skip (.many .matchFlag (.oneOf _)) fun _ ↦
    (shaped_nodeStatements hs).bind fun _ h ↦
      .pure ⟨?_, Tree.shaped_optional hlimit (Tree.shaped_many h.2 trivial)⟩)
  simpa [Form.Shapes] using h.1

/-! ### Queries -/

theorem shaped_clause (word connective : Keyword) :
    Yields total (scope.clause word connective) fun clause? ↦ ∀ clause ∈ clause?, clause.Shaped :=
  .behind (.skip (.expect _) fun _ ↦ hs.nested (.expression 0))

theorem shaped_bindings : Yields total bindings fun bindings ↦
    ∀ binding ∈ bindings, binding.Shaped := by
  have hmember : Yields total memberName fun _ ↦ True := .map (.elementary (.expect _))
  have hbinding : Yields total binding Tree.Shaped :=
    .shaped (hs.skip (.oneOf _) fun _ ↦ hmember.series.bind fun _ hmembers ↦
      .skip (.expect _) fun _ ↦ hs.skip alike_identifier fun _ ↦ .pure ⟨hmembers.1, trivial⟩)
  exact .skip (.consume _) fun _ ↦ .ite hbinding.separatedBy (.pure (List.forall_mem_nil _))

theorem shaped_payload : Yields total (payload scope) Tree.Shaped :=
  .shaped (.skip (.check _) fun _ ↦ .skip (.look _) fun _ ↦ .ite
    (.skip .advance fun _ ↦ .pure ⟨trivial, trivial⟩)
    ((shaped_bindings hs).bind fun _ hbindings ↦ (shaped_clause hs _ _).bind fun _ hfilter ↦
      .skip (.expect _) fun _ ↦ (hs.nested .selection).bind fun _ hselection ↦
        .pure ⟨trivial, Tree.shaped_many hbindings
          (Tree.shaped_optional hfilter ⟨hselection, trivial⟩)⟩))

theorem shaped_structuralSelection : Yields total (structuralSelection scope) Draft.Shaped := by
  have hlane : Yields total (lane scope) Tree.Shaped :=
    .shaped (.skip (.expect _) fun _ ↦ hs.skip alike_identifier fun _ ↦
      hs.skip (.behind _ alike_memberName) fun _ ↦ (hs.nested .structuralConstraint).bind
        fun _ hconstraint ↦ .pure ⟨trivial, hconstraint, trivial⟩)
  have hhaving : Yields total (having? scope) fun having? ↦ ∀ having ∈ having?, having.Shaped :=
    .behind (hs.nested (.expression 0))
  refine .skip (.check _) fun _ ↦ .ite
    (hlane.series.bind fun _ hlanes ↦ hhaving.bind fun _ hhaving ↦
      .pure ⟨?_, Tree.shaped_many hlanes.2 (Tree.shaped_optional hhaving trivial)⟩)
    ((hs.nested .structuralConstraint).bind fun _ hconstraint ↦ hhaving.bind fun _ hhaving ↦
      .pure ⟨trivial, hconstraint, Tree.shaped_optional hhaving trivial⟩)
  simpa [Form.Shapes] using hlanes.1

theorem shaped_selection : Yields total (selection scope) Tree.Shaped := by
  rw [selection_eq_either]
  have hplain : Yields total (plainSelection scope) Draft.Shaped :=
    (hs.nested (.expression 0)).bind fun _ hconstraint ↦ .skip (.expect _) fun _ ↦
      .pure ⟨trivial, hconstraint, trivial⟩
  exact .shaped (.either hplain (fun _ hdraft ↦ .pure hdraft)
    (shaped_structuralSelection hs).attempt fun _ hdraft ↦ .pure hdraft)

theorem shaped_group : Yields total (group scope) Tree.Shaped := by
  have hexpression : Yields total (groupExpression scope) Tree.Shaped :=
    .shaped (.skip (.expect _) fun _ ↦ (hs.nested (.expression 0)).bind fun _ hselector ↦
      (shaped_clause hs _ _).bind fun _ hfilter ↦ .skip (.expect _) fun _ ↦
        .skip (.expect _) fun _ ↦ (hs.nested (.expression 0)).behind.bind fun _ hreplacement ↦
          .pure ⟨trivial, hselector, Tree.shaped_optional hfilter
            (Tree.shaped_optional hreplacement trivial)⟩)
  refine .shaped (.skip (.expect _) fun _ ↦ hexpression.series.bind fun _ hexpressions ↦
    .pure ⟨?_, Tree.shaped_many hexpressions.2 trivial⟩)
  simpa [Form.Shapes] using hexpressions.1

theorem shaped_result : Yields total (result scope) Tree.Shaped := by
  have hlimit : Yields total resultLimit? fun limit? ↦ ∀ limit ∈ limit?, limit.Shaped :=
    .skip (.check _) fun _ ↦ .ite (Yields.some (.shaped (.skip .advance fun _ ↦
      .skip (.consume _) fun _ ↦ hs.skip alike_integer fun _ ↦ .pure ⟨trivial, trivial⟩)))
        (.pure nofun)
  have horder : Yields total (orderExpression scope) Tree.Shaped := by
    refine .shaped ((hs.nested (.expression 0)).bind fun _ hexpression ↦
      hs.skip (.oneOf _) fun direction? ↦ ?_)
    cases direction? with
    | some direction => exact .pure ⟨trivial, hexpression, trivial⟩
    | none => exact .failMissing
  have horders : Yields total (orders scope) fun orders ↦ ∀ order ∈ orders, order.Shaped :=
    .skip (.consume _) fun _ ↦ .ite (.skip (.expect _) fun _ ↦ horder.separatedBy)
      (.pure (List.forall_mem_nil _))
  exact .skip (.look _) fun _ ↦ hlimit.bind fun _ hlimit ↦ horders.bind fun _ horders ↦
    .skip (.look _) fun _ ↦
      .pure ⟨trivial, Tree.shaped_optional hlimit (Tree.shaped_many horders trivial)⟩

end Grammar

/-! ### Rules and entries -/

theorem Rule.shaped_body {total : Nat} {scope : Scope} (hs : scope.Shaping total) (rule : Rule) :
    Yields total (rule.body scope) Tree.Shaped := by
  cases rule with
  | expression least => exact shaped_expression hs least
  | loop => exact shaped_loop hs
  | structuralConstraint => exact shaped_structuralConstraint hs
  | nodeStatement least =>
    exact Ensures.weaken (stated_nodeStatement hs least) (fun _ h ↦ h) fun _ _ h ↦ h.1.shaped
  | node => exact shaped_node hs
  | marker least =>
    exact Ensures.weaken (marked_marker hs least) (fun _ h ↦ h) fun _ _ h ↦ h.1.shaped
  | payload => exact shaped_payload hs
  | selection => exact shaped_selection hs

theorem Rule.shaping_inside (total limit room : Nat) : (inside limit room).Shaping total := by
  induction room with
  | zero =>
    exact ⟨progressive_inside limit 0, fun _ _ hfit _ ↦ ⟨hfit.closed, hfit.total_eq, trivial⟩,
      fun _ _ hfit _ ↦ ⟨hfit.closed, hfit.total_eq, trivial⟩,
      fun _ _ hfit _ ↦ ⟨hfit.closed, hfit.total_eq, trivial⟩⟩
  | succ room ih =>
    exact ⟨progressive_inside limit (room + 1),
      fun rule ↦ Ensures.enter (fun _ _ _ ↦ trivial) (fun _ _ _ _ ↦ trivial) (rule.shaped_body ih),
      fun least ↦ Ensures.enter (fun _ _ _ ↦ trivial) (fun _ _ _ _ ↦ trivial)
        (stated_nodeStatement ih least),
      fun least ↦ Ensures.enter (fun _ _ _ ↦ trivial) (fun _ _ _ _ ↦ trivial)
        (marked_marker ih least)⟩

namespace Entry

theorem shaped_complete {total : Nat} {scope : Scope} (hs : scope.Shaping total) (entry : Entry) :
    Yields total (entry.complete scope) Tree.Shaped := by
  have hbody : Yields total (entry.body scope) Tree.Shaped := by
    cases entry with
    | expression => exact hs.nested (.expression 0)
    | nodeStatement => exact hs.nested (.nodeStatement 0)
    | structuralConstraint => exact hs.nested .structuralConstraint
    | selection => exact hs.nested .selection
    | payload => exact hs.nested .payload
    | group => exact shaped_group hs
    | result => exact shaped_result hs
  exact hbody.bind fun _ hphrase ↦ .skip (.expect _) fun _ ↦ .pure hphrase

/-- In every tree that is returned every phrase has the shape that its form asks for. -/
theorem shaped_of_outcome (entry : Entry) (limit : Nat) (tokens : List Token)
    {phrase : Phrase entry.category} (h : (entry.parse limit tokens).outcome = .ok phrase) :
    phrase.Shaped := by
  obtain ⟨after, hrun⟩ := complete_of_outcome h
  have hs := Rule.shaping_inside (Place.ofTokens tokens).total limit limit
  rw [← Scope.top_eq_inside] at hs
  exact (Ensures.ok (entry.shaped_complete hs) ⟨Place.ofTokens_closed tokens, rfl, trivial⟩ trivial
    hrun).2

/-- In `[?], [+] OR ORDERED [*] [?]` the fragment has two elements, and the sequence takes in the
statements behind its arrangement. -/
theorem shaped_of_outcome_of_sequence :
    let tokens : List Token :=
      [⟨.symbol .leftBracket, "[", ⟨0, 1⟩⟩, ⟨.symbol .question, "?", ⟨1, 2⟩⟩,
        ⟨.symbol .rightBracket, "]", ⟨2, 3⟩⟩, ⟨.symbol .comma, ",", ⟨3, 4⟩⟩,
        ⟨.symbol .leftBracket, "[", ⟨5, 6⟩⟩, ⟨.symbol .plus, "+", ⟨6, 7⟩⟩,
        ⟨.symbol .rightBracket, "]", ⟨7, 8⟩⟩, ⟨.keyword .or, "OR", ⟨9, 11⟩⟩,
        ⟨.keyword .ordered, "ORDERED", ⟨12, 19⟩⟩, ⟨.symbol .leftBracket, "[", ⟨20, 21⟩⟩,
        ⟨.symbol .star, "*", ⟨21, 22⟩⟩, ⟨.symbol .rightBracket, "]", ⟨22, 23⟩⟩,
        ⟨.symbol .leftBracket, "[", ⟨24, 25⟩⟩, ⟨.symbol .question, "?", ⟨25, 26⟩⟩,
        ⟨.symbol .rightBracket, "]", ⟨26, 27⟩⟩, .endAt 27]
    ∃ phrase, (Entry.nodeStatement.parse 32 tokens).outcome = .ok phrase ∧ phrase.Shaped := by
  intro tokens
  have hparsed : (Entry.nodeStatement.parse 32 tokens).outcome.toOption.isSome = true := by
    decide +kernel
  revert hparsed
  cases houtcome : (Entry.nodeStatement.parse 32 tokens).outcome with
  | ok phrase => exact fun _ ↦ ⟨phrase, rfl, shaped_of_outcome .nodeStatement 32 tokens houtcome⟩
  | error failure => exact nofun

end Entry

end CorpusQuery
