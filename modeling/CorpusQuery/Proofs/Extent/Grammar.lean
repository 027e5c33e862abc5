import CorpusQuery.Proofs.Extent.Basic

/-!
Every rule returns a tree that covers exactly the tokens that were read (`Rule.charted_inside`).
Each function of the grammar reads its parts in the order of their slots, so the parts of a phrase
are lined up as they are filled in. What is known of expressions besides has to be known of operands
and kept by continuations.
-/

set_option autoImplicit false
set_option relaxedAutoImplicit false

namespace CorpusQuery

open CorpusQuery.Parser CorpusQuery.Grammar

variable {start : Place} {reading : Reading} {scope : Scope} {first middle : Nat}

/-- The rules of a scope return phrases that cover what was read. -/
structure Scope.Charted (start : Place) (reading : Reading) (scope : Scope) : Prop where
  progressive : scope.Progressive
  nested : ∀ rule first, From start first (scope.nested rule) fun phrase ↦
    phrase.Covers start reading first

/-- What is read of operands and of continuations in a scope is the case. -/
structure Reading.Within (start : Place) (reading : Reading) (scope : Scope) : Prop where
  operand : ∀ first, From start first (operand scope) fun phrase ↦ reading phrase first
  continuation : ∀ least {left : Phrase .expression} {first middle : Nat},
    left.Covers start reading first middle →
      From start middle (continuation scope least left) fun next? last ↦
        ∀ next ∈ next?, reading next first last

namespace Scope.Charted

variable (hs : scope.Charted start reading)

include hs

/-- A parser whose value does not matter. -/
theorem any {α : Type} {parser : Parser α} (h : Alike scope scope parser parser) :
    From start first parser fun _ _ ↦ True :=
  h.from fun rule index ↦ (hs.nested rule index).weaken fun _ _ _ _ ↦ trivial

theorem skip {α β : Type} {parser : Parser α} {next : α → Parser β} {holds : β → Nat → Prop}
    (h : Alike scope scope parser parser)
    (hnext : ∀ value middle, first ≤ middle → From start middle (next value) holds) :
    From start first (parser >>= next) holds :=
  (hs.any h).bind fun value middle hle _ ↦ hnext value middle hle

theorem forward {α : Type} {parser : Parser α} (hproduction : Production scope parser)
    (h : Alike scope scope parser parser) : From start first parser fun _ last ↦ first < last :=
  .forward hs.progressive hproduction (hs.any h)

end Scope.Charted

namespace Grammar

variable (hs : scope.Charted start reading)

include hs

/-! ### Expressions -/

theorem charted_expressionsUntil (close : Kind) :
    From start first (expressionsUntil scope close) fun items ↦
      Tree.Lined start reading items first :=
  (From.separatedBy fun index _ ↦ hs.nested (.expression 0) index).bind fun _ _ _ hitems ↦
    .skip (.expect _) fun _ _ hle ↦ .pure (hitems.later hle)

theorem charted_optionalExpressionsUntil (close : Kind) :
    From start first (optionalExpressionsUntil scope close) fun items ↦
      Tree.Lined start reading items first :=
  .skip (.consume _) fun _ _ hle ↦ .ite (fun _ ↦ .pure hle) fun _ ↦
    (charted_expressionsUntil hs close).weaken fun _ _ _ hitems ↦ hitems.sooner hle

theorem charted_listItems :
    From start first (listItems scope) fun items ↦ Tree.Lined start reading items first :=
  .skip (.expect _) fun _ _ hle ↦ (charted_optionalExpressionsUntil hs _).weaken
    fun _ _ _ hitems ↦ hitems.sooner hle

theorem charted_primary : From start first (primary scope) fun draft ↦
    draft.parts.Covers start reading first := by
  refine .look fun kind ↦ .look fun next ↦ ?_
  split
  · exact .skip .advance fun _ _ h ↦ .pure h
  · exact .skip .advance fun _ _ h ↦ .pure h
  · exact .skip .advance fun _ _ h ↦ .pure h
  · exact hs.skip alike_numeral fun _ _ h ↦ .pure h
  · exact hs.skip alike_numeral fun _ _ h ↦ .pure h
  · exact .skip .advance fun _ _ h ↦ .pure h
  · exact (charted_listItems hs).bind fun _ _ _ hitems ↦ .pure (hitems.many (Nat.le_refl _))
  · exact hs.skip alike_variableName fun _ _ h ↦ .pure h
  · exact hs.skip alike_memberName fun _ _ h ↦ .pure h
  · exact .skip .advance fun _ _ h ↦ .ite (fun _ ↦ .skip .advance fun _ _ h' ↦
      hs.skip alike_identifier fun _ _ h'' ↦ .pure (h.trans (h'.trans h''))) fun _ ↦ .pure h
  · split
    · exact .skip .advance fun _ _ h ↦ .skip .advance fun _ _ h' ↦ .skip (.expect _) fun _ _ h'' ↦
        (charted_listItems hs).bind fun _ _ _ hitems ↦
          .pure ((hitems.sooner (h.trans (h'.trans h''))).many (Nat.le_refl _))
    · exact .failMissing

theorem charted_castTo (type : ValueType) : From start first (castTo scope type) fun draft ↦
    draft.parts.Covers start reading first :=
  .skip .advance fun _ _ h ↦ .skip .advance fun _ _ h' ↦ .skip .advance fun _ _ h'' ↦
    (hs.nested (.expression castOperandLevel) _).bind fun _ _ _ hoperand ↦
      .pure ((hoperand.lined.sooner (h.trans (h'.trans h''))).one (Nat.le_refl _))

theorem charted_unary (operator : UnaryOperator) : From start first (unary scope operator)
    fun draft ↦ draft.parts.Covers start reading first :=
  .skip .advance fun _ _ h ↦ (hs.nested (.expression unaryOperandLevel) _).bind
    fun _ _ _ hoperand ↦ .pure ((hoperand.lined.sooner h).one (Nat.le_refl _))

theorem charted_wrapping : From start first (wrapping scope) fun draft ↦
    draft.parts.Covers start reading first :=
  .skip .advance fun _ _ h ↦ (hs.nested (.expression 0) _).bind fun _ _ _ hinner ↦
    .skip (.expect _) fun _ _ h' ↦ .pure ((hinner.lined.sooner h).one h')

theorem charted_operand (hreading : reading.Within start scope) :
    From start first (operand scope) fun phrase ↦ phrase.Covers start reading first := by
  have hforward : From start first (operand scope) fun _ last ↦ first < last :=
    .forward hs.progressive .operand (hs.any alike_operand)
  refine ((From.phrase_drawn hforward (.look fun type? ↦ ?_)).and (hreading.operand first)).weaken
    fun _ _ _ h ↦ h.1.covers h.2
  cases type? with
  | some type => exact charted_castTo hs type
  | none =>
    refine .look fun kind ↦ ?_
    cases unaryOperator? kind with
    | some operator => exact charted_unary hs operator
    | none =>
      refine .ite (fun _ ↦ charted_wrapping hs) fun _ ↦ .ite (fun _ ↦ ?_) fun _ ↦
        charted_primary hs
      exact (hs.nested .loop first).bind fun _ _ _ hloop ↦ .pure (hloop.lined.one (Nat.le_refl _))

theorem charted_draft {left : Phrase .expression} (hleft : left.Covers start reading first middle)
    (continuation : Continuation) : From start middle (continuation.draft scope left) fun draft ↦
      draft.parts.Covers start reading first := by
  have hlined := hleft.lined
  cases continuation with
  | path =>
    exact .skip .advance fun _ _ h ↦ hs.skip alike_identifier fun _ _ h' ↦
      .pure (hlined.one (h.trans h'))
  | call =>
    exact .skip .advance fun _ _ h ↦ (charted_optionalExpressionsUntil hs _).bind
      fun _ _ _ harguments ↦ .pure (hlined.one ((harguments.sooner h).many (Nat.le_refl _)))
  | listAccess =>
    exact .skip .advance fun _ _ h ↦ (charted_expressionsUntil hs _).bind
      fun _ _ _ hindices ↦ .pure (hlined.one ((hindices.sooner h).many (Nat.le_refl _)))
  | annotationAccess =>
    exact .skip .advance fun _ _ h ↦ (charted_expressionsUntil hs _).bind
      fun _ _ _ hkeys ↦ .pure (hlined.one ((hkeys.sooner h).many (Nat.le_refl _)))
  | binary operator =>
    exact .skip .advance fun _ _ h ↦ (hs.nested (.expression _) _).bind
      fun _ _ _ hright ↦ .pure (hlined.one ((hright.lined.sooner h).one (Nat.le_refl _)))
  | assignment =>
    exact .skip .advance fun _ _ h ↦ .skip (.consume _) fun _ _ h' ↦ hs.skip alike_target
      fun _ _ h'' ↦ .pure (hlined.one (h.trans (h'.trans h'')))
  | setPredicate =>
    exact hs.skip (alike_consumeEither _ _) fun _ _ h ↦ hs.skip (alike_consumeEither _ _)
      fun _ _ h' ↦ .skip (.expect _) fun _ _ h'' ↦ (hs.nested (.expression _) _).bind
        fun _ _ _ hset ↦
          .pure (hlined.one ((hset.lined.sooner (h.trans (h'.trans h''))).one (Nat.le_refl _)))
  | ternary =>
    exact .skip .advance fun _ _ h ↦ (hs.nested (.expression _) _).bind fun _ _ _ hyes ↦
      .skip (.expect _) fun _ _ h' ↦ (hs.nested (.expression _) _).bind fun _ _ _ hno ↦
        .pure (hlined.one ((hyes.lined.sooner h).one ((hno.lined.sooner h').one (Nat.le_refl _))))

theorem charted_continuation (hreading : reading.Within start scope) (least : Nat)
    {left : Phrase .expression} (hleft : left.Covers start reading first middle) :
    From start middle (continuation scope least left) fun next? last ↦
      next?.elim (left.Covers start reading first last) (·.Covers start reading first last) := by
  have hdrawn : From start middle (continuation scope least left) fun next? last ↦
      next?.elim (left.Covers start reading first last) (·.Drawn start reading first last) := by
    refine .look fun found ↦ ?_
    cases found with
    | none => exact .pure hleft
    | some continuation =>
      refine .ite (fun _ ↦ .pure hleft) fun _ ↦ .map (.phraseFrom hleft.span_start ?_)
      exact (charted_draft hs hleft continuation).weaken fun _ _ hle hparts ↦
        ⟨Nat.lt_of_lt_of_le hleft.lt hle, hparts⟩
  refine (hdrawn.and (hreading.continuation least hleft)).weaken
    fun next? last _ ⟨hnext, hread⟩ ↦ ?_
  cases next? with
  | none => exact hnext
  | some next => exact Tree.Drawn.covers hnext (hread next rfl)

theorem charted_expression (hreading : reading.Within start scope) (least : Nat) :
    From start first (expression scope least) fun phrase ↦ phrase.Covers start reading first :=
  (charted_operand hs hreading).bind fun _ _ _ hoperand ↦
    .iterate (fun _ _ _ hleft ↦ charted_continuation hs hreading least hleft) hoperand

/-! ### Loops -/

theorem charted_boundedRange : From start first (boundedRange scope) fun phrase ↦
    phrase.Covers start reading first := by
  refine .phrase (by decide) (hs.forward .boundedRange alike_boundedRange) ?_
  exact .skip (.expect _) fun _ _ h ↦ (hs.nested (.expression 0) _).bind fun _ _ _ hlower ↦
    .skip (.expect _) fun _ _ h' ↦ (hs.nested (.expression 0) _).bind fun _ _ _ hupper ↦
      .skip (.expect _) fun _ _ h'' ↦
        .pure ((hlower.lined.sooner h).one ((hupper.lined.sooner h').one h''))

theorem charted_loopControl : From start first (loopControl scope) fun phrase ↦
    phrase.Covers start reading first := by
  refine .phrase (by decide) (hs.forward .loopControl alike_loopControl) ?_
  exact hs.skip alike_parity? fun _ _ h ↦ (From.behind fun _ _ ↦ hs.nested (.expression 0) _).bind
    fun _ _ _ homitted ↦ (From.behind fun _ _ ↦ charted_boundedRange hs).bind
      fun _ _ _ hrange ↦ (From.behind fun _ _ ↦ charted_boundedRange hs).bind
        fun _ _ _ hstep ↦ (From.behind fun _ _ ↦ hs.nested (.expression 0) _).bind
          fun _ _ _ haction ↦ .skip (.expect _) fun _ _ h' ↦
            .pure ((homitted.sooner h).optional (hrange.optional (hstep.optional
              (haction.optional h'))))

theorem charted_counted : From start first (counted scope) fun counted last ↦
    Tree.Lined start reading [counted.1] first last :=
  (hs.nested (.expression _) first).bind fun _ _ _ hsource ↦ .skip (.expect _) fun _ _ h ↦
    hs.skip alike_variableName fun _ _ h' ↦ .pure (hsource.lined.later (h.trans h'))

theorem charted_counter : From start first (counter scope) fun phrase ↦
    phrase.Covers start reading first := by
  refine .phrase (by decide) (hs.forward .counter (.phrase (alike_counted.bind fun _ ↦ .pure _))) ?_
  exact (charted_counted hs).bind fun _ _ _ hcounted ↦ .pure (hcounted.one (Nat.le_refl _))

theorem charted_counters : From start first (counters scope) fun counters ↦
    Tree.Lined start reading counters first :=
  .skip (.consume _) fun _ _ h ↦ .ite
    (fun _ ↦ (From.separatedBy fun _ _ ↦ charted_counter hs).weaken fun _ _ _ hcounters ↦
      hcounters.sooner h)
    fun _ ↦ .pure h

theorem charted_loop : From start first (loop scope) fun phrase ↦
    phrase.Covers start reading first := by
  refine .phrase (by decide) (hs.forward (.body .loop) alike_loop) ?_
  exact .skip (.expect _) fun _ _ h ↦ (charted_counted hs).bind fun _ _ _ hsource ↦
    (charted_loopControl hs).bind fun _ _ _ hcontrol ↦ (charted_counters hs).bind
      fun _ _ _ hcounters ↦ .pure ((hsource.sooner h).one (hcontrol.lined.one
        (hcounters.many (Nat.le_refl _))))

/-! ### Quantifiers and markers -/

theorem charted_countFrom (low : String) : From start first (countFrom low) fun draft ↦
    draft.parts.Covers start reading first := by
  refine .skip (.consume _) fun _ _ h ↦ .ite (fun _ ↦ ?_) fun _ ↦ .skip (.consume _) fun _ _ h' ↦
    .ite (fun _ ↦ .pure_bind ?_) fun _ ↦ .skip (.consume _) fun _ _ hbound ↦ ?_
  · exact .skip (.expect _) fun _ _ h' ↦ hs.skip (alike_greed _) fun _ _ h'' ↦
      .skip (.consume _) fun _ _ h''' ↦ .pure (h.trans (h'.trans (h''.trans h''')))
  · exact hs.skip (alike_greed _) fun _ _ h'' ↦ .skip (.consume _) fun _ _ h''' ↦
      .pure (h.trans (h'.trans (h''.trans h''')))
  · exact hs.skip (alike_greed _) fun _ _ h'' ↦ .skip (.consume _) fun _ _ h''' ↦
      .pure (h.trans (h'.trans (hbound.trans (h''.trans h'''))))

theorem charted_simpleQuantifier : From start first simpleQuantifier fun phrase ↦
    phrase.Covers start reading first := by
  refine .phrase (by decide) (hs.forward .simpleQuantifier alike_simpleQuantifier)
    (.look fun token ↦ ?_)
  split
  · exact .skip .advance fun _ _ h ↦ .pure h
  · exact .skip .advance fun _ _ h ↦ .pure h
  · exact .skip .advance fun _ _ h ↦ hs.skip (alike_greed _) fun _ _ h' ↦ .pure (h.trans h')
  · exact .skip .advance fun _ _ h ↦ hs.skip (alike_greed _) fun _ _ h' ↦ .pure (h.trans h')
  · exact .skip .advance fun _ _ h ↦ (charted_countFrom hs _).weaken fun _ _ _ hparts ↦
      Tree.covers_widen _ hparts h (Nat.le_refl _)
  · exact .skip (.expecting _) fun _ _ _ ↦ .fail

theorem charted_quantifier : From start first quantifier fun phrase ↦
    phrase.Covers start reading first := by
  refine .phrase (by decide) (hs.forward .quantifier alike_quantifier) ?_
  exact .skip (.consume _) fun _ _ h ↦ (From.separatedBy fun _ _ ↦
    charted_simpleQuantifier hs).bind fun _ _ _ halternatives ↦
      .ite (fun _ ↦ .skip (.expect _) fun _ _ h' ↦ .pure ((halternatives.sooner h).many h'))
        fun _ ↦ .pure ((halternatives.sooner h).many (Nat.le_refl _))

theorem charted_quantifier? : From start first quantifier? fun quantifier? ↦
    Tree.Lined start reading quantifier?.toList first :=
  .testAny fun _ ↦ .ite (fun _ ↦ (charted_quantifier hs).lined) fun _ ↦ .pure (Nat.le_refl _)

theorem charted_markerOperand : From start first (markerOperand scope) fun phrase ↦
    phrase.Covers start reading first := by
  refine .phrase (by decide) (hs.forward .markerOperand alike_markerOperand) ?_
  refine .skip (.consume _) fun _ _ h ↦ .ite (fun _ ↦ ?_) fun _ ↦ .test fun _ _ ↦ .ite
    (fun _ ↦ ?_) fun _ ↦ .failMissing
  · exact (hs.nested (.marker 0) _).bind fun _ _ _ hinner ↦ .skip (.expect _) fun _ _ h' ↦
      .pure ((hinner.lined.sooner h).one h')
  · exact .skip .advance fun _ _ h' ↦ hs.skip alike_markerArguments fun _ _ h'' ↦
      .pure (h.trans (h'.trans h''))

theorem charted_markerContinuation (least : Nat) {left : Phrase .marker}
    (hleft : left.Covers start reading first middle) :
    From start middle (markerContinuation scope least left) fun next? last ↦
      next?.elim (left.Covers start reading first last) (·.Covers start reading first last) := by
  refine .look fun kind ↦ ?_
  cases Connective.ofKind? kind with
  | none => exact .pure hleft
  | some connective =>
    refine .ite (fun _ ↦ .pure hleft) fun _ ↦ .map ((From.phraseFrom hleft.span_start ?_).weaken
      fun _ _ _ hnext ↦ hnext.covers_of_ne (by decide))
    refine .skip .advance fun _ _ h ↦ (hs.nested (.marker _) _).bind fun right _ h' hright ↦
      .pure ⟨Nat.lt_of_lt_of_le hleft.lt (h.trans h'), ?_⟩
    cases connective <;> exact hleft.lined.one ((hright.lined.sooner h).one (Nat.le_refl _))

theorem charted_marker (least : Nat) : From start first (marker scope least) fun phrase ↦
    phrase.Covers start reading first :=
  (charted_markerOperand hs).bind fun _ _ _ hoperand ↦
    .iterate (fun _ _ _ hleft ↦ charted_markerContinuation hs least hleft) hoperand

/-! ### Edges and nodes -/

theorem charted_edge : From start first (edge scope) fun phrase ↦
    phrase.Covers start reading first := by
  refine .phrase (by decide) (hs.forward .edge alike_edge) (hs.skip (.oneOf _) fun ends? _ h ↦ ?_)
  cases ends? with
  | some ends => exact .pure h
  | none =>
    have hconstraint (index : Nat) : From start index (edgeConstraint? scope) fun constraint? ↦
        Tree.Lined start reading constraint?.toList index :=
      .test fun _ _ ↦ .ite (fun _ ↦ .pure (Nat.le_refl _)) fun _ ↦
        (hs.nested (.expression 0) index).lined
    exact hs.skip (alike_edgeEnd _ _) fun _ _ h' ↦ .skip (.expect _) fun _ _ h'' ↦
      hs.skip alike_label? fun _ _ h''' ↦ (hconstraint _).bind fun _ _ _ hconstraint ↦
        .skip (.expect _) fun _ _ hclose ↦ hs.skip (alike_edgeEnd _ _) fun _ _ hend ↦
          .pure ((hconstraint.sooner (h.trans (h'.trans (h''.trans h''')))).optional
            (hclose.trans hend))

theorem charted_elementFrom {source : Phrase .node} {index : Nat}
    (hsource : source.Covers start reading first middle) (hindex : middle ≤ index) :
    From start index (elementFrom scope source) fun phrase ↦
      phrase.Covers start reading first := by
  have hlined := hsource.lined.later hindex
  have hbody : From start index (do
      let connected ← atEdge
      if connected then
        let edge ← edge scope
        let target ← scope.node
        pure ⟨.connection, .one source (.one edge (.one target .nil))⟩
      else
        pure ⟨.content, .one source .nil⟩ : Parser (Draft .element)) fun draft ↦
        draft.parts.Covers start reading first :=
    hs.skip alike_atEdge fun _ _ h ↦ .ite
      (fun _ ↦ (charted_edge hs).bind fun _ _ _ hedge ↦ (hs.nested .node _).bind
        fun _ _ _ htarget ↦ .pure (hlined.one
          ((hedge.lined.sooner h).one (htarget.lined.one (Nat.le_refl _)))))
      fun _ ↦ .pure (hlined.one h)
  refine (From.phraseFrom hsource.span_start (hbody.weaken fun _ _ hle hparts ↦ ?_)).weaken
    fun _ _ _ helement ↦ helement.covers_of_ne (by decide)
  exact ⟨Nat.lt_of_lt_of_le hsource.lt (hindex.trans hle), hparts⟩

theorem charted_element : From start first (element scope) fun phrase ↦
    phrase.Covers start reading first :=
  (hs.nested .node first).bind fun _ _ _ hsource ↦ charted_elementFrom hs hsource (Nat.le_refl _)

/-- The contents of a node lie one behind the other. -/
def NodeContent.Covers (start : Place) (reading : Reading) (content : NodeContent)
    (first last : Nat) : Prop :=
  ∃ middle, Tree.Lined start reading content.constraint.toList first middle ∧
    Tree.Lined start reading content.children.toList middle last

theorem charted_children? : From start first (children? scope) fun children? ↦
    Tree.Lined start reading children?.toList first :=
  .testAny fun _ ↦ .ite (fun _ ↦ (hs.nested .structuralConstraint first).lined) fun _ ↦
    .pure (Nat.le_refl _)

theorem charted_leadingConstraint : From start first (leadingConstraint scope) fun constraint ↦
    constraint.Covers start reading first :=
  (hs.nested (.expression 0) first).bind fun _ _ _ hconstraint ↦ .test fun _ _ ↦
    .ite (fun _ ↦ .pure hconstraint) fun _ ↦ .look fun _ ↦ .testAny fun _ ↦
      .ite (fun _ ↦ .pure hconstraint) fun _ ↦ .fail

theorem charted_nodeContent : From start first (nodeContent scope) fun content ↦
    content.Covers start reading first := by
  rw [nodeContent_eq_either]
  have honly (index : Nat) : From start index (onlyChildren scope) fun content ↦
      content.Covers start reading index :=
    (charted_children? hs).bind fun _ _ _ hchildren ↦ .skip (.expect _) fun _ _ h ↦
      .pure ⟨index, Nat.le_refl _, hchildren.later h⟩
  refine .skip (.consume _) fun _ middle h ↦ .ite (fun _ ↦ .pure ⟨middle, h, Nat.le_refl _⟩)
    fun _ ↦ (From.either (charted_leadingConstraint hs) (fun constraint _ _ hconstraint ↦ ?_)
      (honly middle).attempt fun _ _ _ hcontent ↦ .pure hcontent).weaken
        fun _ _ _ ⟨middle', hconstraint, hchildren⟩ ↦ ⟨middle', hconstraint.sooner h, hchildren⟩
  exact (charted_children? hs).bind fun _ _ _ hchildren ↦ .skip (.expect _) fun _ _ h' ↦
    .pure ⟨_, hconstraint.lined, hchildren.later h'⟩

theorem charted_markedContent : From start first (markedContent scope) fun marked last ↦
    ∃ middle, Tree.Lined start reading marked.1.toList first middle ∧
      marked.2.Covers start reading middle last := by
  rw [markedContent_eq_either]
  have hmarker : From start first (leadingMarker scope) fun marker last ↦
      Tree.Lined start reading [marker] first last :=
    (hs.nested (.marker 0) first).bind fun _ _ _ hmarker ↦ .skip (.expect _) fun _ _ h ↦
      .pure (hmarker.lined.later h)
  refine .either hmarker (fun marker middle _ hmarker ↦ ?_) (charted_nodeContent hs)
    fun _ _ _ hcontent ↦ .pure ⟨first, Nat.le_refl _, hcontent⟩
  exact (charted_nodeContent hs).bind fun _ _ _ hcontent ↦ .pure ⟨middle, hmarker, hcontent⟩

theorem charted_node : From start first (node scope) fun phrase ↦
    phrase.Covers start reading first := by
  refine .phrase (by decide) (hs.forward (.body .node) alike_node) (.look fun dummy? ↦ ?_)
  cases dummy? with
  | some cardinality =>
    exact .skip .advance fun _ _ h ↦ .skip .advance fun _ _ h' ↦ .skip .advance fun _ _ h'' ↦
      .pure (h.trans (h'.trans h''))
  | none =>
    exact (charted_quantifier? hs).bind fun _ _ _ hquantifier ↦ .skip (.expect _) fun _ _ h ↦
      hs.skip alike_label? fun _ _ h' ↦ (charted_markedContent hs).bind
        fun _ _ _ ⟨_, hmarker, _, hconstraint, hchildren⟩ ↦
          .pure (hquantifier.optional ((hmarker.sooner (h.trans h')).optional
            (hconstraint.optional (hchildren.optional (Nat.le_refl _)))))

/-! ### Node statements -/

theorem charted_nodeStatements : From start first (nodeStatements scope) fun statements ↦
    Tree.Lined start reading statements first :=
  (hs.nested (.nodeStatement 0) first).bind fun _ _ _ hfirst ↦
    (From.many fun index _ ↦ .testAny fun _ ↦ .ite
      (fun _ ↦ (hs.nested (.nodeStatement 0) index).lined) fun _ ↦ .pure (Nat.le_refl _)).bind
        fun _ _ _ hothers ↦ .pure (hfirst.lined.append hothers)

theorem charted_grouping : From start first (grouping scope) fun draft ↦
    draft.parts.Covers start reading first :=
  (charted_quantifier? hs).bind fun _ _ _ hquantifier ↦ .skip (.expect _) fun _ _ h ↦
    (charted_nodeStatements hs).bind fun _ _ _ hstatements ↦ .skip (.expect _) fun _ _ h' ↦
      .pure (hquantifier.optional ((hstatements.sooner h).many h'))

theorem charted_sequence : From start first (sequence scope) fun draft ↦
    draft.parts.Covers start reading first :=
  hs.skip (.many .arrangement (.oneOf _)) fun _ _ h ↦ (charted_nodeStatements hs).bind
    fun _ _ _ hstatements ↦ .pure ((hstatements.sooner h).many (Nat.le_refl _))

theorem charted_nodes : From start first (nodes scope) fun draft ↦
    draft.parts.Covers start reading first := by
  refine (hs.nested .node first).bind fun node _ _ hnode ↦ hs.skip alike_atEdge fun _ _ h ↦
    .ite (fun _ ↦ .pure_bind (.ite (fun _ ↦ ?_) fun _ ↦ ?_)) fun _ ↦ .test fun _ _ ↦
      .ite (fun _ ↦ ?_) fun _ ↦ ?_
  all_goals
    first
    | exact .pure (hnode.lined.one h)
    | exact (charted_elementFrom hs hnode h).bind fun _ _ _ hfirst ↦
        (From.many fun _ _ ↦ .behind fun _ _ ↦ charted_element hs).bind fun _ _ _ hothers ↦
          .pure ((hfirst.lined.append hothers).many (Nat.le_refl _))

theorem charted_nodeStatementOperand : From start first (nodeStatementOperand scope) fun phrase ↦
    phrase.Covers start reading first := by
  refine .phrase (by decide) (hs.forward .nodeStatementOperand alike_nodeStatementOperand) ?_
  refine .testAny fun _ ↦ .ite (fun _ ↦ charted_sequence hs) fun _ ↦ ?_
  exact hs.skip alike_atGrouping fun _ _ h ↦ .ite
    (fun _ ↦ (charted_grouping hs).weaken fun _ _ _ hparts ↦
      Tree.covers_widen _ hparts h (Nat.le_refl _))
    fun _ ↦ (charted_nodes hs).weaken fun _ _ _ hparts ↦
      Tree.covers_widen _ hparts h (Nat.le_refl _)

theorem charted_nodeStatementContinuation (least : Nat) {left : Phrase .nodeStatement}
    (hleft : left.Covers start reading first middle) :
    From start middle (nodeStatementContinuation scope least left) fun next? last ↦
      next?.elim (left.Covers start reading first last) (·.Covers start reading first last) := by
  refine .ite (fun _ ↦ .pure hleft) fun _ ↦ .testAny fun _ ↦ .ite (fun _ ↦ ?_) fun _ ↦ .pure hleft
  refine .map ((From.phraseFrom hleft.span_start ?_).weaken fun _ _ _ hnext ↦
    hnext.covers_of_ne (by decide))
  exact .skip .advance fun _ _ h ↦ (hs.nested (.nodeStatement _) _).bind fun _ _ h' hright ↦
    .pure ⟨Nat.lt_of_lt_of_le hleft.lt (h.trans h'),
      hleft.lined.one ((hright.lined.sooner h).one (Nat.le_refl _))⟩

theorem charted_nodeStatement (least : Nat) : From start first (nodeStatement scope least)
    fun phrase ↦ phrase.Covers start reading first :=
  (charted_nodeStatementOperand hs).bind fun _ _ _ hoperand ↦
    .iterate (fun _ _ _ hleft ↦ charted_nodeStatementContinuation hs least hleft) hoperand

omit hs in
/-- An optional phrase whose first token has been seen. -/
theorem charted_some {category : Category} {body : Parser (Draft category)}
    (hcategory : category ≠ .expression)
    (h : From start first body fun draft last ↦
      first < last ∧ draft.parts.Covers start reading first last) :
    From start first (some <$> phrase body) fun phrase? ↦
      Tree.Lined start reading phrase?.toList first :=
  ((From.phrase_of_lt h).weaken fun _ _ _ hphrase ↦ hphrase.covers_of_ne hcategory).lined

theorem charted_structuralConstraint : From start first (structuralConstraint scope)
    fun phrase ↦ phrase.Covers start reading first := by
  refine .phrase (by decide)
    (hs.forward (.body .structuralConstraint) alike_structuralConstraint) ?_
  have hlimit : From start first hitsLimit? fun limit? ↦
      Tree.Lined start reading limit?.toList first := by
    refine .test fun isFirst hfirst ↦ .ite (fun h ↦ ?_) fun _ ↦ .test fun isCount hcount ↦
      .look fun isLimit ↦ .ite (fun h ↦ ?_) fun _ ↦ .pure (Nat.le_refl first)
    · subst h
      have hkind : (start.peek first).kind ≠ .endOfInput := by
        rw [eq_of_beq hfirst]
        nofun
      exact charted_some (by decide) ((From.advance_of_ne hkind).bind fun _ _ h hlt ↦
        .pure ⟨hlt, h⟩)
    · have hkind : (start.peek first).kind ≠ .endOfInput := by
        rw [eq_of_beq (hcount.trans (Bool.and_eq_true_iff.mp h).1)]
        nofun
      exact charted_some (by decide) ((From.advance_of_ne hkind).bind fun _ _ h hlt ↦
        .skip .advance fun _ _ h' ↦ .pure ⟨Nat.lt_of_lt_of_le hlt h', h.trans h'⟩)
  exact hlimit.bind fun _ _ _ hlimit ↦ hs.skip (.many .matchFlag (.oneOf _)) fun _ _ h ↦
    (charted_nodeStatements hs).bind fun _ _ _ hstatements ↦
      .pure (hlimit.optional ((hstatements.sooner h).many (Nat.le_refl _)))

/-! ### Queries -/

theorem charted_clause (word connective : Keyword) :
    From start first (scope.clause word connective) fun clause? ↦
      Tree.Lined start reading clause?.toList first := by
  refine .skip (.consume _) fun _ _ h ↦ .ite (fun _ ↦ ?_) fun _ ↦ .pure h
  refine .map (.skip (.expect _) fun _ _ h' ↦ (hs.nested (.expression 0) _).weaken
    fun _ _ _ hclause ↦ hclause.lined.sooner (h.trans h'))

theorem charted_bindings : From start first bindings fun bindings ↦
    Tree.Lined start reading bindings first := by
  have hbinding (index : Nat) : From start index binding fun phrase ↦
      phrase.Covers start reading index := by
    refine .phrase (by decide) (hs.forward .binding alike_binding) ?_
    exact hs.skip (.oneOf _) fun _ _ h ↦ hs.skip (.separatedBy .memberName alike_memberName)
      fun _ _ h' ↦ .skip (.expect _) fun _ _ h'' ↦ hs.skip alike_identifier fun _ _ h''' ↦
        .pure (h.trans (h'.trans (h''.trans h''')))
  exact .skip (.consume _) fun _ _ h ↦ .ite
    (fun _ ↦ (From.separatedBy fun index _ ↦ hbinding index).weaken fun _ _ _ hbindings ↦
      hbindings.sooner h)
    fun _ ↦ .pure h

theorem charted_payload : From start first (payload scope) fun phrase ↦
    phrase.Covers start reading first := by
  refine .phrase (by decide) (hs.forward (.body .payload) alike_payload) ?_
  refine .test fun _ _ ↦ .look fun _ ↦ .ite (fun _ ↦ .skip .advance fun _ _ h ↦ .pure h) fun _ ↦ ?_
  exact (charted_bindings hs).bind fun _ _ _ hbindings ↦ (charted_clause hs _ _).bind
    fun _ _ _ hfilter ↦ .skip (.expect _) fun _ _ h ↦ (hs.nested .selection _).bind
      fun _ _ _ hselection ↦ .pure (hbindings.many (hfilter.optional
        ((hselection.lined.sooner h).one (Nat.le_refl _))))

theorem charted_having? : From start first (having? scope) fun having? ↦
    Tree.Lined start reading having?.toList first :=
  .behind fun _ _ ↦ hs.nested (.expression 0) _

theorem charted_structuralSelection : From start first (structuralSelection scope) fun draft ↦
    draft.parts.Covers start reading first := by
  have hlane (index : Nat) : From start index (lane scope) fun phrase ↦
      phrase.Covers start reading index := by
    refine .phrase (by decide) (hs.forward .lane alike_lane) ?_
    exact .skip (.expect _) fun _ _ h ↦ hs.skip alike_identifier fun _ _ h' ↦
      hs.skip (.behind _ alike_memberName) fun _ _ h'' ↦ (hs.nested .structuralConstraint _).bind
        fun _ _ _ hconstraint ↦
          .pure ((hconstraint.lined.sooner (h.trans (h'.trans h''))).one (Nat.le_refl _))
  exact .test fun _ _ ↦ .ite
    (fun _ ↦ (From.separatedBy fun index _ ↦ hlane index).bind fun _ _ _ hlanes ↦
      (charted_having? hs).bind fun _ _ _ hhaving ↦
        .pure (hlanes.many (hhaving.optional (Nat.le_refl _))))
    fun _ ↦ (hs.nested .structuralConstraint first).bind fun _ _ _ hconstraint ↦
      (charted_having? hs).bind fun _ _ _ hhaving ↦
        .pure (hconstraint.lined.one (hhaving.optional (Nat.le_refl _)))

theorem charted_selection : From start first (selection scope) fun phrase ↦
    phrase.Covers start reading first := by
  have hforward : From start first (selection scope) fun _ last ↦ first < last :=
    hs.forward (.body .selection) alike_selection
  rw [selection_eq_either] at hforward ⊢
  have hplain : From start first (plainSelection scope) fun draft ↦
      draft.parts.Covers start reading first :=
    (hs.nested (.expression 0) first).bind fun _ _ _ hconstraint ↦ .skip (.expect _) fun _ _ h ↦
      .pure (hconstraint.lined.one h)
  exact .phrase (by decide) hforward (.either hplain (fun _ _ _ hdraft ↦ .pure hdraft)
    (charted_structuralSelection hs).attempt fun _ _ _ hdraft ↦ .pure hdraft)

theorem charted_group : From start first (group scope) fun phrase ↦
    phrase.Covers start reading first := by
  have hexpression (index : Nat) : From start index (groupExpression scope) fun phrase ↦
      phrase.Covers start reading index := by
    refine .phrase (by decide) (hs.forward .groupExpression alike_groupExpression) ?_
    exact .skip (.expect _) fun _ _ h ↦ (hs.nested (.expression 0) _).bind fun _ _ _ hselector ↦
      (charted_clause hs _ _).bind fun _ _ _ hfilter ↦ .skip (.expect _) fun _ _ h' ↦
        .skip (.expect _) fun _ _ h'' ↦
          (From.behind fun _ _ ↦ hs.nested (.expression 0) _).bind fun _ _ _ hreplacement ↦
            .pure ((hselector.lined.sooner h).one (hfilter.optional
              ((hreplacement.sooner (h'.trans h'')).optional (Nat.le_refl _))))
  refine .phrase (by decide) (hs.forward .group alike_group) ?_
  exact .skip (.expect _) fun _ _ h ↦ (From.separatedBy fun index _ ↦ hexpression index).bind
    fun _ _ _ hexpressions ↦ .pure ((hexpressions.sooner h).many (Nat.le_refl _))

theorem charted_resultLimit? : From start first resultLimit? fun limit? ↦
    Tree.Lined start reading limit?.toList first := by
  refine .test fun found hfound ↦ .ite (fun h ↦ ?_) fun _ ↦ .pure (Nat.le_refl first)
  subst h
  have hkind : (start.peek first).kind ≠ .endOfInput := by
    rw [eq_of_beq hfound]
    nofun
  exact charted_some (by decide) ((From.advance_of_ne hkind).bind fun _ _ h hlt ↦
    .skip (.consume _) fun _ _ h' ↦ hs.skip alike_integer fun _ _ h'' ↦
      .pure ⟨Nat.lt_of_lt_of_le hlt (h'.trans h''), h.trans (h'.trans h'')⟩)

theorem charted_orders : From start first (orders scope) fun orders ↦
    Tree.Lined start reading orders first := by
  have horder (index : Nat) : From start index (orderExpression scope) fun phrase ↦
      phrase.Covers start reading index := by
    refine .phrase (by decide) (hs.forward .orderExpression alike_orderExpression) ?_
    refine (hs.nested (.expression 0) index).bind fun _ _ _ hexpression ↦
      hs.skip (.oneOf _) fun direction? _ h ↦ ?_
    cases direction? with
    | some direction => exact .pure (hexpression.lined.one h)
    | none => exact .failMissing
  exact .skip (.consume _) fun _ _ h ↦ .ite
    (fun _ ↦ .skip (.expect _) fun _ _ h' ↦ (From.separatedBy fun index _ ↦ horder index).weaken
      fun _ _ _ horders ↦ horders.sooner (h.trans h'))
    fun _ ↦ .pure h

/-- Where a result stops: never before its first token starts. -/
def resultStop (start : Place) (last : Nat) : Nat :=
  if last = 0 then (start.peek 0).span.start
  else max (start.extent 0 last).stop (start.extent 0 last).start

theorem charted_result : From start 0 (result scope) fun phrase last ↦ ∃ parts,
    phrase = .phrase .result ⟨(start.peek 0).span.start, resultStop start last⟩ parts ∧
      parts.Covers start reading 0 last := by
  refine .view fun place hplace ↦ (charted_resultLimit? hs).bind fun limit? _ _ hlimit ↦
    (charted_orders hs).bind fun orders index _ horders ↦ .view fun place' hplace' ↦
      .pure ⟨.optional limit? (.many orders .nil), ?_,
        hlimit.optional (horders.many (Nat.le_refl _))⟩
  rw [hplace.1.here_eq, hplace.2, resultStop]
  split
  · rename_i hindex
    subst hindex
    rw [Place.previousStop, List.eq_nil_of_length_eq_zero hplace'.2, hplace'.1.here_eq, hplace'.2,
      Nat.max_self]
  · rename_i hindex
    rw [hplace'.1.previousStop_eq (by rw [hplace'.2]; exact Nat.pos_of_ne_zero hindex), hplace'.2,
      Place.extent]

end Grammar

/-! ### Rules -/

theorem Rule.charted_body (hs : scope.Charted start reading) (hreading : reading.Within start scope)
    (rule : Rule) :
    From start first (rule.body scope) fun phrase ↦ phrase.Covers start reading first := by
  cases rule with
  | expression least => exact charted_expression hs hreading least
  | loop => exact charted_loop hs
  | structuralConstraint => exact charted_structuralConstraint hs
  | nodeStatement least => exact charted_nodeStatement hs least
  | node => exact charted_node hs
  | marker least => exact charted_marker hs least
  | payload => exact charted_payload hs
  | selection => exact charted_selection hs

/-- Every rule returns a phrase that covers exactly the tokens that were read. -/
theorem Rule.charted_inside {limit room : Nat}
    (hreading : ∀ room < limit, reading.Within start (inside limit room)) (hroom : room ≤ limit) :
    (inside limit room).Charted start reading := by
  induction room with
  | zero =>
    exact ⟨progressive_inside limit 0,
      fun _ _ _ hfit _ ↦ ⟨hfit.closed, hfit.total_eq, trivial⟩⟩
  | succ room ih =>
    exact ⟨progressive_inside limit (room + 1), fun rule _ ↦
      (rule.charted_body (ih (Nat.le_of_lt hroom)) (hreading room hroom)).enter⟩

end CorpusQuery
