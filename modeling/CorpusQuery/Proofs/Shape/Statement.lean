import CorpusQuery.Proofs.Shape.Contract

/-!
The shapes that come from loops. Whether a statement may follow another one, whether a fragment has
a second element and whether a connective may take a marker apart are decided by the token behind
what has been read: behind a list of statements stands neither a statement nor an alternative
(`Grammar.listed_nodeStatements`), behind a statement or a marker of a level nothing that binds as
tightly as that (`Grammar.stated_nodeStatement`, `Grammar.marked_marker`).
-/

set_option autoImplicit false
set_option relaxedAutoImplicit false

namespace CorpusQuery

open CorpusQuery.Parser CorpusQuery.Grammar

namespace Grammar

variable {total : Nat} {scope : Scope} (hs : scope.Shaping total)

/-! ### Lists of statements -/

/-- The statements read up to the place, the last one first. -/
def Piled : List (Phrase .nodeStatement) → Place → Prop
  | [], _ => False
  | latest :: earlier, place => (Stated 0 latest place ∧ Exhausted 0 place) ∧
      ∀ statement ∈ earlier, statement.Shaped ∧ ¬ statement.Swallows

/-- The statements have their shapes, and nothing that they could take in follows. -/
structure Listed (statements : List (Phrase .nodeStatement)) (place : Place) : Prop where
  shaped : ∀ statement ∈ statements, statement.Shaped
  statements : Statements statements
  ends : place.EndsStatements

namespace Piled

variable {statements : List (Phrase .nodeStatement)} {place : Place}

/-- If another statement begins at the place, the latest one has not swallowed it. -/
theorem forall_of_statement (h : Piled statements place)
    (hfound : nodeStatementStart.contains place.kind = true) :
    ∀ statement ∈ statements, statement.Shaped ∧ ¬ statement.Swallows := by
  cases statements with
  | nil => exact h.elim
  | cons latest earlier =>
    refine List.forall_mem_cons.mpr ⟨⟨h.1.1.shaped, fun hswallows ↦ ?_⟩, h.2⟩
    exact Bool.false_ne_true ((h.1.1.swallowed hswallows).statement.symm.trans hfound)

theorem listed (h : Piled statements place)
    (hmissing : nodeStatementStart.contains place.kind = false) :
    Listed statements.reverse place := by
  cases statements with
  | nil => exact h.elim
  | cons latest earlier =>
    obtain ⟨⟨hlatest, hends⟩, hearlier⟩ := h
    refine ⟨fun statement hmem ↦ ?_, ⟨by simp, fun statement hmem ↦ ?_⟩,
      ⟨hmissing, hends (Nat.zero_le _)⟩⟩
    · rcases List.mem_cons.mp (List.mem_reverse.mp hmem) with rfl | hmem
      · exact hlatest.shaped
      · exact (hearlier statement hmem).1
    · rw [List.reverse_cons, List.dropLast_concat] at hmem
      exact (hearlier statement (List.mem_reverse.mp hmem)).2

end Piled

include hs

theorem listed_nodeStatements :
    Ensures total Untraced Anywhere (nodeStatements scope) Listed := by
  refine (hs.nodeStatement 0).bind fun first ↦ ?_
  have hothers : Ensures total Untraced (fun place ↦ Piled [first] place)
      (many (nodeStatement? scope)) fun others place ↦
        Piled (others.reverse ++ [first]) place ∧
          nodeStatementStart.contains place.kind = false := by
    refine .many_until hs.progressive .nodeStatement (fun items ↦ Piled (items ++ [first]))
      fun items ↦ (Ensures.checkAny _).bind fun found ↦ .ite (fun hfound ↦ ?_) fun hmissing ↦
        .pure fun _ h ↦ ⟨h.1, h.2.trans (Bool.eq_false_iff.mpr hmissing)⟩
    refine .known (fun place h ↦ h.1.forall_of_statement (h.2.trans hfound)) fun hread ↦ .map ?_
    exact (hs.nodeStatement 0).weaken (fun _ _ ↦ trivial) fun statement place h ↦ ⟨h, hread⟩
  refine (hothers.when fun place h ↦ ⟨h, List.forall_mem_nil _⟩).bind fun others ↦
    .pure fun place h ↦ ?_
  have hlisted := h.1.listed h.2
  rwa [List.reverse_append, List.reverse_reverse] at hlisted

theorem shaped_nodeStatements : Yields total (nodeStatements scope) fun statements ↦
    Statements statements ∧ ∀ statement ∈ statements, statement.Shaped :=
  (listed_nodeStatements hs).weaken (fun _ h ↦ h) fun _ _ h ↦ ⟨h.statements, h.shaped⟩

/-! ### Quantifiers -/

theorem shaped_countFrom (low : String) : Yields total (countFrom low) Draft.Shaped :=
  .skip (.consume _) fun _ ↦ .ite
    (.skip (.expect _) fun _ ↦ hs.skip (alike_greed _) fun _ ↦ .skip (.consume _) fun _ ↦
      .pure ⟨trivial, trivial⟩)
    (.skip (.consume _) fun _ ↦ .ite
      (.pure_bind (hs.skip (alike_greed _) fun _ ↦ .skip (.consume _) fun _ ↦
        .pure ⟨trivial, trivial⟩))
      (.skip (.consume _) fun _ ↦ hs.skip (alike_greed _) fun _ ↦ .skip (.consume _) fun _ ↦
        .pure ⟨trivial, trivial⟩))

theorem shaped_simpleQuantifier : Yields total simpleQuantifier Tree.Shaped := by
  refine .shaped (.skip (.look _) fun first ↦ ?_)
  split
  · exact .skip .advance fun _ ↦ .pure ⟨trivial, trivial⟩
  · exact .skip .advance fun _ ↦ .pure ⟨trivial, trivial⟩
  · exact .skip .advance fun _ ↦ hs.skip (alike_greed _) fun _ ↦ .pure ⟨trivial, trivial⟩
  · exact .skip .advance fun _ ↦ hs.skip (alike_greed _) fun _ ↦ .pure ⟨trivial, trivial⟩
  · exact .skip .advance fun _ ↦ shaped_countFrom hs _
  · exact .skip (.expecting _) fun _ ↦ .fail

theorem shaped_quantifier : Yields total quantifier Tree.Shaped := by
  refine .shaped (.skip (.consume _) fun _ ↦ (shaped_simpleQuantifier hs).series.bind
    fun alternatives h ↦ ?_)
  have hdraft (bounded : Bool) :
      Draft.Shaped ⟨.quantifier bounded, .many alternatives .nil⟩ :=
    ⟨by simpa [Form.Shapes] using h.1, Tree.shaped_many h.2 trivial⟩
  exact .ite (.skip (.expect _) fun _ ↦ .pure (hdraft true)) (.pure (hdraft false))

theorem shaped_quantifier? : Yields total quantifier? fun quantifier? ↦
    ∀ quantifier ∈ quantifier?, quantifier.Shaped :=
  .skip (.checkAny _) fun _ ↦ .ite (shaped_quantifier hs).some (.pure nofun)

/-! ### Elements -/

theorem shaped_edge : Yields total (edge scope) Tree.Shaped := by
  refine .shaped (hs.skip (.oneOf _) fun ends? ↦ ?_)
  cases ends? with
  | some ends => exact .pure ⟨trivial, trivial⟩
  | none =>
    have hconstraint : Yields total (edgeConstraint? scope) fun constraint? ↦
        ∀ constraint ∈ constraint?, constraint.Shaped :=
      .skip (.check _) fun _ ↦ .ite (.pure nofun) (hs.nested (.expression 0)).some
    exact hs.skip (alike_edgeEnd _ _) fun _ ↦ .skip (.expect _) fun _ ↦ hs.skip alike_label? fun _ ↦
      hconstraint.bind fun _ hconstraint ↦ .skip (.expect _) fun _ ↦
        hs.skip (alike_edgeEnd _ _) fun _ ↦
          .pure ⟨trivial, Tree.shaped_optional hconstraint trivial⟩

omit hs in
theorem startsEdge_atEdge {given : Place → Prop} : Ensures total Untraced given atEdge
    fun connected place ↦ given place ∧ place.startsEdge = connected :=
  (Ensures.expecting _).bind fun _ ↦ Ensures.look _

/-- An element without an edge ends where it was begun, and no edge follows. -/
theorem shaped_elementFrom {given : Place → Prop} {source : Phrase .node}
    (hsource : source.Shaped) : Ensures total Untraced given (elementFrom scope source)
      fun element place ↦ element.Shaped ∧
        (element.form = .connection ∨ given place ∧ place.startsEdge = false) := by
  refine .phraseFrom_of_draft _ (startsEdge_atEdge.bind fun connected ↦ ?_)
  cases connected with
  | false => exact .pure fun _ h _ ↦ ⟨⟨trivial, hsource, trivial⟩, .inr h⟩
  | true =>
    refine (Yields.andThen (shaped_edge hs) fun _ hedge ↦ Yields.andThen (hs.nested .node)
      fun _ htarget ↦ .pure fun _ _ _ ↦ ?_).when fun _ _ ↦ trivial
    exact ⟨⟨trivial, hsource, hedge, htarget, trivial⟩, .inl rfl⟩

theorem shaped_element : Yields total (element scope) Tree.Shaped :=
  (hs.nested .node).bind fun _ hsource ↦
    (shaped_elementFrom hs hsource).weaken (fun _ h ↦ h) fun _ _ h ↦ h.1

/-! ### Node statements -/

/-- A node whose edge or comma has been seen begins a fragment. Behind a comma comes a second
element. -/
theorem shaped_fragment {node : Phrase .node} (hnode : node.Shaped) :
    Ensures total Untraced (fun place ↦ place.startsEdge = true ∨ place.kind = .symbol .comma)
      (do
        let first ← elementFrom scope node
        let others ← many (behind (.symbol .comma) (element scope))
        pure ⟨.graphFragment, .many (first :: others) .nil⟩)
      fun draft _ ↦ Draft.Shaped draft ∧ draft.form.isSimple = true := by
  refine (shaped_elementFrom hs hnode).bind fun first ↦ .known (fun _ h ↦ h.1) fun hfirst ↦
    (Ensures.many_led hs.progressive (.behind .element)
      fun _ ↦ .behind_elim (shaped_element hs)).bind fun others ↦ .pure fun place h ↦
        ⟨⟨⟨?_, fun element helement ↦ ?_⟩, Tree.shaped_many ?_ trivial⟩, rfl⟩
  · rw [Tree.filling_many]
    exact List.cons_ne_nil _ _
  · rw [Tree.filling_many, List.cons.injEq] at helement
    obtain ⟨rfl, hnone⟩ := helement
    obtain ⟨⟨-, hform⟩, hcomma⟩ := h.2.resolve_left fun hne ↦ hne hnone
    refine hform.resolve_right fun ⟨hbegun, hedge⟩ ↦ ?_
    exact hcomma (hbegun.resolve_left fun hstarts ↦ Bool.false_ne_true (hedge.symm.trans hstarts))
  · exact List.forall_mem_cons.mpr ⟨hfirst, h.1⟩

theorem shaped_nodes : Yields total (nodes scope) fun draft ↦
    draft.Shaped ∧ draft.form.isSimple = true := by
  refine (hs.nested .node).andThen fun node hnode ↦ startsEdge_atEdge.bind fun connected ↦
    .ite (fun hconnected ↦ .pure_bind ?_) fun _ ↦ (Ensures.check _).bind fun comma ↦ ?_
  all_goals
    refine .ite (fun hfragment ↦ ?_) fun _ ↦ .pure fun _ _ ↦ ⟨⟨trivial, hnode, trivial⟩, rfl⟩
  · exact (shaped_fragment hs hnode).when fun _ h ↦ .inl (h.2.trans hconnected)
  · exact (shaped_fragment hs hnode).when fun _ h ↦ .inr (eq_of_beq (h.2.trans hfragment))

theorem shaped_grouping : Yields total (grouping scope) fun draft ↦
    draft.Shaped ∧ draft.form.isSimple = true := by
  refine (shaped_quantifier? hs).bind fun quantifier? hquantifier ↦ .skip (.expect _) fun _ ↦
    (shaped_nodeStatements hs).bind fun statements h ↦ .skip (.expect _) fun _ ↦
      .pure ⟨⟨?_, Tree.shaped_optional hquantifier (Tree.shaped_many h.2 trivial)⟩, rfl⟩
  simpa [Form.Shapes] using h.1

/-- A sequence takes in whatever goes on behind it. -/
theorem stated_sequence (least : Nat) :
    Ensures total Untraced (fun place ↦ (KindSet.ofKeys arrangements).contains place.kind = true)
      (sequence scope) fun draft place ↦
        ∀ span, Stated least (.phrase draft.form span draft.parts) place := by
  have harrangements : Ensures total Untraced
      (fun place ↦ (KindSet.ofKeys arrangements).contains place.kind = true)
      (many (oneOf arrangements)) fun arrangements _ ↦ arrangements ≠ [] :=
    (Ensures.many_led hs.progressive .arrangement fun _ ↦ .oneOf_elim).weaken (fun _ h ↦ h)
      fun _ _ h ↦ h.2.resolve_right fun h ↦ Bool.false_ne_true (h.2.symm.trans h.1)
  refine harrangements.bind fun arrangements ↦ .known (fun _ h ↦ h) fun hnone ↦
    ((listed_nodeStatements hs).when fun _ _ ↦ trivial).bind fun statements ↦
      .pure fun place h span ↦ ⟨⟨⟨hnone, ?_⟩, Tree.shaped_many h.shaped trivial⟩, fun _ ↦ nofun,
        fun _ ↦ h.ends⟩
  rw [Tree.filling_many]
  exact h.statements

theorem stated_operand (least : Nat) :
    Ensures total Untraced Anywhere (nodeStatementOperand scope) (Stated least) := by
  have hsimple {body : Parser (Draft .nodeStatement)} {given : Place → Prop}
      (h : Yields total body fun draft ↦ draft.Shaped ∧ draft.form.isSimple = true) :
      Ensures total Untraced given body fun draft place ↦
        ∀ span, Stated least (.phrase draft.form span draft.parts) place :=
    Ensures.weaken h (fun _ _ ↦ trivial) fun _ _ h ↦ fun _ ↦ .of_simple h.1 h.2 ..
  refine .phrase_of_draft ((Ensures.checkAny _).bind fun found ↦ .ite (fun hfound ↦ ?_) fun _ ↦
    hsimple (hs.skip alike_atGrouping fun _ ↦ .ite (shaped_grouping hs) (shaped_nodes hs)))
  exact (stated_sequence hs least).when fun _ h ↦ h.2.trans hfound

theorem stated_continuation (least : Nat) (left : Phrase .nodeStatement) :
    Ensures total Untraced (Stated least left) (nodeStatementContinuation scope least left)
      fun next? place ↦ next?.elim (Stated least left place ∧ Exhausted least place)
        (Stated least · place) := by
  refine .ite (fun hleast ↦ .pure fun place h ↦ ⟨h, fun hle ↦ absurd hleast (Nat.not_lt_of_le hle)⟩)
    fun hleast ↦ (Ensures.checkAny _).bind fun found ↦ .ite (fun hfound ↦ ?_) fun hnone ↦
      .pure fun place h ↦ ⟨h.1, fun _ ↦ h.2.trans (Bool.eq_false_iff.mpr hnone)⟩
  -- A left operand that swallows would have taken in this alternative.
  have hknown (place : Place)
      (h : Stated least left place ∧ disjunctionKinds.contains place.kind = found) :
      left.Shaped ∧ ¬ left.Swallows :=
    ⟨h.1.shaped, fun hswallows ↦
      Bool.false_ne_true ((h.1.swallowed hswallows).alternative.symm.trans (h.2.trans hfound))⟩
  refine .known hknown fun hleft ↦ .map (.phraseFrom_of_draft _ ?_)
  refine Ensures.when (Yields.andThen (.elementary .advance) fun _ _ ↦
    (hs.nodeStatement _).bind fun right ↦ .pure fun place h span ↦ ?_) fun _ _ ↦ trivial
  obtain ⟨hright, -⟩ := h
  refine ⟨⟨⟨hleft.2, hright.undivided (Nat.lt_succ_self _)⟩, hleft.1, hright.shaped, trivial⟩,
    fun hlt ↦ absurd hlt hleast, fun hswallows ↦ hright.swallowed ?_⟩
  exact Phrase.swallows_of_isSequence hswallows

theorem stated_nodeStatement (least : Nat) :
    Ensures total Untraced Anywhere (nodeStatement scope least) fun statement place ↦
      Stated least statement place ∧ Exhausted least place :=
  (stated_operand hs least).bind fun first ↦ .iterate_until
    (fun _ _ _ _ ↦ hs.progressive.loops (.nodeStatement least)) (stated_continuation hs least) first

/-! ### Markers -/

omit hs in
/-- A connective joins a marker that binds at least as tightly as it does with one that binds more
tightly. -/
theorem Connective.shaped_draft {connective : Connective} {left right : Phrase .marker}
    (hleft : left.Shaped) (hright : right.Shaped)
    (hleads : ∀ inner, left.form.connective? = some inner → connective.level ≤ inner.level)
    (hbinds : ∀ inner, right.form.connective? = some inner → connective.level < inner.level) :
    Draft.Shaped (connective.draft left right) := by
  cases connective with
  | conjunction =>
    refine ⟨⟨fun hform ↦ ?_, ?_⟩, hleft, hright, trivial⟩
    · exact absurd (hleads .disjunction (congrArg _ hform)) (by decide)
    · refine Option.eq_none_iff_forall_ne_some.mpr fun inner hinner ↦ ?_
      have hlt := hbinds inner hinner
      cases inner <;> exact absurd hlt (by decide)
  | disjunction =>
    refine ⟨fun hform ↦ ?_, hleft, hright, trivial⟩
    exact absurd (hbinds .disjunction (congrArg _ hform)) (by decide)

omit hs in
theorem Connective.connective?_draft (connective : Connective) (left right : Phrase .marker) :
    (connective.draft left right).form.connective? = some connective := by
  cases connective <;> rfl

theorem marked_operand (least : Nat) :
    Ensures total Untraced Anywhere (markerOperand scope) (Marked least) := by
  have hplain (draft : Draft .marker) (place : Place)
      (h : draft.Shaped ∧ draft.form.connective? = none) (span : Span) :
      Marked least (.phrase draft.form span draft.parts) place :=
    ⟨h.1, fun _ hsome ↦ (nomatch h.2.symm.trans hsome),
      fun _ hsome ↦ (nomatch h.2.symm.trans hsome)⟩
  refine .phrase_of_draft (Ensures.weaken (Yields.skip (.consume _) fun _ ↦ .ite ?_
    (.skip (.check _) fun _ ↦ .ite ?_ .failMissing)) (fun _ _ ↦ trivial) hplain)
  · exact (hs.nested (.marker 0)).bind fun _ hinner ↦ .skip (.expect _) fun _ ↦
      .pure ⟨⟨trivial, hinner, trivial⟩, rfl⟩
  · exact .skip .advance fun _ ↦ hs.skip alike_markerArguments fun _ ↦
      .pure ⟨⟨trivial, trivial⟩, rfl⟩

theorem marked_continuation (least : Nat) (left : Phrase .marker) :
    Ensures total Untraced (Marked least left) (markerContinuation scope least left)
      fun next? place ↦ next?.elim (Marked least left place ∧ Connective.EndsAt least place)
        (Marked least · place) := by
  refine (Ensures.look _).bind fun kind ↦ ?_
  cases hconnective : Connective.ofKind? kind with
  | none =>
    refine .pure fun place h ↦ ⟨h.1, fun next hnext ↦ ?_⟩
    rw [h.2, hconnective] at hnext
    cases hnext
  | some connective =>
    refine .ite (fun hlt ↦ .pure fun place h ↦ ⟨h.1, fun next hnext ↦ ?_⟩) fun hle ↦ ?_
    · rw [h.2, hconnective] at hnext
      cases hnext
      exact hlt
    · -- The connective has been left by the right operand of the one before, so it binds no more
      -- tightly than that.
      have hknown (place : Place) (h : Marked least left place ∧ place.kind = kind) :
          left.Shaped ∧ ∀ inner, left.form.connective? = some inner →
            connective.level ≤ inner.level :=
        ⟨h.1.shaped, fun inner hinner ↦ h.1.leaves inner hinner connective (h.2 ▸ hconnective)⟩
      refine .known hknown fun hleft ↦ .map (.phraseFrom_of_draft _ ?_)
      refine Ensures.when (Yields.andThen (.elementary .advance) fun _ _ ↦
        (hs.marker _).bind fun right ↦ .pure fun place h span ↦ ?_) fun _ _ ↦ trivial
      obtain ⟨hright, hends⟩ := h
      refine ⟨Connective.shaped_draft hleft.1 hright.shaped hleft.2 hright.binds,
        fun inner hinner ↦ ?_, fun inner hinner next hnext ↦ ?_⟩
      all_goals
        obtain rfl : connective = inner :=
          Option.some.inj ((connective.connective?_draft left right).symm.trans hinner)
      · exact Nat.le_of_not_lt hle
      · exact Nat.le_of_lt_succ (hends next hnext)

theorem marked_marker (least : Nat) :
    Ensures total Untraced Anywhere (marker scope least) fun marker place ↦
      Marked least marker place ∧ Connective.EndsAt least place :=
  (marked_operand hs least).bind fun first ↦ .iterate_until
    (fun _ _ _ _ ↦ hs.progressive.loops (.marker least)) (marked_continuation hs least) first

end Grammar

end CorpusQuery
