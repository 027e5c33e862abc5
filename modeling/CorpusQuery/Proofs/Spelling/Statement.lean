import CorpusQuery.Proofs.Spelling.Node

/-!
Node statements and structural constraints in a copy. Before the first bracket their wordings are
`Open`, and the question whether a group follows has the answer in a copy that it has in the tokens
(`Grammar.mirrors_atGrouping`).
-/

set_option autoImplicit false
set_option relaxedAutoImplicit false

namespace CorpusQuery

open CorpusQuery.Parser

namespace Grammar

variable {scope : Scope} {session : Session}

theorem mirrors_nodeStatement? (hs : scope.Mirroring) :
    Mirrors session Plain Plain [] (Option.map Tree.bare) (nodeStatement? scope)
      (nodeStatement? scope) fun statement? ↦ statement?.elim [] Phrase.wordings := by
  refine .checkAny (by decide) (fun _ ↦ id) ?_
  split
  · exact ((hs.nodeStatement 0 _).weaken (fun _ h ↦ h.toPlain) fun _ ↦ id).map (fun _ ↦ rfl)
      fun _ _ hview ↦ congrArg some hview
  · exact .done rfl rfl

theorem mirrors_nodeStatements (hs : scope.Mirroring) :
    Mirrors session Open Plain [] (List.map Tree.bare) (nodeStatements scope)
      (nodeStatements scope) (List.flatMap Phrase.wordings) := by
  refine (hs.nodeStatement 0 _).bind fun first first' _ hfirst ↦ ?_
  refine (Mirrors.many hs.progressive .nodeStatement fun _ ↦ mirrors_nodeStatement? hs).bind
    fun others others' _ hothers ↦ .done ?_ ?_
  · simp
  · simp [hfirst, hothers]

/-! ### Groups -/

/-- The question whether a group follows, and what is read in either case. -/
theorem mirrors_atGrouping {α δ : Type} {sofar : List Wording} {view : α → δ}
    {wordings : α → List Wording} {after : List Wording → Prop} {next next' : Bool → Parser α}
    (h : ∀ answer asked, Mirrors asked (Grouped answer asked) after sofar view (next answer)
      (next' answer) wordings) :
    Mirrors session Open after sofar view (atGrouping >>= next) (atGrouping >>= next')
      wordings := by
  obtain ⟨answer, asked, hrun, hstill⟩ := atGrouping_still session
  have hasked : Mirrors session (Grouped answer session) after sofar view (atGrouping >>= next)
      (atGrouping >>= next') wordings := by
    refine .inquire Eq hrun hstill rfl (fun copy later _ _ hgrouped hready ↦ ?_) ?_
    · obtain ⟨asked', hrun', hstill'⟩ := hgrouped.answers copy hready
      exact ⟨answer, asked', hrun', hstill', rfl⟩
    · rintro _ rfl
      exact (h answer asked).weaken (fun _ ↦ .of_still hstill) fun _ ↦ id
  exact hasked.weaken (fun _ hgrouped ↦ hgrouped.toOpen) fun _ ↦ id

theorem mirrors_grouping (hs : scope.Mirroring) :
    Mirrors session (Grouped true session) Plain [] Draft.bare (grouping scope) (grouping scope)
      Draft.wordings := by
  have hquantifier : Mirrors session (Grouped true session)
      (fun later ↦ Counted later ∧ later.head? = some (.sign .leftBrace)) [] (Option.map Tree.bare)
      quantifier? quantifier? fun quantifier? ↦ quantifier?.elim [] Phrase.wordings :=
    mirrors_quantifier?_of_bracket hs.progressive rfl
  have hopening (session : Session) : Mirrors session
      (fun later ↦ Counted later ∧ later.head? = some (.sign .leftBrace)) Open [] (fun _ ↦ ())
      (expect (.symbol .leftBrace)) (expect (.symbol .leftBrace)) fun _ ↦ [.sign .leftBrace] :=
    .expect_mark nofun rfl fun _ h ↦ ⟨.opener h rfl, rfl⟩
  refine hquantifier.bind fun _ _ _ hquantifier ↦ (hopening _).bind fun _ _ _ _ ↦ ?_
  refine (mirrors_nodeStatements hs).bind fun _ _ _ hstatements ↦ ?_
  refine (Mirrors.plain_expect rfl).bind fun _ _ _ _ ↦ .done ?_ ?_
  · simp [Draft.wordings, Form.layout, Wording.sign, listed_nil]
  · simp [Draft.bare, hquantifier, hstatements]

/-! ### Sequences -/

/-- An entry of a table of words that may stand before the first bracket. -/
theorem mirrors_openers {β : Type} {table : List (Kind × β)} {write : β → Wording}
    (htable : Mirrors.Writes table write) (hopeners : ∀ row ∈ table, row.1.isOpener = true) :
    Mirrors session Open Open [] (Option.map id) (oneOf table) (oneOf table)
      fun value? ↦ value?.elim [] fun value ↦ [write value] := by
  refine (Mirrors.oneOf htable (fun _ h ↦ h.toSettled) (fun row hrow later h ↦ ?_)
    fun _ ↦ id).see (fun value? ↦ by cases value? <;> rfl) fun _ _ hview ↦ congrArg _ hview
  rw [(htable row hrow).1]
  exact h.opener (hopeners row hrow)

/-- Words of a table before the first bracket. -/
theorem mirrors_words (hscope : scope.Progressive) {β : Type} {table : List (Kind × β)}
    {write : β → Wording} (hrepeated : Repeated scope (oneOf table))
    (htable : Mirrors.Writes table write) (hopeners : ∀ row ∈ table, row.1.isOpener = true) :
    Mirrors session Open Open [] id (many (oneOf table)) (many (oneOf table))
      (List.map write) := by
  refine (Mirrors.many hscope hrepeated fun _ ↦ mirrors_openers htable hopeners).see
    (fun values ↦ ?_) fun _ _ hview ↦ by simpa using hview
  induction values with
  | nil => rfl
  | cons value values ih => exact congrArg (List.cons _) ih

theorem mirrors_arrangements (hscope : scope.Progressive) :
    Mirrors session Open Open [] id (many (oneOf arrangements)) (many (oneOf arrangements))
      (List.map Arrangement.wording) := by
  refine mirrors_words hscope .arrangement ?_ (by decide)
  unfold Mirrors.Writes arrangements
  decide

theorem mirrors_sequence (hs : scope.Mirroring) :
    Mirrors session Open Plain [] Draft.bare (sequence scope) (sequence scope)
      Draft.wordings := by
  refine (mirrors_arrangements hs.progressive).bind_same fun arrangements _ ↦ ?_
  refine (mirrors_nodeStatements hs).bind fun _ _ _ hstatements ↦ .done ?_ ?_
  · simp [Draft.wordings, Form.layout, listed_nil]
  · simp [Draft.bare, hstatements]

/-! ### Nodes -/

/-- The elements of a graph fragment, from the first edge or comma on. -/
theorem mirrors_elements (hs : scope.Mirroring) {before : List Wording → Prop}
    {source source' : Phrase .node}
    (h : Mirrors session before Plain source.wordings Tree.bare (elementFrom scope source)
      (elementFrom scope source') Phrase.wordings) :
    Mirrors session before Plain source.wordings Draft.bare
      (do
        let first ← elementFrom scope source
        let others ← many (behind (.symbol .comma) (element scope))
        pure ⟨.graphFragment, .many (first :: others) .nil⟩)
      (do
        let first ← elementFrom scope source'
        let others ← many (behind (.symbol .comma) (element scope))
        pure ⟨.graphFragment, .many (first :: others) .nil⟩) Draft.wordings := by
  refine .bind_onto (List.nil_append source.wordings).symm h fun _ _ _ _ hfirst ↦ ?_
  refine (Mirrors.many hs.progressive (.behind .element) fun _ ↦
    .plain_behind rfl fun _ ↦ mirrors_element hs).bind fun others others' _ hothers ↦ .done ?_ ?_
  · simp [Draft.wordings, Form.layout, listed, Wording.sign]
  · simp [Draft.bare, hfirst, hothers]

theorem mirrors_nodes (hs : scope.Mirroring) :
    Mirrors session (Grouped false session) Plain [] Draft.bare (nodes scope) (nodes scope)
      Draft.wordings := by
  refine (hs.node session).bind fun node node' last hnode ↦ mirrors_atEdge (fun hedge ↦ ?_) ?_
  · exact mirrors_elements hs (mirrors_elementFrom_of_edge hs hnode hedge)
  · refine .plain_check rfl (fun _ ↦ ?_) (.done ?_ ?_)
    · exact mirrors_elements hs (mirrors_elementFrom hs hnode)
    · simp [Draft.wordings, Form.layout]
    · simp [Draft.bare, Tree.bare, hnode]

/-! ### Statements -/

theorem mirrors_nodeStatementOperand (hs : scope.Mirroring) :
    Mirrors session Open Plain [] Tree.bare (nodeStatementOperand scope)
      (nodeStatementOperand scope) Phrase.wordings := by
  refine .phrase (.checkAny (by decide) (fun _ h ↦ h.toPlain) ?_)
  split
  · exact mirrors_sequence hs
  · refine mirrors_atGrouping fun answer asked ↦ ?_
    cases answer with
    | true => exact mirrors_grouping hs
    | false => exact mirrors_nodes hs

theorem mirrors_nodeStatementContinuation (hs : scope.Mirroring) (least : Nat)
    {left left' : Phrase .nodeStatement} (hleft : left.bare = left'.bare) :
    Mirrors session Plain Plain left.wordings (Option.map Tree.bare)
      (nodeStatementContinuation scope least left) (nodeStatementContinuation scope least left')
      fun next? ↦ Phrase.wordings (next?.getD left) := by
  unfold nodeStatementContinuation
  by_cases hlevel : nodeDisjunctionLevel < least
  · rw [if_pos hlevel, if_pos hlevel]
    exact .done rfl rfl
  rw [if_neg hlevel, if_neg hlevel]
  refine .checkAny (by decide) (fun _ ↦ id) ?_
  cases hfound : disjunctionKinds.contains session.cursor.kind with
  | false => exact .done rfl rfl
  | true =>
    have hkind : session.cursor.kind = .keyword .or ∨
        session.cursor.kind = .symbol .doublePipe := by
      rw [disjunctionKinds, KindSet.contains_ofList] at hfound
      simpa using hfound
    have hend : session.cursor.kind ≠ .endOfInput := by
      rcases hkind with heq | heq <;> rw [heq] <;> nofun
    have hjoin : Mirrors (session.tested disjunctionKinds) Plain Open [] (fun _ ↦ ()) advance
        advance fun _ ↦ [.choice .disjunction] :=
      .advance (Wording.says_choice hkind) hend fun _ h ↦ .cons h.toSettled rfl nofun nofun
    refine (Mirrors.phraseFrom (hjoin.bind fun _ _ _ _ ↦ ?_)).map (fun _ ↦ rfl)
      fun _ _ hview ↦ congrArg some hview
    refine (hs.nodeStatement _ _).bind fun _ _ _ hright ↦ .done ?_ ?_
    · simp [Draft.wordings, Form.layout]
    · simp [Draft.bare, Tree.bare, hleft, hright]

theorem mirrors_nodeStatement (hs : scope.Mirroring) (least : Nat) :
    Mirrors session Open Plain [] Tree.bare (nodeStatement scope least)
      (nodeStatement scope least) Phrase.wordings := by
  refine (mirrors_nodeStatementOperand hs).bind fun first first' _ hfirst ↦ ?_
  exact .iterate Tree.bare Phrase.wordings (hs.progressive.loops (.nodeStatement least))
    (fun _ _ _ hleft ↦ mirrors_nodeStatementContinuation hs least hleft) hfirst

/-! ### Structural constraints -/

theorem mirrors_hitsLimit? :
    Mirrors session Open Open [] (Option.map Tree.bare) hitsLimit? hitsLimit?
      fun limit? ↦ limit?.elim [] Phrase.wordings := by
  refine .check rfl (fun _ h ↦ h.toSettled) ?_
  cases hfirst : session.cursor.kind == .keyword .first with
  | true =>
    have hword : Mirrors (session.tested (.single (.keyword .first))) Open Open [] (fun _ ↦ ())
        advance advance fun _ ↦ [.word .first] :=
      .advance_mark (beq_iff_eq.mp hfirst) nofun rfl fun _ h ↦ h.opener rfl
    exact (Mirrors.phrase (hword.bind fun _ _ _ _ ↦ .done rfl rfl)).map (fun _ ↦ rfl)
      fun _ _ hview ↦ congrArg some hview
  | false =>
    refine .check_two rfl rfl nofun nofun (fun _ h ↦ h.toSettled) (fun hcount hlimit ↦ ?_)
      (.done rfl rfl)
    refine (Mirrors.phrase ?_).map (fun _ ↦ rfl) fun _ _ hview ↦ congrArg some hview
    generalize htested : (session.tested (.single (.keyword .first))).tested
      (.single .pureDigits) = tested
    have hdigits : tested.cursor.kind = .pureDigits := htested ▸ hcount
    have hnext : tested.passed.cursor.kind = .keyword .hits :=
      (Session.kind_passed _).trans (htested ▸ hlimit)
    refine (Mirrors.advance_digits hdigits).bind_of_run fun limit limit' _ hrun hlimit' ↦ ?_
    cases hrun
    have hhits {session : Session} (h : session.cursor.kind = .keyword .hits) :
        Mirrors session Counted Open [] (fun _ ↦ ()) advance advance fun _ ↦ [.word .hits] :=
      .advance_mark h nofun rfl fun _ h ↦ .opener h rfl
    refine (hhits hnext).bind fun _ _ _ _ ↦ .done rfl ?_
    rw [← hlimit']

theorem mirrors_structuralConstraint (hs : scope.Mirroring) :
    Mirrors session Open Plain [] Tree.bare (structuralConstraint scope)
      (structuralConstraint scope) Phrase.wordings := by
  have hflags (session : Session) : Mirrors session Open Open [] id (many (oneOf matchFlags))
      (many (oneOf matchFlags)) (List.map MatchFlag.wording) := by
    refine mirrors_words hs.progressive .matchFlag ?_ (by decide)
    unfold Mirrors.Writes matchFlags
    decide
  refine .phrase (mirrors_hitsLimit?.bind fun _ _ _ hlimit ↦ (hflags _).bind_same fun flags _ ↦ ?_)
  refine (mirrors_nodeStatements hs).bind fun _ _ _ hstatements ↦ .done ?_ ?_
  · simp [Draft.wordings, Form.layout, listed_nil]
  · simp [Draft.bare, hlimit, hstatements]

end Grammar

end CorpusQuery
