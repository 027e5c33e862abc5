import CorpusQuery.Proofs.Acceptance.HonestNode

/-!
Node statements are honest. The question for a group is answered differently in the two parses if
the brace that it asks for is at the fork in one of them; the group is then read again, and it
crosses with the brace.
-/

set_option autoImplicit false
set_option relaxedAutoImplicit false

namespace CorpusQuery

open CorpusQuery.Parser CorpusQuery.Grammar CorpusQuery.Fork

namespace Grammar

variable {fork : Fork} {scope : Scope} {stray : Stray} {given : Place → Prop}

/-! ### Fragments -/

section Fragments

theorem honest_nodeStatements (hs : fork.Scopes scope) :
    Honest fork stray given unseen (nodeStatements scope) (nodeStatements scope) := by
  have hcrosses {verge : Verge} (hv : verge.Scopes scope)
      (h : nodeStatementStart.contains verge.kind = true) :
      verge.Crosses (some <$> scope.nodeStatement 0) := (hv.nodeStatement h 0).map
  have hitem : Honest fork Never Parser.Anywhere (Option.map unseen)
      (checkAny nodeStatementStart >>= fun found ↦
        if found then some <$> scope.nodeStatement 0 else pure none)
      (checkAny nodeStatementStart >>= fun found ↦
        if found then some <$> scope.nodeStatement 0 else pure none) :=
    .checkAny_cross (hcrosses hs.left) (hcrosses hs.right)
      ((hs.rule (.nodeStatement 0) rfl).map fun _ _ _ ↦ rfl) (.pure rfl)
  exact (hs.rule (.nodeStatement 0) rfl).bind fun _ _ _ ↦ (Honest.many hitem).finish fun _ _ _ ↦ rfl

/-- A fragment that begins with a node, or the node alone. -/
def fragment (scope : Scope) (node : Phrase .node) (isFragment : Bool) :
    Parser (Draft .nodeStatement) :=
  if isFragment then do
    let first ← elementFrom scope node
    let others ← many (behind (.symbol .comma) (element scope))
    pure ⟨.graphFragment, .many (first :: others) .nil⟩
  else
    pure ⟨.singleNode, .one node .nil⟩

theorem honest_fragment (hs : fork.Scopes scope) (node node' : Phrase .node) (isFragment : Bool) :
    Honest fork stray given unseen (fragment scope node isFragment)
      (fragment scope node' isFragment) := by
  have hothers : Honest fork Never Parser.Anywhere (Option.map unseen)
      (behind (.symbol .comma) (element scope)) (behind (.symbol .comma) (element scope)) :=
    Honest.behind (by nofun) (honest_element hs)
  refine .ite ((honest_elementFrom hs node node').bind fun _ _ _ ↦ ?_) (.pure rfl)
  exact (Honest.many hothers).bind fun _ _ _ ↦ .pure rfl

theorem honest_nodesBehind (hs : fork.Scopes scope) (node node' : Phrase .node) :
    Honest fork stray given unseen (nodesBehind scope node) (nodesBehind scope node') := by
  have hescapes {verge : Verge} (hv : verge.Scopes scope) (node : Phrase .node) (session : Session)
      (h : verge.Connects session.cursor.toPlace) :
      verge.coupling.Escapes (fragment scope node true session) :=
    (h.escapes_elementFrom hv node).bind fun _ ↦ hv.alike
      (.bind (.many (.behind .element) (.behind _ (.bind (.nested _) fun source ↦
        alike_elementFrom source))) fun _ ↦ .pure _)
  have hcomma (kind : Kind) (h : (KindSet.single (.symbol .comma)).contains kind = true) :
      kind = .symbol .comma := by
    rwa [KindSet.contains_single, decide_eq_true_eq] at h
  refine .gate (fun h ↦ Verge.crosses_nodesBehind hs.left (hcomma _ h) node)
    (fun h ↦ Verge.crosses_nodesBehind hs.right (hcomma _ h) node')
    (honest_atEdge_then (hescapes hs.left node) (hescapes hs.right node')
      (honest_fragment hs node node' true) ?_)
  exact .check_then (fun _ h ↦ h.2) (honest_fragment hs node node' true)
    (honest_fragment hs node node' false)

theorem honest_nodes (hs : fork.Scopes scope) :
    Honest fork stray given unseen (nodes scope) (nodes scope) :=
  (hs.rule .node rfl).bind fun node node' _ ↦ honest_nodesBehind hs node node'

end Fragments

/-! ### Groups -/

section Groups

theorem honest_groupBody (hs : fork.Scopes scope)
    (quantifier quantifier' : Option (Phrase .quantifier)) :
    Honest fork stray given unseen (groupBody scope quantifier) (groupBody scope quantifier') :=
  (Honest.expect (by nofun)).bind fun _ _ _ ↦ (honest_nodeStatements hs).bind fun _ _ _ ↦
    (Honest.expect (by nofun)).bind fun _ _ _ ↦ .pure rfl

theorem honest_grouping (hs : fork.Scopes scope) :
    Honest fork stray given unseen (grouping scope) (grouping scope) :=
  (honest_quantifier? hs).bind fun _ _ _ ↦ honest_groupBody hs _ _

/-- At the fork only one of the lists may have the brace that is asked for. -/
theorem honest_groupQuestion (hs : fork.Scopes scope)
    (hample : ∀ place, given place → fork.Ample 1 place) :
    Honest fork (fork.Reaches (.single (.symbol .leftBrace))) given id groupQuestion
      groupQuestion := by
  refine (honest_quantifier hs hample).bind fun _ _ _ ↦ ⟨.of_elementary fork.left.lawful (.look _),
    .of_elementary fork.right.lawful (.look _), fun session copy hsessions _ ↦ ?_⟩
  change fork.Ends _ id (.ok (session.cursor.kind == .symbol .leftBrace) session)
    (.ok (copy.cursor.kind == .symbol .leftBrace) copy)
  rcases hsessions.eq_or_ample with heq | hample
  · have hleft := hsessions.at_left heq
    have hright := hsessions.at_right heq
    rw [show session.cursor.kind = fork.left.kind from hleft.kind_eq,
      show copy.cursor.kind = fork.right.kind from hright.kind_eq]
    by_cases hkind : fork.left.kind = .symbol .leftBrace
    · exact .stray (.left hleft (by rw [hkind]; rfl))
    by_cases hkind' : fork.right.kind = .symbol .leftBrace
    · exact .stray (.right hright (by rw [hkind']; rfl))
    · rw [beq_false_of_ne hkind, beq_false_of_ne hkind']
      exact .ok rfl hsessions
  · rw [hsessions.kind_eq hample]
    exact .ok rfl hsessions

/-- A group whose brace is at the verge crosses it. -/
theorem escapes_grouped {verge : Verge} (hv : verge.Scopes scope) {session after : Session}
    {answer : Bool} (hbegins : verge.start.Begins session.cursor.toPlace)
    (hkind : quantifierStart.contains session.cursor.kind = true)
    (hrun : groupQuestion session = .ok answer after) (hat : verge.At after.cursor.toPlace)
    (hbrace : (KindSet.single (.symbol .leftBrace)).contains verge.kind = true) :
    verge.coupling.Escapes ((lookahead groupQuestion >>= groupedOrNot scope) session) := by
  rw [KindSet.contains_single, decide_eq_true_eq] at hbrace
  obtain ⟨value, between, hquantifier, hlook⟩ := bind_eq_ok hrun
  obtain ⟨rfl, rfl⟩ : (between.cursor.kind == .symbol .leftBrace) = answer ∧ between = after := by
    cases hlook
    exact ⟨rfl, rfl⟩
  rw [bind_of_ok (lookahead_of_ok hrun), show between.cursor.kind = _ from hat.kind_eq, hbrace]
  have hfound : checkAny quantifierStart (answered session between) =
      .ok true ((answered session between).tested quantifierStart) := by
    rw [← hkind]
    rfl
  have hback : ((answered session between).tested quantifierStart).cursor.toPlace =
      session.cursor.toPlace := rfl
  rcases Grammar.quantifier_reread verge.closed hbegins hback with
    ⟨first, last, again, last', hfirst, hagain, hplace⟩ | ⟨failure, last, -, -, hfirst, -⟩
  · obtain ⟨rfl, rfl⟩ : first = value ∧ last = between := by
      rw [hquantifier] at hfirst
      cases hfirst
      exact ⟨rfl, rfl⟩
    change verge.coupling.Escapes ((quantifier? >>= groupBody scope) (answered session last))
    have hread : quantifier? (answered session last) = .ok (some again) last' := by
      rw [quantifier?, bind_of_ok hfound, if_pos rfl, map_eq_pure_bind, bind_of_ok hagain]
      rfl
    rw [bind_of_ok hread]
    exact ((Verge.Crosses.expect hbrace (by decide)).bind fun _ ↦ hv.alike
      (.bind alike_nodeStatements fun _ ↦ .bind (.elementary (.expect _)) fun _ ↦ .pure _)) last'
        (hplace.symm ▸ hat)
  · rw [hquantifier] at hfirst
    cases hfirst

theorem honest_grouped (hs : fork.Scopes scope)
    (hample : ∀ place, given place → fork.Ample 1 place)
    (hkind : ∀ place, given place → quantifierStart.contains place.kind = true) :
    Honest fork stray given unseen (lookahead groupQuestion >>= groupedOrNot scope)
      (lookahead groupQuestion >>= groupedOrNot scope) := by
  have hkind' {session copy : Session} (hsessions : fork.Sessions session copy)
      (h : given session.cursor.toPlace) : quantifierStart.contains copy.cursor.kind = true := by
    rw [hsessions.kind_eq (hample _ h)]
    exact hkind _ h
  refine .lookahead_then (honest_groupQuestion hs hample)
    (fun answer ↦ .ite (honest_grouping hs) (honest_nodes hs))
    (fun session _ hsessions h ↦ hs.left.grouping session hsessions.begins (hkind _ h))
    (fun _ copy hsessions h ↦ hs.right.grouping copy hsessions.begins_copy (hkind' hsessions h))
    fun session copy hsessions h hstray ↦ ?_
  rcases hstray.cases with ⟨answer, after, hrun, hat, hbrace⟩ | ⟨answer, after, hrun, hat, hbrace⟩
  · exact .left (escapes_grouped hs.left hsessions.begins (hkind _ h) hrun hat hbrace)
  · exact .right
      (escapes_grouped hs.right hsessions.begins_copy (hkind' hsessions h) hrun hat hbrace)

end Groups

/-! ### Statements -/

section Statements

theorem honest_sequence (hs : fork.Scopes scope) :
    Honest fork stray given unseen (sequence scope) (sequence scope) := by
  have harrangement : Honest fork Never Parser.Anywhere (Option.map unseen) (oneOf arrangements)
      (oneOf arrangements) := .oneOf rfl
  exact (Honest.many harrangement).bind fun _ _ _ ↦
    (honest_nodeStatements hs).bind fun _ _ _ ↦ .pure rfl

theorem honest_nodeStatementOperand (hs : fork.Scopes scope) :
    Honest fork stray given unseen (nodeStatementOperand scope) (nodeStatementOperand scope) := by
  refine .phrase_blind (.checkAny_cross (Verge.crosses_sequence hs.left)
    (Verge.crosses_sequence hs.right) (honest_sequence hs) ?_)
  change Honest _ _ _ _ (atGrouping >>= groupedOrNot scope) (atGrouping >>= groupedOrNot scope)
  rw [atGrouping_bind]
  refine .check_cross (fun h ↦ Verge.crosses_grouping hs.left (.inl h))
    (fun h ↦ Verge.crosses_grouping hs.right (.inl h)) (honest_grouping hs)
    (.checkAny_cross (Verge.crosses_grouped hs.left) (Verge.crosses_grouped hs.right) ?_
      (honest_nodes hs))
  exact honest_grouped hs (fun _ h ↦ h.2.1) fun _ h ↦ h.2.2

theorem honest_nodeStatementContinuation (hs : fork.Scopes scope) (least : Nat)
    (left left' : Phrase .nodeStatement) :
    Honest fork stray given (Option.map unseen) (nodeStatementContinuation scope least left)
      (nodeStatementContinuation scope least left') := by
  have hcrosses {verge : Verge} (hv : verge.Scopes scope) (left : Phrase .nodeStatement)
      (h : disjunctionKinds.contains verge.kind = true) :
      verge.Crosses (some <$> phraseFrom left.span.start (advance >>= fun _ ↦
        scope.nodeStatement (nodeDisjunctionLevel + 1) >>= fun right ↦
          (pure ⟨.nodeDisjunction, .one left (.one right .nil)⟩ :
            Parser (Draft .nodeStatement)))) := by
    refine ((Verge.Crosses.advance fun hend ↦ ?_).bind fun _ ↦
      hv.alike (.bind (.nested (.nodeStatement _)) fun _ ↦ .pure _)).phraseFrom.map
    rw [hend] at h
    cases h
  refine .ite (.pure rfl) (.checkAny_cross (hcrosses hs.left left) (hcrosses hs.right left')
    (.map (.phraseFrom_blind (.pass_one (fun _ h ↦ h.2.1) fun _ ↦ ?_)) fun _ _ _ ↦ rfl) (.pure rfl))
  exact (hs.rule (.nodeStatement _) rfl).bind fun _ _ _ ↦ .pure rfl

theorem honest_nodeStatement (hs : fork.Scopes scope) (least : Nat) :
    Honest fork stray given unseen (nodeStatement scope least) (nodeStatement scope least) :=
  (honest_nodeStatementOperand hs).bind fun _ _ _ ↦
    .iterate (fun left left' _ ↦ honest_nodeStatementContinuation hs least left left') rfl

/-- A limit of the hits by whether a count of them is at hand. -/
def countedHits (isCount isLimit : Bool) : Parser (Option (Phrase .hitsLimit)) :=
  if isCount && isLimit then
    some <$> phrase do
      let limit ← advance
      let _ ← advance
      pure ⟨.hits limit.text, .nil⟩
  else
    pure none

theorem honest_hitsLimit? (hclear : ∀ place, given place → fork.Clear structuralStart place) :
    Honest fork stray given unseen hitsLimit? hitsLimit? := by
  have hsubset {kind : Kind} (hkind : structuralStart.contains kind = true) (place : Place)
      (h : given place) : fork.Clear (.single kind) place :=
    (hclear place h).mono fun other hother ↦ by
      rw [KindSet.contains_single, decide_eq_true_eq] at hother
      rw [hother, hkind]
  have hescapes {verge : Verge} (session : Session)
      (hbegins : verge.start.Begins session.cursor.toPlace)
      (hlt : verge.index < session.cursor.position + 2)
      (hkind : session.cursor.kind = .pureDigits)
      (h : session.cursor.peekKind 1 = .keyword .hits) :
      verge.coupling.Escapes (countedHits true true session) := by
    have hbody : verge.coupling.Escapes ((advance >>= fun limit ↦ advance >>= fun _ ↦
        (pure ⟨.hits limit.text, .nil⟩ : Parser (Draft .hitsLimit))) session) :=
      (Verge.Nears.of_two hbegins hlt (hkind ▸ nofun) (h ▸ nofun)).escapes_advance
        fun _ _ hnears ↦ hnears.escapes_advance fun _ _ hnears ↦ .inr hnears.past
    exact hbody.phraseFrom.map
  refine .check_then (hsubset rfl) ?_ (.check_then (hsubset rfl) (.look_then 2 (· = true)
    peekKind_one_beq_of_peek ?_ ?_ (fun isLimit ↦ ?_) ?_) (.look_any fun _ _ ↦ .pure rfl))
  · exact .map (.phrase_blind (.pass_one (fun _ h ↦ h.2.1) fun _ ↦ .pure rfl)) fun _ _ _ ↦ rfl
  · intro session copy hsessions h hlt hhits
    rw [hhits]
    exact hescapes session hsessions.begins hlt (by simpa using h.2.2) (beq_iff_eq.mp hhits)
  · intro session copy hsessions h hlt hhits
    rw [hhits]
    refine hescapes copy hsessions.begins_copy hlt ?_ (beq_iff_eq.mp hhits)
    rw [hsessions.kind_eq h.2.1]
    simpa using h.2.2
  · cases isLimit with
    | false => exact .pure rfl
    | true =>
      exact .map (.phrase_blind (.pass (fun _ h ↦ h.2.1) fun _ ↦ .pass (fun _ h ↦ h) fun _ ↦
        .pure rfl)) fun _ _ _ ↦ rfl
  · intro isLimit isLimit' h h'
    rw [Bool.not_eq_true] at h h'
    subst h h'
    exact .pure rfl

theorem honest_structuralConstraint (hs : fork.Scopes scope) :
    Honest fork stray given unseen (structuralConstraint scope) (structuralConstraint scope) := by
  have hflag : Honest fork Never Parser.Anywhere (Option.map unseen) (oneOf matchFlags)
      (oneOf matchFlags) := .oneOf rfl
  refine .gate (Verge.crosses_structuralConstraint hs.left)
    (Verge.crosses_structuralConstraint hs.right) (.phrase_blind ?_)
  exact (honest_hitsLimit? fun _ h ↦ h.2).bind fun _ _ _ ↦ (Honest.many hflag).bind fun _ _ _ ↦
    (honest_nodeStatements hs).bind fun _ _ _ ↦ .pure rfl

end Statements

end Grammar

end CorpusQuery
