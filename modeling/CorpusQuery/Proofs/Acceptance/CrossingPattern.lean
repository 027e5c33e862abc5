import CorpusQuery.Proofs.Acceptance.Crossing

/-!
Patterns that cross the verge: quantifiers, edges, nodes and their statements. Each of them crosses
it with every kind that it begins with, whichever of its alternatives that kind leads into. With
them all rules of the grammar do, under every limit (`Verge.scopes_inside`).
-/

set_option autoImplicit false
set_option relaxedAutoImplicit false

namespace CorpusQuery

open CorpusQuery.Parser CorpusQuery.Grammar

namespace Verge

variable {verge : Verge} {scope : Scope} (hs : verge.Scopes scope)

/-! ### Quantifiers -/

section Quantifiers

include hs

theorem crosses_simpleQuantifier (h : quantifierStart.contains verge.kind = true)
    (hless : verge.kind ≠ .symbol .less) : verge.Crosses simpleQuantifier := by
  have hadvance : verge.Crosses advance := .advance fun hend ↦ by
    rw [hend] at h
    cases h
  refine .phrase (.look fun place hat ↦ ?_)
  have hkind : place.here.kind = verge.kind := hat.kind_eq
  rw [← hkind] at h hless
  generalize place.here = first at h hless
  split
  · exact hadvance.bind fun _ ↦ .pure _
  · exact hadvance.bind fun _ ↦ .pure _
  · exact hadvance.bind fun _ ↦ hs.alike (.bind (alike_greed _) fun _ ↦ .pure _)
  · exact hadvance.bind fun _ ↦ hs.alike (.bind (alike_greed _) fun _ ↦ .pure _)
  · exact hadvance.bind fun _ ↦ hs.alike (alike_countFrom _)
  · rw [quantifierStart, KindSet.contains_ofList] at h
    simp_all

theorem crosses_quantifier (h : quantifierStart.contains verge.kind = true) :
    verge.Crosses quantifier := by
  have haloof : Aloof verge.coupling simpleQuantifier := hs.alike alike_simpleQuantifier
  have hbehind (bounded : Bool) (alternatives : List (Phrase .simpleQuantifier)) :
      Alike scope scope (if bounded = true then do
          let _ ← expect (.symbol .greater)
          pure (⟨.quantifier true, .many alternatives .nil⟩ : Draft .quantifier)
        else pure ⟨.quantifier false, .many alternatives .nil⟩) _ :=
    .ite (.bind (.elementary (.expect _)) fun _ ↦ .pure _) (.pure _)
  refine .phrase ?_
  by_cases hless : verge.kind = .symbol .less
  · exact (Crosses.consume hless nofun).bind fun bounded ↦ hs.alike
      (.bind (.separatedBy .simpleQuantifier alike_simpleQuantifier) fun _ ↦ hbehind bounded _)
  · refine .behind_here (fun place hat ↦ .consume_none (hat.kind_eq ▸ hless))
      (((crosses_simpleQuantifier hs h hless).separatedBy haloof).bind
        fun _ ↦ hs.alike (hbehind false _))

theorem crosses_quantifier? (h : quantifierStart.contains verge.kind = true) :
    verge.Crosses quantifier? := by
  refine .checkAny ?_
  rw [h, if_pos rfl]
  exact (crosses_quantifier hs h).map

omit hs in
/-- Where no quantifier begins, none is read. -/
theorem returns_quantifier?_none {place : Place}
    (h : quantifierStart.contains place.kind = false) :
    Returns place quantifier? fun found after ↦ found = none ∧ after = place := by
  refine Returns.checkAny.bind_here ?_
  rw [h, if_neg Bool.false_ne_true]
  exact .pure ⟨rfl, rfl⟩

end Quantifiers

/-! ### Nodes -/

section Nodes

include hs

theorem crosses_node (h : nodeStart.contains verge.kind = true) : verge.Crosses (node scope) := by
  refine .phrase (.look fun place hat ↦ ?_)
  cases dummyAt? place with
  | some cardinality =>
    refine (Crosses.advance fun hend ↦ ?_).bind fun _ ↦ hs.alike (.bind (.elementary .advance)
      fun _ ↦ .bind (.elementary .advance) fun _ ↦ .pure _)
    rw [hend] at h
    cases h
  | none =>
    change verge.Crosses (quantifier? >>= nodeBody scope)
    rw [nodeStart, KindSet.contains_union, Bool.or_eq_true, KindSet.contains_single,
      decide_eq_true_eq] at h
    rcases h with hbracket | hquantifier
    · refine .behind_here (fun place hat ↦ returns_quantifier?_none ?_)
        ((Crosses.expect hbracket (by decide)).bind fun _ ↦ hs.alike (.bind alike_label? fun _ ↦
          .bind alike_markedContent fun _ ↦ .pure _))
      rw [hat.kind_eq, hbracket]
      rfl
    · exact (crosses_quantifier? hs hquantifier).bind fun _ ↦ hs.alike (alike_nodeBody _)

theorem crosses_children? (h : structuralStart.contains verge.kind = true) :
    verge.Crosses (children? scope) := by
  refine .checkAny ?_
  rw [h, if_pos rfl]
  exact (hs.structuralConstraint h).map

/-- Child statements and the closing bracket cross with either of them. -/
theorem crosses_children {α : Type} {next : Option (Phrase .structuralConstraint) → Parser α}
    (h : verge.kind = .symbol .rightBracket ∨ structuralStart.contains verge.kind = true)
    (hnext : ∀ children, Aloof verge.coupling (next children)) :
    verge.Crosses (children? scope >>= fun children ↦
      expect (.symbol .rightBracket) >>= fun _ ↦ next children) := by
  have hexpect : Aloof verge.coupling (expect (.symbol .rightBracket)) :=
    .of_elementary verge.lawful (.expect _)
  rcases h with hbracket | hchildren
  · have hnone (place : Place) (hat : verge.At place) :
        Returns place (children? scope) fun children after ↦ children = none ∧ after = place := by
      refine Returns.checkAny.bind_here ?_
      rw [hat.kind_eq, hbracket]
      exact .pure ⟨rfl, rfl⟩
    exact .behind_here hnone ((Crosses.expect hbracket nofun).bind fun _ ↦ hnext none)
  · exact (crosses_children? hs hchildren).bind fun children ↦ hexpect.bind fun _ ↦ hnext children

theorem crosses_nodeContent (h : verge.kind = .memberName) : verge.Crosses (nodeContent scope) := by
  have hstarts : verge.StartsExpression := by
    constructor
    all_goals rw [h]
    · rfl
    · nofun
  rw [nodeContent_eq_either]
  refine .behind_here (fun place hat ↦ .consume_none (hat.kind_eq ▸ h ▸ nofun)) ?_
  intro session hat
  refine escapes_either_of_first hs.retreats.constraint.attempt
    (fun _ ↦ hs.alike (.bind alike_children? fun _ ↦ .bind (.elementary (.expect _))
      fun _ ↦ .pure _))
    (hs.alike (.attempt _ alike_onlyChildren)) (fun _ ↦ .pure _) hat.1 ?_
  refine (hs.expression hstarts 0).bind (fun _ ↦ hs.alike ?_) session hat
  exact .bind (.elementary (.check _)) fun _ ↦ .ite (.pure _) (.bind (.elementary (.look _))
    fun _ ↦ .bind (.elementary (.checkAny _)) fun _ ↦ .ite (.pure _) (.elementary (.fail _ rfl)))

theorem crosses_markedContent (h : verge.kind = .memberName) :
    verge.Crosses (markedContent scope) := by
  rw [markedContent_eq_either]
  refine .either_second (fun place hat session hplace ↦ ?_) (crosses_nodeContent hs h)
    fun _ ↦ .pure _
  obtain ⟨failure, after, hrun⟩ := hs.marker (by rw [h]; rfl) 0 place hat session hplace
  exact ⟨failure, after, bind_of_error hrun _⟩

end Nodes

/-! ### Edges -/

section Edges

include hs

theorem crosses_edge (h : (KindSet.ofKeys edgeGlyphs).contains verge.kind = true) :
    verge.Crosses (edge scope) := by
  refine .phrase ((Crosses.oneOf h rfl).bind fun ends? ↦ ?_)
  cases ends? with
  | some ends => exact .pure _
  | none =>
    exact hs.alike (.bind (alike_edgeEnd _ _) fun _ ↦ .bind (.elementary (.expect _)) fun _ ↦
      .bind alike_label? fun _ ↦ .bind alike_edgeConstraint? fun _ ↦
        .bind (.elementary (.expect _)) fun _ ↦ .bind (alike_edgeEnd _ _) fun _ ↦ .pure _)

omit hs in
theorem crosses_halves {head tail : Kind} (h : verge.kind = head) (hend : head ≠ .endOfInput) :
    verge.Crosses (halves head tail) :=
  (Crosses.expect h hend).bind fun _ ↦ (Aloof.of_elementary verge.lawful
    (.expecting _)).bind fun _ ↦ (Aloof.of_elementary verge.lawful (.look _)).bind fun _ ↦
      .ite ((Aloof.of_elementary verge.lawful .advance).bind fun _ ↦ .pure _)
        (.of_elementary verge.lawful (.fail _ rfl))

theorem crosses_edgeConstraint? (h : verge.kind = .memberName) :
    verge.Crosses (edgeConstraint? scope) := by
  have hstarts : verge.StartsExpression := by
    constructor
    all_goals rw [h]
    · rfl
    · nofun
  refine .check ?_
  rw [h, if_neg (by decide)]
  exact (hs.expression hstarts 0).map

end Edges

/-! ### Node statements -/

section Statements

include hs

theorem crosses_nodes (h : nodeStart.contains verge.kind = true) : verge.Crosses (nodes scope) :=
  (hs.node h).bind fun node ↦ hs.alike (alike_nodesBehind node)

theorem crosses_grouping
    (h : verge.kind = .symbol .leftBrace ∨ quantifierStart.contains verge.kind = true) :
    verge.Crosses (grouping scope) := by
  change verge.Crosses (quantifier? >>= groupBody scope)
  rcases h with hbrace | hquantifier
  · refine .behind_here (fun place hat ↦ returns_quantifier?_none ?_)
      ((Crosses.expect hbrace nofun).bind fun _ ↦ hs.alike (.bind alike_nodeStatements fun _ ↦
        .bind (.elementary (.expect _)) fun _ ↦ .pure _))
    rw [hat.kind_eq, hbrace]
    rfl
  · exact (crosses_quantifier? hs hquantifier).bind fun _ ↦ hs.alike (alike_groupBody _)

theorem crosses_sequence (h : (KindSet.ofKeys arrangements).contains verge.kind = true) :
    verge.Crosses (sequence scope) :=
  ((Crosses.oneOf h rfl).many (hs.alike (.oneOf _))).bind fun _ ↦
    hs.alike (.bind alike_nodeStatements fun _ ↦ .pure _)

/-- A quantifier leads into a group or into nodes, and either crosses. -/
theorem crosses_grouped (h : quantifierStart.contains verge.kind = true) :
    verge.Crosses (lookahead groupQuestion >>= groupedOrNot scope) := by
  refine .lookahead fun answer ↦ ?_
  cases answer with
  | false =>
    refine crosses_nodes hs ?_
    rw [nodeStart, KindSet.contains_union, h, Bool.or_true]
  | true => exact crosses_grouping hs (.inr h)

theorem crosses_nodeStatementOperand (h : nodeStatementStart.contains verge.kind = true) :
    verge.Crosses (nodeStatementOperand scope) := by
  refine .phrase (.checkAny ?_)
  cases harrangement : (KindSet.ofKeys arrangements).contains verge.kind with
  | true =>
    rw [if_pos rfl]
    exact crosses_sequence hs harrangement
  | false =>
    rw [if_neg Bool.false_ne_true]
    change verge.Crosses (atGrouping >>= groupedOrNot scope)
    rw [atGrouping_bind]
    refine .check ?_
    by_cases hbrace : verge.kind = .symbol .leftBrace
    · rw [if_pos (beq_iff_eq.mpr hbrace)]
      exact crosses_grouping hs (.inl hbrace)
    · rw [if_neg (by rwa [beq_iff_eq])]
      refine .checkAny ?_
      cases hquantifier : quantifierStart.contains verge.kind with
      | true => exact crosses_grouped hs hquantifier
      | false =>
        refine crosses_nodes hs ?_
        rw [nodeStatementStart, KindSet.contains_union, KindSet.contains_union, harrangement,
          KindSet.contains_single, decide_eq_false hbrace] at h
        simpa using h

theorem crosses_nodeStatement (h : nodeStatementStart.contains verge.kind = true) (least : Nat) :
    verge.Crosses (nodeStatement scope least) :=
  (crosses_nodeStatementOperand hs h).bind fun first ↦
    .iterate (fun _ ↦ hs.alike (alike_nodeStatementContinuation least _)) first

theorem crosses_nodeStatements (h : nodeStatementStart.contains verge.kind = true) :
    verge.Crosses (nodeStatements scope) := by
  refine (hs.nodeStatement h 0).bind fun _ ↦ hs.alike (.bind (.many .nodeStatement ?_)
    fun _ ↦ .pure _)
  exact .bind (.elementary (.checkAny _)) fun _ ↦
    .ite ((Alike.nested (.nodeStatement 0)).map _) (.pure _)

theorem crosses_structuralConstraint (h : structuralStart.contains verge.kind = true) :
    verge.Crosses (structuralConstraint scope) := by
  have hstatements (limit : Option (Phrase .hitsLimit)) (flags : List MatchFlag) :
      Alike scope scope (nodeStatements scope >>= fun statements ↦
        (pure ⟨.structuralConstraint flags, .optional limit (.many statements .nil)⟩ :
          Parser (Draft .structuralConstraint))) _ :=
    .bind alike_nodeStatements fun _ ↦ .pure _
  have hrest (limit : Option (Phrase .hitsLimit)) :=
    Alike.bind (.many .matchFlag (.oneOf matchFlags)) (hstatements limit)
  refine .phrase ?_
  by_cases hfirst : verge.kind = .keyword .first
  · refine Crosses.bind (.check ?_) fun limit ↦ hs.alike (hrest limit)
    rw [if_pos (beq_iff_eq.mpr hfirst)]
    exact (Crosses.phrase ((Crosses.advance (hfirst ▸ nofun)).bind fun _ ↦ .pure _)).map
  by_cases hhits : verge.kind = .pureDigits ∧ verge.next = .keyword .hits
  · refine Crosses.bind (.check ?_) fun limit ↦ hs.alike (hrest limit)
    rw [if_neg (by rwa [beq_iff_eq])]
    refine .check (.look fun place hat ↦ ?_)
    rw [hat.peekKind_one, beq_iff_eq.mpr hhits.1, beq_iff_eq.mpr hhits.2]
    exact (Crosses.phrase ((Crosses.advance (hhits.1 ▸ nofun)).bind fun _ ↦
      hs.alike (.bind (.elementary .advance) fun _ ↦ .pure _))).map
  refine .behind_here (fun place hat ↦ returns_hitsLimit?_none (hat.kind_eq ▸ hfirst)
    fun hdigits hnext ↦ hhits ⟨hat.kind_eq ▸ hdigits, hat.peekKind_one ▸ hnext⟩) ?_
  cases hflags : (KindSet.ofKeys matchFlags).contains verge.kind with
  | true =>
    exact ((Crosses.oneOf hflags rfl).many (hs.alike (.oneOf _))).bind fun flags ↦
      hs.alike (hstatements none flags)
  | false =>
    refine .behind_here (fun place hat ↦ .many_none (.oneOf_none (hat.kind_eq ▸ hflags)))
      ((crosses_nodeStatements hs ?_).bind fun _ ↦ .pure _)
    rw [structuralStart, KindSet.contains_union, KindSet.contains_union, hflags,
      KindSet.contains_single, decide_eq_false hfirst] at h
    simpa using h

end Statements

/-! ### Connections -/

section Connections

variable {session : Session}

/-- Whether a token touches the one before it is a matter of their offsets. -/
theorem touches_passed (hclosed : session.cursor.Closed)
    (hkind : session.cursor.kind ≠ .endOfInput) :
    session.passed.cursor.touches 0 = session.cursor.touches 1 := by
  cases hahead : session.cursor.ahead with
  | nil =>
    rw [Place.Closed, hahead] at hclosed
    exact absurd hclosed hkind
  | cons next rest =>
    rw [Session.passed, Cursor.advance_of_cons hahead, Place.touches, Place.touches, Place.peek,
      Place.peek, hahead, Place.along_zero, Place.along, Place.along_zero]

/-- Two tokens that touch cross the verge if they reach it. -/
theorem escapes_halves {head tail : Kind} (hnears : verge.Nears 2 session.cursor.toPlace)
    (hhead : session.cursor.kind = head) (htail : session.cursor.peekKind 1 = tail)
    (htouches : session.cursor.touches 1 = true) :
    verge.coupling.Escapes (halves head tail session) := by
  have hnears' : verge.Nears 2 (session.tested (.single head)).cursor.toPlace := hnears
  have hclosed : (session.tested (.single head)).cursor.Closed := hnears.begins.closed verge.closed
  have hend : session.cursor.kind ≠ .endOfInput := by
    have hhere := hnears.kind_ne 0 (Nat.succ_pos _)
    rwa [Place.peekKind, Place.peek, Place.along_zero] at hhere
  have hcomplete : (((session.tested (.single head)).passed.tested (.single tail)).cursor.touches 0
      && ((session.tested (.single head)).passed.tested (.single tail)).cursor.kind == tail) =
        true := by
    have hseen : (session.tested (.single head)).passed.cursor.touches 0 = true :=
      (touches_passed hclosed hend).trans htouches
    have hkind : (session.tested (.single head)).passed.cursor.kind = tail :=
      (Session.kind_passed _).trans htail
    exact Bool.and_eq_true_iff.mpr ⟨hseen, beq_iff_eq.mpr hkind⟩
  have hpassed : verge.Nears 1
      ((session.tested (.single head)).passed.tested (.single tail)).cursor.toPlace :=
    hnears'.passed
  rw [halves, bind_of_ok (expect_of_kind hhead), bind_expecting, bind_look, if_pos hcomplete]
  exact hpassed.escapes_advance fun _ _ hnears ↦ .inr hnears.past

include hs in
/-- An edge that has been seen to follow crosses the verge if it reaches it. -/
theorem escapes_edge (hbegins : verge.start.Begins session.cursor.toPlace)
    (hlt : verge.index < session.cursor.position + 2)
    (hedge : atEdgeEnd session.cursor.toPlace = true) :
    verge.coupling.Escapes (edge scope session) := by
  simp only [atEdgeEnd, Bool.and_eq_true, Bool.or_eq_true, beq_iff_eq] at hedge
  obtain ⟨⟨hkind, hnext⟩, htouches⟩ := hedge
  have hlookup : edgeGlyphs.lookup session.cursor.kind = none := by
    rcases hkind with hkind | hkind <;>
      rw [show session.cursor.kind = _ from hkind] <;> rfl
  have hend : session.cursor.kind ≠ .endOfInput := by
    rcases hkind with hkind | hkind <;> exact fun hend ↦ by cases hkind.symm.trans hend
  have hnears : verge.Nears 2 session.cursor.toPlace :=
    .of_two hbegins hlt hend (hnext.trans_ne (by decide))
  have hhalves (head : Kind) (hhead : session.cursor.kind = head) (kinds kinds' : KindSet) :
      verge.coupling.Escapes
        (halves head (.symbol .minus) ((session.tested kinds).tested kinds')) := by
    refine escapes_halves ?_ hhead hnext htouches
    exact hnears
  have hend : verge.coupling.Escapes (edgeEnd (.symbol .less) (.symbol .minus)
      (session.tested (.ofKeys edgeGlyphs))) := by
    have hchecked : check (.symbol .less) (session.tested (.ofKeys edgeGlyphs)) =
        .ok (session.cursor.kind == .symbol .less)
          ((session.tested (.ofKeys edgeGlyphs)).tested (.single (.symbol .less))) := rfl
    rw [edgeEnd, bind_of_ok hchecked, bind_look]
    split
    · rename_i hboth
      exact (hhalves _ (beq_iff_eq.mp (Bool.and_eq_true_iff.mp hboth).1) _ _).bind fun _ ↦ .pure _
    · rename_i hboth
      refine (hhalves _ (hkind.resolve_left fun hless ↦ hboth ?_) _ _).bind fun _ ↦ .pure _
      exact Bool.and_eq_true_iff.mpr ⟨beq_iff_eq.mpr hless, beq_iff_eq.mpr hnext⟩
  refine .phraseFrom ?_
  rw [bind_of_ok (oneOf_of_lookup_none hlookup)]
  refine .bind hend fun _ ↦ hs.alike ?_
  exact .bind (.elementary (.expect _)) fun _ ↦ .bind alike_label? fun _ ↦
    .bind alike_edgeConstraint? fun _ ↦ .bind (.elementary (.expect _)) fun _ ↦
      .bind (alike_edgeEnd _ _) fun _ ↦ .pure _

/-- An edge follows that crosses the verge. -/
structure Connects (verge : Verge) (place : Place) : Prop where
  connected : ((KindSet.ofKeys edgeGlyphs).contains place.kind || atEdgeEnd place) = true
  begins : verge.start.Begins place
  index_le : verge.index ≤ place.position + 1
  position_eq : (KindSet.ofKeys edgeGlyphs).contains place.kind = true →
    place.position = verge.index

include hs in
theorem Connects.escapes_edge (h : verge.Connects session.cursor.toPlace) :
    verge.coupling.Escapes (edge scope session) := by
  cases hglyph : (KindSet.ofKeys edgeGlyphs).contains session.cursor.toPlace.kind with
  | true =>
    have hat : verge.At session.cursor.toPlace := ⟨h.begins, h.position_eq hglyph⟩
    exact crosses_edge hs (hat.kind_eq ▸ hglyph) session hat
  | false =>
    have hconnected := h.connected
    rw [hglyph, Bool.false_or] at hconnected
    exact Verge.escapes_edge hs h.begins (Nat.lt_succ_of_le h.index_le) hconnected

theorem bind_atEdge {α : Type} (next : Bool → Parser α) (session : Session) :
    (atEdge >>= next) session =
      next ((KindSet.ofKeys edgeGlyphs).contains session.cursor.toPlace.kind ||
        atEdgeEnd session.cursor.toPlace) (session.tested (.ofKeys edgeGlyphs)) := rfl

include hs in
theorem Connects.escapes_elementFrom (h : verge.Connects session.cursor.toPlace)
    (source : Phrase .node) : verge.coupling.Escapes (elementFrom scope source session) := by
  refine .phraseFrom ?_
  rw [bind_atEdge, h.connected, if_pos rfl]
  have htested : verge.Connects (session.tested (.ofKeys edgeGlyphs)).cursor.toPlace := h
  exact (htested.escapes_edge hs).bind fun _ ↦ hs.alike (.bind (.nested .node) fun _ ↦ .pure _)

include hs in
theorem crosses_nodesBehind (h : verge.kind = .symbol .comma) (node : Phrase .node) :
    verge.Crosses (nodesBehind scope node) := by
  have hnone (place : Place) (hat : verge.At place) :
      Returns place atEdge fun connected after ↦ connected = false ∧ after = place := by
    refine fun session hplace ↦ ⟨_, session.tested (.ofKeys edgeGlyphs), rfl, ?_, hplace⟩
    change ((KindSet.ofKeys edgeGlyphs).contains session.cursor.toPlace.kind ||
      atEdgeEnd session.cursor.toPlace) = false
    rw [hplace, atEdgeEnd, hat.kind_eq, h]
    rfl
  refine .behind_here hnone ?_
  rw [if_neg Bool.false_ne_true]
  refine .check ?_
  dsimp only
  rw [if_pos (beq_iff_eq.mpr h)]
  have hcomma : verge.Crosses (behind (.symbol .comma) (element scope)) :=
    (Crosses.consume h (by decide)).bind fun _ ↦ hs.alike (.ite (.map _ (.bind (.nested _)
      fun source ↦ alike_elementFrom source)) (.pure _))
  have hothers (first : Phrase .element) : verge.Crosses (many (behind (.symbol .comma)
      (element scope)) >>= fun others ↦
        (pure ⟨.graphFragment, .many (first :: others) .nil⟩ : Parser (Draft .nodeStatement))) :=
    (hcomma.many (hs.alike (.behind _ (.bind (.nested _) fun source ↦
      alike_elementFrom source)))).bind fun _ ↦ .pure _
  refine .behind_any (fun place hat ↦ ?_) hothers
  have hbody : Returns place (atEdge >>= fun connected ↦
      if connected then edge scope >>= fun edge ↦ scope.node >>= fun target ↦
        (pure ⟨.connection, .one node (.one edge (.one target .nil))⟩ : Parser (Draft .element))
      else pure ⟨.content, .one node .nil⟩) fun _ after ↦ after = place :=
    (hnone place hat).bind_here (.pure rfl)
  exact hbody.bind fun _ _ hafter ↦ Returns.look.bind fun _ _ hlook ↦
    .pure (hlook.2.trans hafter)

end Connections

/-! ### Selections -/

section Selections

include hs

theorem crosses_structuralSelection (h : verge.kind = .keyword .lane) :
    verge.Crosses (structuralSelection scope) := by
  refine .check ?_
  rw [if_pos (beq_iff_eq.mpr h)]
  have hlane : verge.Crosses (lane scope) := .phrase ((Crosses.expect h nofun).bind fun _ ↦
    hs.alike (.bind alike_identifier fun _ ↦ .bind (.behind _ alike_memberName) fun _ ↦
      .bind (.nested .structuralConstraint) fun _ ↦ .pure _))
  exact (hlane.separatedBy (hs.alike alike_lane)).bind fun _ ↦
    hs.alike (.bind alike_having? fun _ ↦ .pure _)

end Selections

/-! ### Rules -/

/-- Where no marker begins, the rule for one fails, be it for want of room. -/
theorem fails_marker_inside (limit room least : Nat) (h : markerStart.contains verge.kind = false)
    {place : Place} (hat : verge.At place) :
    Fails place ((Rule.marker least).run limit room) := by
  have hkind : place.kind ∉ markerStart := by
    rw [hat.kind_eq, KindSet.mem_iff, h]
    exact Bool.false_ne_true
  have hrefuses : Refuses place ((Rule.marker least).run limit room) :=
    Rule.refuses_run limit room fun _ ↦ refuses_marker hkind least
  intro session hplace
  obtain ⟨failure, after, hrun, -⟩ := hrefuses session hplace
  exact ⟨failure, after, hrun⟩

/-- A group that was asked for behind the verge is found there again under every limit. -/
theorem escapes_grouping_inside (limit room : Nat) {session : Session}
    (hbegins : verge.start.Begins session.cursor.toPlace)
    (hkind : quantifierStart.contains session.cursor.kind = true)
    (h : verge.coupling.Escapes (groupQuestion session)) :
    verge.coupling.Escapes
      ((lookahead groupQuestion >>= groupedOrNot (Rule.inside limit room)) session) := by
  refine Coupling.escapes_grouping verge.lawful (fun _ ↦ .rfl) ?_ limit room verge.closed hbegins
    hkind h
  intro failure failure' htoken hbeyond
  change verge.bound ≤ failure'.token.span.start
  rwa [htoken]

/-- By induction on the room below the limit: without room every rule meets the limit, and with one
more each of them crosses as its body does. -/
theorem scopes_inside (verge : Verge) (limit room : Nat) :
    verge.Scopes (Rule.inside limit room) := by
  have haloof (room : Nat) (rule : Rule) : Aloof verge.coupling (rule.run limit room) :=
    Rule.aloof_run verge.lawful (fun _ ↦ .rfl) limit room rule
  induction room with
  | zero =>
    have hexceed {α : Type} (session : Session) :
        verge.coupling.Escapes ((exceed limit : Parser α) session) :=
      Coupling.escapes_exceed (fun _ ↦ .rfl) limit
    exact {
      aloof := haloof 0
      retreats := Rule.retreats_inside limit 0
      expression := fun _ _ session _ ↦ hexceed session
      loop := fun _ session _ ↦ hexceed session
      node := fun _ session _ ↦ hexceed session
      nodeStatement := fun _ _ session _ ↦ hexceed session
      structuralConstraint := fun _ session _ ↦ hexceed session
      marker := fun h least _ ↦ fails_marker_inside limit 0 least h
      refused := fun _ _ session _ ↦ .inl (hexceed session)
      negated := fun _ session _ _ _ ↦ .inl (hexceed session)
      grouping := fun _ ↦ escapes_grouping_inside limit 0 }
  | succ room hs =>
    exact {
      aloof := haloof (room + 1)
      retreats := Rule.retreats_inside limit (room + 1)
      expression := fun h least ↦ (crosses_expression hs h least).enter
      loop := fun h ↦ (crosses_loop hs h).enter
      node := fun h ↦ (crosses_node hs h).enter
      nodeStatement := fun h least ↦ (crosses_nodeStatement hs h least).enter
      structuralConstraint := fun h ↦ (crosses_structuralConstraint hs h).enter
      marker := fun h least _ ↦ fails_marker_inside limit (room + 1) least h
      refused := fun h least session hat ↦ by
        refine .inr (Wants.enter (wants_expression h least ?_))
        exact hat
      negated := fun least session hbegins hposition hnegation ↦ by
        have hentered : verge.start.Begins (entered (Rule.expression least).title (limit - room)
          session).cursor.toPlace := hbegins
        exact (negated_expression hs least hentered hposition hnegation).imp .enter .enter
      grouping := fun _ ↦ escapes_grouping_inside limit (room + 1) }

end Verge

end CorpusQuery
