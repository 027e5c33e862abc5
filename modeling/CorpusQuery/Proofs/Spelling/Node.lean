import CorpusQuery.Proofs.Spelling.Marker

/-!
Edges and nodes in a copy. Where a node tries a reading and gives it up, the copy gives it up as
well (`Grammar.shadows_leadingConstraint`, `Grammar.shadows_leadingMarker`), so both go on with the
same reading.
-/

set_option autoImplicit false
set_option relaxedAutoImplicit false

namespace CorpusQuery

open CorpusQuery.Parser

namespace Grammar

variable {scope : Scope} {session : Session}

/-! ### Edges -/

theorem EdgeEnd.plain_wording {head tail : Symbol} (hends : head.isEdgeEnd tail = true)
    (side : EdgeEnd) {later : List Wording} (h : Plain later) :
    Plain (side.wording head tail :: later) := by
  cases side with
  | directed => exact .cons h.toSettled hends nofun nofun
  | undirected => exact .cons h.toSettled rfl nofun nofun

theorem mirrors_edgeConstraint? (hs : scope.Mirroring) :
    Mirrors session Plain Plain [] (Option.map Tree.bare) (edgeConstraint? scope)
      (edgeConstraint? scope) fun constraint? ↦ constraint?.elim [] Phrase.wordings := by
  refine .plain_check rfl (fun _ ↦ .done rfl rfl) ?_
  exact (hs.expression 0 _).map (fun _ ↦ rfl) fun _ _ hview ↦ congrArg some hview

theorem writes_edgeGlyphs :
    Mirrors.Writes edgeGlyphs fun ends ↦ .sign (ends.1.glyph ends.2) := by
  unfold Mirrors.Writes edgeGlyphs
  decide

theorem mirrors_edge (hs : scope.Mirroring) :
    Mirrors session (fun later ↦ Plain later ∧ Edges later) Plain [] Tree.bare (edge scope)
      (edge scope) Phrase.wordings := by
  refine .phrase (.oneOf_then writes_edgeGlyphs (fun _ h ↦ h.1.toSettled)
    (fun row _ later (h : Plain later) ↦ ⟨.lexeme h.toSettled ?_, .inl ⟨_, _, rfl⟩⟩)
    (fun _ _ ↦ .done rfl rfl) fun last ↦ ?_)
  · obtain ⟨_, left, right⟩ := row
    cases left <;> cases right <;> nofun
  · refine (mirrors_edgeEnd rfl rfl rfl (fun side later (h : Plain later) ↦
      ⟨EdgeEnd.plain_wording rfl side h, .inr ⟨side, rfl⟩⟩)
      fun _ h ↦ h.1.toSettled).bind_same fun left _ ↦ ?_
    refine (Mirrors.plain_expect rfl).bind fun _ _ _ _ ↦ ?_
    refine mirrors_label?.bind_same fun label _ ↦ ?_
    refine (mirrors_edgeConstraint? hs).bind fun _ _ _ hconstraint ↦ ?_
    refine (Mirrors.plain_expect rfl).bind fun _ _ _ _ ↦ ?_
    refine (mirrors_edgeEnd rfl rfl rfl (fun side later (h : Plain later) ↦
      EdgeEnd.plain_wording rfl side h) fun _ h ↦ h.toSettled).bind_same fun _ _ ↦
        .done ?_ ?_
    · simp [Draft.wordings, Form.layout, Wording.sign]
    · simp [Draft.bare, hconstraint]

/-- An edge and the node it leads to. -/
theorem mirrors_connection (hs : scope.Mirroring) {source source' : Phrase .node}
    (hsource : source.bare = source'.bare) :
    Mirrors session (fun later ↦ Plain later ∧ Edges later) Plain source.wordings Draft.bare
      (do
        let edge ← edge scope
        let target ← scope.node
        pure ⟨.connection, .one source (.one edge (.one target .nil))⟩)
      (do
        let edge ← edge scope
        let target ← scope.node
        pure ⟨.connection, .one source' (.one edge (.one target .nil))⟩) Draft.wordings := by
  refine (mirrors_edge hs).bind fun _ _ _ hedge ↦ ?_
  refine ((hs.node _).weaken (fun _ h ↦ h.toPlain) fun _ ↦ id).bind fun _ _ _ htarget ↦ .done ?_ ?_
  · simp [Draft.wordings, Form.layout]
  · simp [Draft.bare, Tree.bare, hsource, hedge, htarget]

theorem mirrors_elementFrom_of_edge (hs : scope.Mirroring) {source source' : Phrase .node}
    (hsource : source.bare = source'.bare) (hedge : edgeAt session.cursor.toPlace = true) :
    Mirrors session (fun later ↦ Plain later ∧ Edges later) Plain source.wordings Tree.bare
      (elementFrom scope source) (elementFrom scope source') Phrase.wordings :=
  .phraseFrom (mirrors_atEdge_of_edge hedge (mirrors_connection hs hsource))

theorem mirrors_elementFrom (hs : scope.Mirroring) {source source' : Phrase .node}
    (hsource : source.bare = source'.bare) :
    Mirrors session Plain Plain source.wordings Tree.bare (elementFrom scope source)
      (elementFrom scope source') Phrase.wordings := by
  refine .phraseFrom (mirrors_atEdge (fun _ ↦ mirrors_connection hs hsource) (.done ?_ ?_))
  · simp [Draft.wordings, Form.layout]
  · simp [Draft.bare, Tree.bare, hsource]

theorem mirrors_element (hs : scope.Mirroring) :
    Mirrors session Plain Plain [] Tree.bare (element scope) (element scope) Phrase.wordings :=
  ((hs.node _).weaken (fun _ h ↦ h.toPlain) fun _ ↦ id).bind fun _ _ _ hsource ↦
    mirrors_elementFrom hs hsource

/-! ### Contents of nodes -/

/-- Wordings that begin with the closing bracket of a node. -/
def EndsNode (wordings : List Wording) : Prop :=
  ∃ later, wordings = .sign .rightBracket :: later ∧ Plain later

theorem EndsNode.open {later : List Wording} (h : EndsNode later) : Open later := by
  obtain ⟨rest, rfl, hrest⟩ := h
  exact .border hrest rfl

theorem mirrors_nodeEnd :
    Mirrors session EndsNode Plain [] (fun _ ↦ ()) (expect (.symbol .rightBracket))
    (expect (.symbol .rightBracket)) fun _ ↦ [.sign .rightBracket] :=
  .expect_mark nofun rfl fun later h ↦ ⟨later, rfl, h⟩

theorem mirrors_children? (hs : scope.Mirroring) :
    Mirrors session Open EndsNode [] (Option.map Tree.bare) (children? scope) (children? scope)
      fun children? ↦ children?.elim [] Phrase.wordings := by
  refine .checkAny (by decide) (fun _ h ↦ h.toPlain) ?_
  split
  · refine ((hs.structuralConstraint _).weaken (fun _ ↦ id) fun _ h ↦ h.open.toPlain).map
      (fun _ ↦ rfl) fun _ _ hview ↦ congrArg some hview
  · exact .pure rfl rfl fun _ h ↦ h.open

/-- What a copy keeps of the contents of a node. -/
def NodeContent.bare (content : NodeContent) :
    Option (Phrase .expression) × Option (Phrase .structuralConstraint) :=
  (content.constraint.map Tree.bare, content.children.map Tree.bare)

def NodeContent.wordings (content : NodeContent) : List Wording :=
  content.constraint.elim [] Phrase.wordings ++ content.children.elim [] Phrase.wordings ++
    [.sign .rightBracket]

theorem mirrors_onlyChildren (hs : scope.Mirroring) :
    Mirrors session Open Plain [] NodeContent.bare (onlyChildren scope) (onlyChildren scope)
      NodeContent.wordings := by
  refine (mirrors_children? hs).bind fun _ _ _ hchildren ↦ ?_
  refine mirrors_nodeEnd.bind fun _ _ _ _ ↦ .done ?_ ?_
  · simp [NodeContent.wordings]
  · simp [NodeContent.bare, hchildren]

theorem isInteger_bare (expression : Phrase .expression) :
    isInteger expression.bare = isInteger expression := by
  cases expression
  rfl

/-- A constraint that is chosen is chosen in the copies. That what follows it is a symbol that
negates matters only behind an integer, and there the copy may have the word instead, which does not
matter. -/
theorem mirrors_leadingConstraint (hs : scope.Mirroring) :
    Mirrors session Plain Plain [] Tree.bare (leadingConstraint scope) (leadingConstraint scope)
      Phrase.wordings := by
  refine (hs.expression 0 _).bind fun constraint constraint' last hview ↦ ?_
  have hinteger : isInteger constraint = isInteger constraint' := by
    rw [← isInteger_bare, hview, isInteger_bare]
  refine .plain_check rfl (fun _ ↦ .done rfl hview) ?_
  refine .look (fun isBang isBang' ↦ isBang' = true → isBang = true) id
    (fun copy later _ hspells h hready heq ↦ ?_) fun isBang' hbang ↦ ?_
  · rw [beq_iff_eq] at heq ⊢
    exact ((h.toSettled.kin_head hspells hready.printed).eq_of_usual
      ((congrArg Kind.isUsual heq).trans rfl)).trans heq
  refine .checkAny (by decide) (fun _ ↦ id) ?_
  split
  · rename_i hchosen
    have hchosen' : (structuralStart.contains
        (last.tested (.single (.symbol .rightBracket))).cursor.kind &&
          !(isBang' && isInteger constraint')) = true := by
      rw [Bool.and_eq_true, Bool.not_eq_true', Bool.and_eq_false_iff] at hchosen ⊢
      refine ⟨hchosen.1, hchosen.2.imp (fun hfalse ↦ ?_) fun hfalse ↦ hinteger ▸ hfalse⟩
      exact Bool.eq_false_iff.mpr fun htrue ↦ absurd (hbang htrue) (Bool.eq_false_iff.mp hfalse)
    rw [if_pos hchosen']
    exact .done rfl hview
  · exact .of_error fun _ _ h ↦ by cases h

theorem mirrors_nodeContent (hs : scope.Mirroring) :
    Mirrors session Plain Plain [] NodeContent.bare (nodeContent scope) (nodeContent scope)
      NodeContent.wordings := by
  rw [nodeContent_eq_either]
  refine .plain_consume_then rfl (fun _ ↦ .done rfl rfl) fun last ↦ ?_
  have halike : Alike scope scope (leadingConstraint scope) (leadingConstraint scope) :=
    alike_leadingConstraint
  have hfirst : Mirrors last Plain Plain [] NodeContent.bare
      (leadingConstraint scope >>= fun constraint ↦ do
        let children ← children? scope
        let _ ← expect (.symbol .rightBracket)
        pure ⟨some constraint, children⟩)
      (leadingConstraint scope >>= fun constraint ↦ do
        let children ← children? scope
        let _ ← expect (.symbol .rightBracket)
        pure ⟨some constraint, children⟩) NodeContent.wordings := by
    refine (mirrors_leadingConstraint hs).bind fun _ _ _ hconstraint ↦ ?_
    refine ((mirrors_children? hs).weaken (fun _ h ↦ h.toPlain) fun _ ↦ id).bind
      fun _ _ _ hchildren ↦ ?_
    refine mirrors_nodeEnd.bind fun _ _ _ _ ↦ .done ?_ ?_
    · simp [NodeContent.wordings]
    · simp [NodeContent.bare, hconstraint, hchildren]
  refine .either (halike.sticky hs.sticky) hfirst
    (fun failure failed hrun hnone copy later hclosing hspells hopen hready ↦ ?_)
    (fun _ (h : Open _) ↦ h.toPlain) fun other hother ↦ ?_
  · exact (shadows_leadingConstraint hs.shadowsExpression).fails
      ⟨hclosing, later, hopen, hspells, hready⟩ hrun hnone
  · exact (Mirrors.attempt (mirrors_onlyChildren hs)).bind fun _ _ _ hcontent ↦ .done rfl hcontent

/-- What a copy keeps of the marker and the contents of a node. -/
def markedBare (marked : Option (Phrase .marker) × NodeContent) :=
  (marked.1.map Tree.bare, marked.2.bare)

def markedWordings (marked : Option (Phrase .marker) × NodeContent) : List Wording :=
  marked.1.elim [] (fun marker ↦ Phrase.wordings marker ++ [.sign .comma]) ++ marked.2.wordings

theorem mirrors_leadingMarker (hs : scope.Mirroring) :
    Mirrors session Plain Plain [] Tree.bare (leadingMarker scope) (leadingMarker scope)
      fun marker ↦ Phrase.wordings marker ++ [.sign .comma] := by
  have hcomma (session : Session) : Mirrors session Settled Plain [] (fun _ ↦ ())
      (expect (.symbol .comma)) (expect (.symbol .comma)) fun _ ↦ [.sign .comma] :=
    .expect_mark nofun rfl fun _ h ↦ h.toSettled.cons rfl nofun
  exact (hs.marker 0 _).bind fun _ _ _ hmarker ↦ (hcomma _).bind fun _ _ _ _ ↦ .done rfl hmarker

theorem mirrors_markedContent (hs : scope.Mirroring) :
    Mirrors session Plain Plain [] markedBare (markedContent scope) (markedContent scope)
      markedWordings := by
  rw [markedContent_eq_either]
  have halike : Alike scope scope (leadingMarker scope) (leadingMarker scope) :=
    alike_leadingMarker
  have hfirst : Mirrors session Plain Plain [] markedBare
      (leadingMarker scope >>= fun marker ↦ do
        let content ← nodeContent scope
        pure (some marker, content))
      (leadingMarker scope >>= fun marker ↦ do
        let content ← nodeContent scope
        pure (some marker, content)) markedWordings :=
    (mirrors_leadingMarker hs).bind fun _ _ _ hmarker ↦
      (mirrors_nodeContent hs).bind fun _ _ _ hcontent ↦
        .done rfl (congrArg₂ (fun marker content ↦ (some marker, content)) hmarker hcontent)
  refine .either (halike.sticky hs.sticky) hfirst
    (fun failure failed hrun hnone copy later hclosing hspells hplain hready ↦ ?_)
    (fun _ (h : Plain _) ↦ h) fun other hother ↦ ?_
  · exact (shadows_leadingMarker hs.shadowsMarker).fails
      ⟨hclosing, later, hplain.toOrderly, hspells, hready⟩ hrun hnone
  · exact (mirrors_nodeContent hs).bind fun _ _ _ hcontent ↦
      .done rfl (congrArg (fun content ↦ (none, content)) hcontent)

/-! ### Nodes -/

/-- The token that says how many nodes a dummy node stands for. -/
def Cardinality.kind : Cardinality → Kind
  | .optional => .symbol .question
  | .oneOrMore => .symbol .plus
  | .zeroOrMore => .symbol .star

theorem lookup_cardinalities {kind : Kind} {cardinality : Cardinality} :
    cardinalities.lookup kind = some cardinality ↔ kind = Cardinality.kind cardinality := by
  refine ⟨fun h ↦ ?_, fun h ↦ ?_⟩
  · have hrows : ∀ row ∈ cardinalities, row.1 = Cardinality.kind row.2 := by decide
    exact hrows _ (Mirrors.mem_of_lookup h)
  · rw [h]
    cases cardinality <;> rfl

theorem dummyAt?_iff (h : Closing session.rest) {cardinality : Cardinality} :
    dummyAt? session.cursor.toPlace = some cardinality ↔
      [.symbol .leftBracket, Cardinality.kind cardinality, .symbol .rightBracket] <+:
        session.kinds := by
  have hend : Kind.symbol .rightBracket ≠ .endOfInput := nofun
  rw [h.three_kinds hend, dummyAt?]
  split
  · rename_i hends
    rw [lookup_cardinalities]
    exact ⟨fun hfound ↦ ⟨hends.1, hfound, hends.2⟩, fun h ↦ h.2.1⟩
  · rename_i hends
    exact ⟨nofun, fun hdummy ↦ absurd ⟨hdummy.1, hdummy.2.2⟩ hends⟩

/-- Wordings that begin with a dummy node. -/
def Dummy (cardinality : Cardinality) (wordings : List Wording) : Prop :=
  ∃ later, wordings = .sign .leftBracket :: cardinality.wording :: .sign .rightBracket :: later ∧
    Plain later

theorem Dummy.dummyAt?_eq {cardinality : Cardinality} {later : List Wording} {copy : Session}
    (h : Dummy cardinality later) (hready : Ready session copy later) :
    dummyAt? copy.cursor.toPlace = some cardinality := by
  obtain ⟨rest, rfl, -⟩ := h
  obtain ⟨first, tokens, hrest, hfirst, -, hprinted⟩ := hready.printed.single rfl
  have husual : cardinality.wording.usual = [.mark (Cardinality.kind cardinality)] := by
    cases cardinality <;> rfl
  obtain ⟨second, tokens', rfl, hsecond, -, hprinted'⟩ := hprinted.single husual
  obtain ⟨third, tokens'', rfl, hthird, -, -⟩ := hprinted'.single rfl
  rw [dummyAt?_iff hready.closing, Session.kinds, hrest]
  have hkinds : [first, second, third].map Token.kind =
      [.symbol .leftBracket, Cardinality.kind cardinality, .symbol .rightBracket] :=
    congrArg (List.map Lexeme.kind) (show [first, second, third].map Token.lexeme =
      [.mark (.symbol .leftBracket), .mark (Cardinality.kind cardinality),
        .mark (.symbol .rightBracket)] by simp [hfirst, hsecond, hthird, Lexeme.mark])
  exact hkinds ▸ List.prefix_append _ (tokens''.map Token.kind)

/-- No dummy node begins in a copy where none begins in the tokens. -/
theorem dummyAt?_eq_none {copy : Session} {later : List Wording}
    (h : dummyAt? session.cursor.toPlace = none) (hready : Ready session copy later)
    (hsettled : Settled later) (hspells : Spells later session.rest)
    (hclosing : Closing session.rest) : dummyAt? copy.cursor.toPlace = none := by
  refine Option.eq_none_iff_forall_ne_some.mpr fun cardinality hcopy ↦ ?_
  rw [dummyAt?_iff hready.closing] at hcopy
  have hsession := (hready.twin hsettled hspells).prefix_of_copy (fun kind hkind ↦ ?_) ?_ hcopy
  · rw [(dummyAt?_iff hclosing).mpr hsession] at h
    cases h
  · simp only [List.mem_cons, List.not_mem_nil, or_false] at hkind
    rcases hkind with rfl | rfl | rfl
    · rfl
    · cases cardinality <;> rfl
    · rfl
  · refine .cons_cons (fun h ↦ by cases h) (.cons_cons (fun h ↦ ?_) (.singleton _))
    cases cardinality <;> cases h

theorem mirrors_dummyNode {cardinality : Cardinality}
    (h : dummyAt? session.cursor.toPlace = some cardinality) :
    Mirrors session (Dummy cardinality) Plain [] Draft.bare
      (do
        let _ ← advance
        let _ ← advance
        let _ ← advance
        pure ⟨.dummyNode cardinality, .nil⟩)
      (do
        let _ ← advance
        let _ ← advance
        let _ ← advance
        pure ⟨.dummyNode cardinality, .nil⟩) Draft.wordings := by
  refine .of_run fun hclosing _ _ _ ↦ ?_
  have hend : Kind.symbol .rightBracket ≠ .endOfInput := nofun
  obtain ⟨hopening, hkind, hclose⟩ :=
    (hclosing.three_kinds hend).mp ((dummyAt?_iff hclosing).mp h)
  have hfirst : Mirrors session (Dummy cardinality)
      (fun later ↦ ∃ rest, later = cardinality.wording :: .sign .rightBracket :: rest ∧ Plain rest)
      [] (fun _ ↦ ()) advance advance fun _ ↦ [.sign .leftBracket] :=
    .advance_mark hopening nofun rfl fun _ ⟨rest, heq, hrest⟩ ↦
      ⟨rest, congrArg (List.cons _) heq, hrest⟩
  refine hfirst.bind_of_run fun _ _ _ hrun _ ↦ ?_
  cases hrun
  have hkind' := (Session.kind_passed session).trans hkind
  have hword : cardinality.wording.Says session.passed.cursor.here := by
    cases cardinality <;> exact Wording.says_mark hkind' rfl
  have hend : session.passed.cursor.kind ≠ .endOfInput := by
    rw [hkind']
    cases cardinality <;> nofun
  have hsecond : Mirrors session.passed
      (fun later ↦ ∃ rest, later = cardinality.wording :: .sign .rightBracket :: rest ∧ Plain rest)
      EndsNode [] (fun _ ↦ ()) advance advance fun _ ↦ [cardinality.wording] :=
    .advance hword hend fun _ ⟨rest, heq, hrest⟩ ↦ ⟨rest, congrArg (List.cons _) heq, hrest⟩
  refine hsecond.bind_of_run fun _ _ _ hrun _ ↦ ?_
  cases hrun
  have hclose' := (Session.kind_passed _).trans ((Session.peekKind_passed _ _).trans hclose)
  have hthird : Mirrors session.passed.passed EndsNode Plain [] (fun _ ↦ ()) advance advance
      fun _ ↦ [.sign .rightBracket] :=
    .advance_mark hclose' nofun rfl fun later h ↦ ⟨later, rfl, h⟩
  exact hthird.bind fun _ _ _ _ ↦ .done rfl rfl

/-- A node that is no dummy, from its quantifier on. -/
theorem mirrors_properNode (hs : scope.Mirroring) :
    Mirrors session (Grouped false session) Plain [] Draft.bare
      (do
        let quantifier ← quantifier?
        let _ ← expect (.symbol .leftBracket)
        let label ← label?
        let (marker, content) ← markedContent scope
        pure ⟨.properNode label, .optional quantifier
          (.optional marker (.optional content.constraint (.optional content.children .nil)))⟩)
      (do
        let quantifier ← quantifier?
        let _ ← expect (.symbol .leftBracket)
        let label ← label?
        let (marker, content) ← markedContent scope
        pure ⟨.properNode label, .optional quantifier
          (.optional marker (.optional content.constraint (.optional content.children .nil)))⟩)
      Draft.wordings := by
  have hquantifier : Mirrors session (Grouped false session)
      (fun later ↦ Counted later ∧ later.head? = some (.sign .leftBracket)) []
      (Option.map Tree.bare) quantifier? quantifier?
      fun quantifier? ↦ quantifier?.elim [] Phrase.wordings :=
    mirrors_quantifier?_of_bracket hs.progressive rfl
  have hopening (session : Session) : Mirrors session
      (fun later ↦ Counted later ∧ later.head? = some (.sign .leftBracket)) Plain [] (fun _ ↦ ())
      (expect (.symbol .leftBracket)) (expect (.symbol .leftBracket))
      fun _ ↦ [.sign .leftBracket] :=
    .expect_mark nofun rfl fun _ h ↦ ⟨.border h rfl, rfl⟩
  refine hquantifier.bind fun _ _ _ hquantifier ↦ (hopening _).bind fun _ _ _ _ ↦
    mirrors_label?.bind_same fun label _ ↦ ?_
  refine (mirrors_markedContent hs).bind fun marked marked' _ hmarked ↦ .done ?_ ?_
  · simp [Draft.wordings, Form.layout, markedWordings, NodeContent.wordings]
  · obtain ⟨hmarker, hcontent⟩ := Prod.mk.inj hmarked
    obtain ⟨hconstraint, hchildren⟩ := Prod.mk.inj hcontent
    simp [Draft.bare, Tree.bare, hquantifier, hmarker, hconstraint, hchildren]

theorem mirrors_node (hs : scope.Mirroring) :
    Mirrors session (Grouped false session) Plain [] Tree.bare (node scope) (node scope)
      Phrase.wordings := by
  cases hdummy : dummyAt? session.cursor.toPlace with
  | some cardinality =>
    have hnode : Mirrors session (Dummy cardinality) Plain [] Tree.bare (node scope) (node scope)
        Phrase.wordings := by
      refine .phrase (.look_same (fun copy later _ _ h hready ↦
        hdummy.trans (h.dummyAt?_eq hready).symm) ?_)
      rw [hdummy]
      exact mirrors_dummyNode hdummy
    refine hnode.weaken (fun _ ⟨rest, heq, hrest⟩ ↦ ?_) fun _ ↦ id
    subst heq
    have hclose : Plain (.sign .rightBracket :: rest) := hrest.mark rfl
    have hinner : Plain (cardinality.wording :: .sign .rightBracket :: rest) := by
      cases cardinality <;> exact .cons hclose.toSettled rfl nofun nofun
    have hopening :
        Open (.sign .leftBracket :: cardinality.wording :: .sign .rightBracket :: rest) :=
      .border hinner rfl
    exact grouped_of_bracket (show isBracket .leftBracket = true from rfl) hopening rfl
  | none =>
    refine .phrase (.look_same (fun copy later hclosing hspells h hready ↦
      hdummy.trans (dummyAt?_eq_none hdummy hready h.toSettled hspells hclosing).symm) ?_)
    rw [hdummy]
    exact mirrors_properNode hs

end Grammar

end CorpusQuery
