import CorpusQuery.Proofs.Spelling.Statement

/-!
Queries in a copy. `ALL` is a payload where nothing follows it, which holds of a copy where it holds
of the tokens. A selection is a constraint if one reaches the end of the input; where there is none
in the tokens there is none in a copy either, so the copy goes on to the same structural selection.
-/

set_option autoImplicit false
set_option relaxedAutoImplicit false

namespace CorpusQuery

open CorpusQuery.Parser

namespace Grammar

variable {scope : Scope} {session : Session}

theorem mirrors_clause (hs : scope.Mirroring) {word connective : Keyword}
    (hword : (Kind.keyword word).isMark = true)
    (hconnective : (Kind.keyword connective).isMark = true) :
    Mirrors session Plain Plain [] (Option.map Tree.bare) (scope.clause word connective)
      (scope.clause word connective) fun clause? ↦
        clause?.elim [] fun clause ↦ .word word :: .word connective :: Phrase.wordings clause := by
  refine .plain_behind hword fun _ ↦ (Mirrors.plain_expect hconnective).bind fun _ _ _ _ ↦ ?_
  exact (hs.expression 0 _).onto fun _ ↦ rfl

/-! ### Payloads -/

theorem writes_bindingModifiers :
    Mirrors.Writes bindingModifiers BindingModifier.wording := by
  unfold Mirrors.Writes bindingModifiers
  decide

theorem mirrors_binding (hscope : scope.Progressive) :
    Mirrors session Plain Plain [] Tree.bare binding binding Phrase.wordings := by
  have hmodifier : Mirrors session Plain Plain [] id (oneOf bindingModifiers)
      (oneOf bindingModifiers) fun modifier ↦ modifier.toList.map BindingModifier.wording := by
    refine .oneOf writes_bindingModifiers (fun _ h ↦ h.toSettled) (fun row hrow _ h ↦ ?_)
      fun _ ↦ id
    obtain ⟨hwrite, -⟩ := writes_bindingModifiers row hrow
    rw [hwrite]
    refine .lexeme h.toSettled ?_
    revert row
    decide
  refine .phrase (hmodifier.bind_same fun modifier _ ↦ ?_)
  refine (Mirrors.plain_separatedBy hscope .memberName rfl fun _ ↦ mirrors_memberName).bind
    fun members members' _ hmembers ↦ ?_
  rw [List.map_id, List.map_id] at hmembers
  subst hmembers
  refine (Mirrors.plain_expect rfl).bind fun _ _ _ _ ↦ ?_
  refine mirrors_identifier.bind_same fun source _ ↦ .done ?_ rfl
  simp [Draft.wordings, Form.layout, Wording.separated_map, Wording.word, Wording.sign]

/-- Bindings stand outside of markers, so the word between them is not one of two synonyms. -/
theorem mirrors_bindings (hscope : scope.Progressive) :
    Mirrors session Plain Plain [] (List.map Tree.bare) bindings bindings
      (led [.word .withKw] [.word .and] Phrase.wordings) := by
  refine .plain_consume_then rfl (fun _ ↦ ?_) fun _ ↦ .done rfl rfl
  exact .separatedBy_onto hscope .binding nofun rfl (fun _ h ↦ h.reads_and)
    (fun _ h ↦ .lexeme h.toSettled nofun) (fun _ ↦ mirrors_binding hscope) fun _ _ ↦ rfl

/-- A query with its bindings, its filter and its selection. -/
def query (scope : Scope) : Parser (Draft .payload) := do
  let bindings ← bindings
  let filter ← scope.clause .filter .byKw
  let _ ← expect (.keyword .find)
  let selection ← scope.selection
  pure ⟨.query, .many bindings (.optional filter (.one selection .nil))⟩

theorem mirrors_query (hs : scope.Mirroring) :
    Mirrors session Plain Plain [] Draft.bare (query scope) (query scope) Draft.wordings := by
  refine (mirrors_bindings hs.progressive).bind fun bindings bindings' _ hbindings ↦ ?_
  refine (mirrors_clause hs rfl rfl).bind fun filter filter' _ hfilter ↦ ?_
  refine (Mirrors.plain_expect rfl).bind fun _ _ _ _ ↦ ?_
  refine (hs.selection _).bind fun _ _ _ hselection ↦ .done ?_ ?_
  · simp [Draft.wordings, Form.layout, Tree.write_many_led, Wording.word]
  · simp [Draft.bare, Tree.bare, hbindings, hfilter, hselection]

/-- No query begins with a star, the symbol for which `ALL` is the word. -/
theorem query_ne_ok_of_star (h : session.cursor.kind = .symbol .star) (value : Draft .payload)
    (last : Session) : query scope session ≠ .ok value last := by
  have hwith : session.cursor.kind ≠ .keyword .withKw := h ▸ nofun
  have hbindings : bindings session = .ok [] (session.tested (.single (.keyword .withKw))) := by
    rw [bindings, bind_of_ok (consume_of_ne hwith)]
    rfl
  generalize htested : session.tested (.single (.keyword .withKw)) = tested at hbindings
  have hstar : tested.cursor.kind = .symbol .star := htested ▸ h
  have hfilter : tested.cursor.kind ≠ .keyword .filter := hstar ▸ nofun
  have hclause : scope.clause .filter .byKw tested =
      .ok none (tested.tested (.single (.keyword .filter))) := by
    rw [Scope.clause, behind, bind_of_ok (consume_of_ne hfilter)]
    rfl
  have hfind : (tested.tested (.single (.keyword .filter))).cursor.kind ≠ .keyword .find := by
    change tested.cursor.kind ≠ _
    exact hstar ▸ nofun
  rw [query, bind_of_ok hbindings, bind_of_ok hclause, bind_of_error (expect_of_ne hfind)]
  nofun

/-- Whether `ALL` is all there is. -/
def atEverything (place : Place) : Bool :=
  place.kind == .keyword .all && place.peekKind 1 == .endOfInput

theorem atEverything_of_ready {copy : Session} {later : List Wording}
    (hready : Ready session copy later) (hsettled : Settled later)
    (hspells : Spells later session.rest) (hstar : session.cursor.kind ≠ .symbol .star) :
    atEverything session.cursor.toPlace = atEverything copy.cursor.toPlace := by
  have hall : session.cursor.kind = .keyword .all ↔ copy.cursor.kind = .keyword .all := by
    rcases hready.kin hsettled hspells with heq | ⟨synonym, hother, husual⟩
    · exact iff_of_eq (congrArg (· = _) heq)
    · change copy.cursor.kind = _ at husual
      change session.cursor.kind = _ at hother
      cases synonym with
      | universal => exact absurd hother hstar
      | _ =>
        rw [hother, husual]
        exact ⟨nofun, nofun⟩
  by_cases hcopy : copy.cursor.kind = .keyword .all
  · have hleads : copy.cursor.kind.leadsArgument = false := by
      rw [hcopy]
      rfl
    have hend : (session.cursor.peekKind 1 == .endOfInput) =
        (copy.cursor.peekKind 1 == .endOfInput) := by
      refine (hready.kin_one hsettled hspells hleads).view_eq (· == .endOfInput) fun synonym ↦ ?_
      cases synonym <;> rfl
    rw [atEverything, atEverything, beq_iff_eq.mpr (hall.mpr hcopy), beq_iff_eq.mpr hcopy, hend]
  · rw [atEverything, atEverything, beq_false_of_ne hcopy,
      beq_false_of_ne fun h ↦ hcopy (hall.mp h), Bool.false_and, Bool.false_and]

theorem mirrors_payload (hs : scope.Mirroring) :
    Mirrors session Plain Plain [] Tree.bare (payload scope) (payload scope) Phrase.wordings := by
  let question : Parser Bool := do
    let isAll ← check (.keyword .all)
    let isLast ← look (·.peekKind 1 == .endOfInput)
    pure (isAll && isLast)
  have hpayload : payload scope = phrase (question >>= fun found ↦
      if found then advance >>= fun _ ↦ pure ⟨.everything, .nil⟩ else query scope) := by
    simp only [payload, question, query, bind_assoc, pure_bind]
  have hrun (session : Session) : question session =
      .ok (atEverything session.cursor.toPlace) (session.tested (.single (.keyword .all))) := rfl
  rw [hpayload]
  refine .phrase ?_
  by_cases hstar : session.cursor.kind = .symbol .star
  · refine .of_error fun value last hresult ↦ ?_
    have hfalse : atEverything session.cursor.toPlace = false := by
      rw [atEverything, hstar]
      rfl
    rw [bind_of_ok (hrun session), hfalse] at hresult
    have hstar' : (session.tested (.single (.keyword .all))).cursor.kind = .symbol .star := hstar
    exact query_ne_ok_of_star hstar' value last hresult
  refine .inquire Eq (hrun session) (.tested _ _) rfl (fun copy later _ hspells h hready ↦ ?_) ?_
  · exact ⟨_, _, hrun copy, .tested _ _,
      atEverything_of_ready hready h.toSettled hspells hstar⟩
  rintro _ rfl
  cases hfound : atEverything session.cursor.toPlace with
  | false => exact mirrors_query hs
  | true =>
    obtain ⟨hall, -⟩ := Bool.and_eq_true_iff.mp hfound
    have hword : Mirrors (session.tested (.single (.keyword .all))) Plain Plain [] (fun _ ↦ ())
        advance advance fun _ ↦ [.word .all] :=
      .advance_mark (beq_iff_eq.mp hall) nofun rfl fun _ h ↦ .lexeme h.toSettled nofun
    exact hword.bind fun _ _ _ _ ↦ .done rfl rfl

/-! ### Selections -/

theorem mirrors_having? (hs : scope.Mirroring) :
    Mirrors session Plain Plain [] (Option.map Tree.bare) (having? scope) (having? scope)
      fun having? ↦ having?.elim [] fun having ↦ .word .having :: Phrase.wordings having :=
  .plain_behind rfl (hs.expression 0)

theorem mirrors_lane (hs : scope.Mirroring) :
    Mirrors session Open Plain [] Tree.bare (lane scope) (lane scope) Phrase.wordings := by
  have hword : Mirrors session Open Plain [] (fun _ ↦ ()) (expect (.keyword .lane))
      (expect (.keyword .lane)) fun _ ↦ [.word .lane] :=
    .expect_mark nofun rfl fun _ h ↦ .border h rfl
  refine .phrase (hword.bind fun _ _ _ _ ↦ mirrors_identifier.bind_same fun name _ ↦ ?_)
  refine (Mirrors.plain_behind rfl fun _ ↦ mirrors_memberName).bind fun label label' _ hlabel ↦ ?_
  rw [Option.map_id, id_eq, id_eq] at hlabel
  subst hlabel
  refine ((hs.structuralConstraint _).weaken (fun _ h ↦ h.toPlain) fun _ ↦ id).bind
    fun _ _ _ hconstraint ↦ .done ?_ ?_
  · simp [Draft.wordings, Form.layout, Wording.word]
  · simp [Draft.bare, Tree.bare, hconstraint]

theorem mirrors_plainSelection (hs : scope.Mirroring) :
    Mirrors session Plain Plain [] Draft.bare (plainSelection scope) (plainSelection scope)
      Draft.wordings := by
  refine (hs.expression 0 _).bind fun _ _ _ hconstraint ↦ ?_
  refine (Mirrors.expect_end (fun _ h ↦ h.toSettled) fun _ ↦ id).bind fun _ _ _ _ ↦ .done ?_ ?_
  · simp [Draft.wordings, Form.layout]
  · simp [Draft.bare, Tree.bare, hconstraint]

theorem mirrors_structuralSelection (hs : scope.Mirroring) :
    Mirrors session Open Plain [] Draft.bare (structuralSelection scope)
      (structuralSelection scope) Draft.wordings := by
  refine .check rfl (fun _ h ↦ h.toSettled) ?_
  split
  · refine (Mirrors.separatedBy hs.progressive .lane nofun rfl (fun _ (h : Plain _) ↦ h.reads_and)
      (fun _ h ↦ .lexeme h.toSettled nofun) fun _ ↦ mirrors_lane hs).bind fun _ _ _ hlanes ↦ ?_
    refine (mirrors_having? hs).bind fun having having' _ hhaving ↦ .done ?_ ?_
    · simp [Draft.wordings, Form.layout, Wording.word]
    · simp [Draft.bare, hlanes, hhaving]
  · refine (hs.structuralConstraint _).bind fun _ _ _ hconstraint ↦ ?_
    refine (mirrors_having? hs).bind fun having having' _ hhaving ↦ .done ?_ ?_
    · simp [Draft.wordings, Form.layout]
    · simp [Draft.bare, Tree.bare, hconstraint, hhaving]

theorem mirrors_selection (hs : scope.Mirroring) :
    Mirrors session Plain Plain [] Tree.bare (selection scope) (selection scope)
      Phrase.wordings := by
  rw [selection_eq_either]
  have halike : Alike scope scope (plainSelection scope) (plainSelection scope) :=
    alike_plainSelection
  have hfirst {session : Session} : Mirrors session Plain Plain [] Draft.bare
      (plainSelection scope >>= pure) (plainSelection scope >>= pure) Draft.wordings := by
    rw [bind_pure]
    exact mirrors_plainSelection hs
  refine .phrase (.either (halike.sticky hs.sticky) hfirst
    (fun failure failed hrun hnone copy later hclosing hspells hopen hready ↦ ?_)
    (fun _ (h : Open _) ↦ h.toPlain) fun other _ ↦ ?_)
  · exact (shadows_plainSelection hs.shadowsExpression).fails
      ⟨hclosing, later, hopen, hspells, hready⟩ hrun hnone
  · rw [bind_pure]
    exact .attempt (mirrors_structuralSelection hs)

/-! ### Groups -/

theorem mirrors_groupExpression (hs : scope.Mirroring) :
    Mirrors session Plain Plain [] Tree.bare (groupExpression scope) (groupExpression scope)
      Phrase.wordings := by
  refine .phrase ((Mirrors.plain_expect rfl).bind fun _ _ _ _ ↦ ?_)
  refine (hs.expression 0 _).bind fun _ _ _ hselector ↦ ?_
  refine (mirrors_clause hs rfl rfl).bind fun _ _ _ hfilter ↦ ?_
  refine (Mirrors.plain_expect rfl).bind fun _ _ _ _ ↦ ?_
  refine (Mirrors.plain_text rfl).bind fun label label' _ hlabel ↦ ?_
  refine (Mirrors.plain_behind rfl (hs.expression 0)).bind fun _ _ _ hreplacement ↦ .done ?_ ?_
  · simp [Draft.wordings, Form.layout, Wording.word]
  · simp [Draft.bare, Tree.bare, hselector, hfilter, hlabel, hreplacement]

theorem mirrors_group (hs : scope.Mirroring) :
    Mirrors session Plain Plain [] Tree.bare (group scope) (group scope) Phrase.wordings := by
  refine .phrase ((Mirrors.plain_expect rfl).bind fun _ _ _ _ ↦ ?_)
  refine (Mirrors.plain_separatedBy hs.progressive .groupExpression rfl
    fun _ ↦ mirrors_groupExpression hs).bind fun _ _ _ hexpressions ↦ .done ?_ ?_
  · simp [Draft.wordings, Form.layout, Wording.word, Wording.sign]
  · simp [Draft.bare, hexpressions]

/-! ### Results -/

theorem mirrors_resultLimit? :
    Mirrors session Plain Plain [] (Option.map Tree.bare) resultLimit? resultLimit?
      fun limit? ↦ limit?.elim [] Phrase.wordings := by
  refine .plain_check rfl (fun hkind ↦ ?_) (.done rfl rfl)
  have hkind' : (session.tested (.single (.keyword .limit))).cursor.kind = .keyword .limit := hkind
  refine Mirrors.map (f := some)
    (.phrase ((Mirrors.plain_advance hkind' rfl).bind fun _ _ _ _ ↦ ?_))
    (fun _ ↦ rfl) fun _ _ hview ↦ congrArg some hview
  refine (Mirrors.plain_consume rfl).bind_same fun first _ ↦ ?_
  refine (mirrors_integer fun _ _ ↦ .number).bind_same fun value _ ↦ .done ?_ rfl
  simp [Draft.wordings, Form.layout, Wording.word]

theorem writes_directions : Mirrors.Writes directions Direction.wording := by
  unfold Mirrors.Writes directions
  decide

theorem mirrors_orderExpression (hs : scope.Mirroring) :
    Mirrors session Plain Plain [] Tree.bare (orderExpression scope) (orderExpression scope)
      Phrase.wordings := by
  refine .phrase ((hs.expression 0 _).bind fun _ _ _ hexpression ↦ ?_)
  refine .oneOf_then writes_directions (fun _ h ↦ h.toSettled) (fun row hrow _ (h : Plain _) ↦ ?_)
    (fun direction _ ↦ .done ?_ ?_) fun _ ↦ .of_error fun _ _ h ↦ by cases h
  · obtain ⟨hwrite, -⟩ := writes_directions row hrow
    rw [hwrite]
    refine .lexeme h.toSettled ?_
    revert row
    decide
  · simp [Draft.wordings, Form.layout]
  · simp [Draft.bare, Tree.bare, hexpression]

theorem mirrors_orders (hs : scope.Mirroring) :
    Mirrors session Plain Plain [] (List.map Tree.bare) (orders scope) (orders scope)
      (led [.word .order, .word .byKw] [.sign .comma] Phrase.wordings) := by
  refine .plain_consume_then rfl (fun _ ↦ ?_) fun _ ↦ .done rfl rfl
  refine (Mirrors.plain_expect rfl).bind fun _ _ _ _ ↦ ?_
  exact .plain_led hs.progressive .orderExpression rfl fun _ ↦ mirrors_orderExpression hs

theorem mirrors_result (hs : scope.Mirroring) :
    Mirrors session Plain Plain [] Tree.bare (result scope) (result scope) Phrase.wordings := by
  refine .look (fun _ _ ↦ True) trivial (fun _ _ _ _ _ _ ↦ trivial) fun _ _ ↦ ?_
  refine mirrors_resultLimit?.bind fun limit limit' _ hlimit ↦ ?_
  refine (mirrors_orders hs).bind fun order order' _ horder ↦ ?_
  refine .look (fun _ _ ↦ True) trivial (fun _ _ _ _ _ _ ↦ trivial) fun _ _ ↦ .done ?_ ?_
  · change Draft.wordings ⟨.result, .optional limit (.many order .nil)⟩ = _
    simp [Draft.wordings, Form.layout, Tree.write_many_led]
  · simp [Tree.bare, hlimit, horder]

end Grammar

end CorpusQuery
