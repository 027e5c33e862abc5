import CorpusQuery.Proofs.Acceptance.HonestStatement
import CorpusQuery.Proofs.Spelling.Query

/-!
Queries are honest. The end of the input is the one token that no parse passes: where it stands at
the fork in one of the lists, the parse over that list can end there (`Fork.Reaches`).
-/

set_option autoImplicit false
set_option relaxedAutoImplicit false

namespace CorpusQuery

open CorpusQuery.Parser CorpusQuery.Grammar CorpusQuery.Fork

namespace Grammar

variable {fork : Fork} {scope : Scope} {stray : Stray} {given : Place → Prop}

/-! ### The end of the input -/

section End

/-- The end of the input at the verge is taken, and the parse stays there if it is the last
token. -/
theorem expect_end_at {verge : Verge} {session : Session} (hat : verge.At session.cursor.toPlace)
    (hkind : verge.kind = .endOfInput) :
    ∃ token after, expect .endOfInput session = .ok token after ∧
      (verge.coupling.past after.cursor.toPlace ∨ verge.At after.cursor.toPlace) := by
  refine ⟨_, _, expect_of_kind (hat.kind_eq.trans hkind), ?_⟩
  rcases hahead : session.cursor.ahead with - | ⟨next, rest⟩
  · have hstay : (session.tested (.single .endOfInput)).cursor.advance =
        (session.tested (.single .endOfInput)).cursor := Cursor.advance_of_nil hahead
    refine .inr ?_
    change verge.At (session.tested (.single .endOfInput)).cursor.advance.toPlace
    rw [hstay]
    exact hat
  · have hbegins : verge.start.Begins (session.tested (.single .endOfInput)).cursor.toPlace := hat.1
    refine .inl (Verge.past_of_lt hbegins.advance ?_)
    have hposition : (session.tested (.single .endOfInput)).passed.cursor.position =
        session.cursor.position + 1 :=
      Cursor.position_advance_of_ne_nil (show session.cursor.ahead ≠ [] from hahead ▸ nofun)
    have hindex := hat.2
    change session.cursor.position = verge.index at hindex
    omega

theorem honest_expect_end :
    Honest fork (fork.Reaches (.single .endOfInput)) given unseen (expect .endOfInput)
      (expect .endOfInput) := by
  have haloof {verge : Verge} : Aloof verge.coupling (expect .endOfInput) :=
    .of_elementary verge.lawful (.expect _)
  have hends {verge : Verge} {session : Session} (hat : verge.At session.cursor.toPlace)
      (hkind : verge.kind = .endOfInput) :
      verge.coupling.Escapes (expect .endOfInput session) ∨ ∃ token after,
        expect .endOfInput session = .ok token after ∧ verge.At after.cursor.toPlace := by
    obtain ⟨token, after, hrun, hpast | hlast⟩ := expect_end_at hat hkind
    · rw [hrun]
      exact .inl (.inr hpast)
    · exact .inr ⟨token, after, hrun, hlast⟩
  refine .of_cases ⟨haloof, haloof, fun session copy hsessions h ↦ ?_⟩ ?_
  · have hleft := hsessions.at_left h.2
    have hright := hsessions.at_right h.2
    by_cases hkind : fork.left.kind = .endOfInput
    · rcases hends hleft hkind with hescapes | ⟨token, after, hrun, hlast⟩
      · exact .left hescapes
      · rw [hrun]
        exact .stray (.left hlast (by rw [hkind]; rfl))
    by_cases hkind' : fork.right.kind = .endOfInput
    · rcases hends hright hkind' with hescapes | ⟨token, after, hrun, hlast⟩
      · exact .right hescapes
      · rw [hrun]
        exact .stray (.right hlast (by rw [hkind']; rfl))
    · have htested := hsessions.tested (.single .endOfInput) fun _ ↦ by
        rw [KindSet.contains_single]
        exact decide_eq_false hkind'
      rw [expect_of_ne (show session.cursor.kind ≠ _ from hleft.kind_eq ▸ hkind),
        expect_of_ne (show copy.cursor.kind ≠ _ from hright.kind_eq ▸ hkind')]
      exact .error (htested.spares_failure _) htested.spared
  · have h : Honest fork (fork.Reaches (.single .endOfInput))
        (fun place ↦ given place ∧ fork.Ample 1 place) unseen
        (expect .endOfInput >>= Pure.pure) (expect .endOfInput >>= Pure.pure) := by
      rw [Honest.expect_bind]
      exact .check_then (fun _ h ↦ h.2.clear _)
        (.pass_one (fun _ h ↦ h.2.1) fun _ ↦ .pure rfl) .fail
    rwa [bind_pure] at h

end End

/-! ### Selections -/

section Selections

theorem honest_having? (hs : fork.Scopes scope) :
    Honest fork stray given unseen (having? scope) (having? scope) :=
  (Honest.behind (by nofun) hs.loose).blind

theorem honest_lane (hs : fork.Scopes scope) :
    Honest fork stray given unseen (lane scope) (lane scope) := by
  refine .phrase_blind ?_
  exact (Honest.expect (by nofun)).bind fun _ _ _ ↦ honest_identifier.bind fun _ _ _ ↦
    (Honest.behind (by nofun) honest_memberName).bind fun _ _ _ ↦
      (hs.rule .structuralConstraint rfl).bind fun _ _ _ ↦ .pure rfl

theorem honest_plainSelection (hs : fork.Scopes scope) :
    Honest fork (fork.Reaches (.single .endOfInput)) given unseen (plainSelection scope)
      (plainSelection scope) := by
  refine (hs.loose).bind fun _ _ _ ↦ ?_
  exact honest_expect_end.finish fun _ _ _ ↦ rfl

theorem honest_structuralSelection (hs : fork.Scopes scope) :
    Honest fork stray given unseen (structuralSelection scope) (structuralSelection scope) := by
  have hlane (kind : Kind) (h : (KindSet.single (.keyword .lane)).contains kind = true) :
      kind = .keyword .lane := by
    rwa [KindSet.contains_single, decide_eq_true_eq] at h
  refine .gate (fun h ↦ Verge.crosses_structuralSelection hs.left (hlane _ h))
    (fun h ↦ Verge.crosses_structuralSelection hs.right (hlane _ h))
    (.check_then (fun _ h ↦ h.2) ?_ ?_)
  · exact (Honest.separatedBy (by nofun) (honest_lane hs) (honest_lane hs)).bind fun _ _ _ ↦
      (honest_having? hs).bind fun _ _ _ ↦ .pure rfl
  · exact (hs.rule .structuralConstraint rfl).bind fun _ _ _ ↦
      (honest_having? hs).bind fun _ _ _ ↦ .pure rfl

theorem honest_selection (hs : fork.Scopes scope) :
    Honest fork (fork.Reaches (.single .endOfInput)) given unseen (selection scope)
      (selection scope) := by
  rw [selection_eq_either]
  refine .phrase_blind (.either_stray hs.left.retreats.selection.attempt (honest_plainSelection hs)
    (fun _ _ _ ↦ .pure rfl) (honest_structuralSelection hs).attempt (fun _ _ _ ↦ .pure rfl)
    fun session copy _ _ hstray ↦ ?_)
  rcases hstray.cases with ⟨draft, after, hrun, hat, hkind⟩ | ⟨draft, after, hrun, hat, hkind⟩
  · rw [either_of_ok hrun]
    exact .stray (.left hat hkind)
  · rw [either_of_ok hrun]
    exact .stray (.right hat hkind)

end Selections

/-! ### Payloads -/

section Payloads

theorem honest_clause (hs : fork.Scopes scope) (word connective : Keyword) :
    Honest fork stray given unseen (scope.clause word connective) (scope.clause word connective) :=
  (Honest.behind (by nofun) ((Honest.expect (by nofun)).bind fun _ _ _ ↦ hs.loose)).blind

theorem honest_binding : Honest fork stray given unseen binding binding := by
  have hmodifier : Honest fork Never given (Option.map unseen) (oneOf bindingModifiers)
      (oneOf bindingModifiers) := .oneOf rfl
  refine .phrase_blind (hmodifier.bind fun _ _ _ ↦ ?_)
  exact (Honest.separatedBy (by nofun) honest_memberName honest_memberName).bind fun _ _ _ ↦
    (Honest.expect (by nofun)).bind fun _ _ _ ↦ honest_identifier.bind fun _ _ _ ↦ .pure rfl

theorem honest_bindings : Honest fork stray given unseen bindings bindings :=
  .consume_then (by nofun)
    (Honest.separatedBy (by nofun) honest_binding honest_binding).blind (.pure rfl)

theorem alike_query : Alike scope scope (query scope) (query scope) :=
  .bind alike_bindings fun _ ↦ .bind (alike_clause _ _) fun _ ↦ .bind (.elementary (.expect _))
    fun _ ↦ .bind (.nested .selection) fun _ ↦ .pure _

theorem honest_query (hs : fork.Scopes scope) :
    Honest fork (fork.Reaches (.single .endOfInput)) given unseen (query scope) (query scope) := by
  have hselection {given : Place → Prop} : Honest fork (fork.Reaches (.single .endOfInput)) given
      unseen scope.selection scope.selection := (hs.nested .selection).blind.anywhere
  refine honest_bindings.bind fun _ _ _ ↦ (honest_clause hs _ _).bind fun _ _ _ ↦
    (Honest.expect (by nofun)).bind fun _ _ _ ↦ .finish hselection fun _ _ _ ↦ ?_
  rfl

/-- A payload by whether `ALL` is at hand, and whether nothing follows it. -/
def payloadFrom (scope : Scope) (isAll isLast : Bool) : Parser (Draft .payload) :=
  if isAll && isLast then do
    let _ ← advance
    pure ⟨.everything, .nil⟩
  else
    query scope

theorem alike_payloadFrom (isAll isLast : Bool) :
    Alike scope scope (payloadFrom scope isAll isLast) (payloadFrom scope isAll isLast) :=
  .ite (.bind (.elementary .advance) fun _ ↦ .pure _) alike_query

theorem payloadFrom_of_false {isAll isLast : Bool} (h : (isAll && isLast) = false) :
    payloadFrom scope isAll isLast = query scope := if_neg (Bool.eq_false_iff.mp h)

/-- The draft of a payload. -/
def payloadDraft (scope : Scope) : Parser (Draft .payload) :=
  check (.keyword .all) >>= fun isAll ↦ look (·.peekKind 1 == .endOfInput) >>=
    payloadFrom scope isAll

theorem alike_payloadDraft : Alike scope scope (payloadDraft scope) (payloadDraft scope) :=
  .bind (.elementary (.check _)) fun _ ↦ .bind (.elementary (.look _)) fun _ ↦
    alike_payloadFrom _ _

theorem payloadDraft_run (session : Session) :
    payloadDraft scope session = payloadFrom scope (session.cursor.kind == .keyword .all)
      (session.cursor.toPlace.peekKind 1 == .endOfInput)
      (session.tested (.single (.keyword .all))) :=
  rfl

/-- `ALL` at the verge is all there is if it is the last token. -/
theorem crosses_payloadDraft {verge : Verge} (h : verge.kind = .keyword .all)
    (hlast : verge.next = .endOfInput) : verge.Crosses (payloadDraft scope) := by
  intro session hat
  rw [payloadDraft_run, show session.cursor.kind = _ from hat.kind_eq, hat.peekKind_one, h, hlast]
  exact .inr (hat.past_tested (h ▸ nofun) _)

theorem honest_payloadDraft_at (hs : fork.Scopes scope)
    (hat : ∀ place, given place → place.position = fork.left.index) :
    Honest fork (fork.Reaches (.single .endOfInput)) given unseen (payloadDraft scope)
      (payloadDraft scope) := by
  refine ⟨hs.left.alike alike_payloadDraft, hs.right.alike alike_payloadDraft,
    fun session copy hsessions h ↦ ?_⟩
  have hleft := hsessions.at_left (hat _ h)
  have hright := hsessions.at_right (hat _ h)
  by_cases hall' : fork.right.kind = .keyword .all
  · exact .right (crosses_payloadDraft hall' (hs.apt.last hall') copy hright)
  by_cases hall : fork.left.kind = .keyword .all ∧ fork.left.next = .endOfInput
  · exact .left (crosses_payloadDraft hall.1 hall.2 session hleft)
  have htested := hsessions.tested (.single (.keyword .all)) fun _ ↦ by
    rw [KindSet.contains_single]
    exact decide_eq_false hall'
  rw [payloadDraft_run, payloadDraft_run, payloadFrom_of_false, payloadFrom_of_false]
  · exact (honest_query hs).ends _ _ htested h
  · rw [show copy.cursor.kind = _ from hright.kind_eq, beq_false_of_ne hall', Bool.false_and]
  · rw [show session.cursor.kind = _ from hleft.kind_eq, hleft.peekKind_one]
    exact Bool.eq_false_iff.mpr fun hboth ↦ hall (by simpa using hboth)

/-- `ALL` right before the fork is all there is in the list that ends at the fork. -/
theorem honest_payloadFrom_beside (hs : fork.Scopes scope)
    (hposition : ∀ place, given place → place.position + 1 = fork.left.index)
    (hkind : ∀ place, given place → place.kind = .keyword .all) :
    Honest fork (fork.Reaches (.single .endOfInput)) given unseen
      (look (·.peekKind 1 == .endOfInput) >>= payloadFrom scope true)
      (look (·.peekKind 1 == .endOfInput) >>= payloadFrom scope true) := by
  have halike : Alike scope scope (look (·.peekKind 1 == .endOfInput) >>= payloadFrom scope true)
      (look (·.peekKind 1 == .endOfInput) >>= payloadFrom scope true) :=
    .bind (.elementary (.look _)) fun _ ↦ alike_payloadFrom _ _
  refine ⟨hs.left.alike halike, hs.right.alike halike, fun session copy hsessions h ↦ ?_⟩
  have hindex := hposition _ h
  have hposition' : copy.cursor.position + 1 = fork.right.index := by
    rw [hsessions.position_eq, fork.index_eq, hindex]
  have hne : session.cursor.kind ≠ .endOfInput :=
    show session.cursor.toPlace.kind ≠ _ from hkind _ h ▸ nofun
  have hne' : copy.cursor.kind ≠ .endOfInput := hsessions.kind_eq (Nat.le_of_eq hindex) ▸ hne
  rw [bind_look, bind_look, hsessions.peekKind_one_left hindex, hsessions.peekKind_one_right hindex]
  by_cases hend : fork.left.kind = .endOfInput
  · rw [hend]
    exact .stray (.left (Verge.at_passed hsessions.begins hindex hne) (by rw [hend]; rfl))
  by_cases hend' : fork.right.kind = .endOfInput
  · rw [hend']
    exact .stray (.right (Verge.at_passed hsessions.begins_copy hposition' hne')
      (by rw [hend']; rfl))
  · rw [beq_false_of_ne hend, beq_false_of_ne hend']
    exact (honest_query hs).ends session copy hsessions h

theorem honest_payload (hs : fork.Scopes scope) :
    Honest fork (fork.Reaches (.single .endOfInput)) given unseen (payload scope)
      (payload scope) := by
  change Honest _ _ _ _ (phrase (payloadDraft scope)) (phrase (payloadDraft scope))
  refine .phrase_blind (.of_cases (honest_payloadDraft_at hs fun _ h ↦ h.2)
    (.check_then (fun _ h ↦ h.2.clear _) (.of_either (fork.Ample 2) ?_ ?_)
      (.look_any fun _ _ ↦ honest_query hs)))
  · exact .look_same 2 peekKind_one_beq_of_peek (fun _ h ↦ h.2) fun isLast ↦
      .ite (.pass_one (fun _ h ↦ h.1.1.2.1) fun _ ↦ .pure rfl) (honest_query hs)
  · refine honest_payloadFrom_beside hs (fun place h ↦ ?_) fun place h ↦ by simpa using h.1.2.2
    have hample : place.position + 1 ≤ fork.left.index := h.1.2.1
    have hlt : ¬ place.position + 2 ≤ fork.left.index := h.2
    omega

end Payloads

/-! ### Shaping -/

section Shaping

theorem honest_groupExpression (hs : fork.Scopes scope) :
    Honest fork stray given unseen (groupExpression scope) (groupExpression scope) := by
  refine .phrase_blind ?_
  exact (Honest.expect (by nofun)).bind fun _ _ _ ↦ hs.loose.bind fun _ _ _ ↦
    (honest_clause hs _ _).bind fun _ _ _ ↦ (Honest.expect (by nofun)).bind fun _ _ _ ↦
      (Honest.expect (by nofun)).bind fun _ _ _ ↦ (Honest.behind (by nofun) hs.loose).bind
        fun _ _ _ ↦ .pure rfl

theorem honest_group (hs : fork.Scopes scope) :
    Honest fork stray given unseen (group scope) (group scope) := by
  refine .phrase_blind ((Honest.expect (by nofun)).bind fun _ _ _ ↦ ?_)
  exact (Honest.separatedBy (by nofun) (honest_groupExpression hs) (honest_groupExpression hs)).bind
    fun _ _ _ ↦ .pure rfl

/-- A limit behind its word. -/
def limitDraft : Parser (Draft .resultLimit) := do
  let _ ← advance
  let first ← consume (.keyword .first)
  let value ← integer
  pure ⟨.resultLimit first value, .nil⟩

theorem honest_resultLimit? (hs : fork.Scopes scope) :
    Honest fork stray given unseen resultLimit? resultLimit? := by
  have hcrosses {verge : Verge} (hv : verge.Scopes scope) (h : verge.kind = .keyword .limit) :
      verge.Crosses (some <$> phrase limitDraft) :=
    (Verge.Crosses.phrase ((Verge.Crosses.advance (h ▸ nofun)).bind fun _ ↦
      hv.alike (.bind (.elementary (.consume _)) fun _ ↦ .bind alike_integer fun _ ↦ .pure _))).map
  refine .check_cross (hcrosses hs.left) (hcrosses hs.right)
    (.map (.phrase_blind (.pass_one (fun _ h ↦ h.2.1) fun _ ↦ ?_)) fun _ _ _ ↦ rfl) (.pure rfl)
  exact (Honest.consume (by nofun)).bind fun _ _ _ ↦ honest_integer.bind fun _ _ _ ↦ .pure rfl

theorem honest_orderExpression (hs : fork.Scopes scope) :
    Honest fork stray given unseen (orderExpression scope) (orderExpression scope) := by
  refine .phrase_blind (hs.loose.bind fun _ _ _ ↦ .oneOf_then rfl (fun _ ↦ .pure rfl) ?_)
  exact .failMissing fun _ h ↦ h.1.2

theorem honest_orders (hs : fork.Scopes scope) :
    Honest fork stray given unseen (orders scope) (orders scope) := by
  refine .consume_then (by nofun) ((Honest.expect (by nofun)).bind fun _ _ _ ↦ ?_) (.pure rfl)
  exact (Honest.separatedBy (by nofun) (honest_orderExpression hs)
    (honest_orderExpression hs)).blind

theorem honest_result (hs : fork.Scopes scope) :
    Honest fork stray given unseen (result scope) (result scope) := by
  refine .look_any fun _ _ ↦ (honest_resultLimit? hs).bind fun _ _ _ ↦
    (honest_orders hs).bind fun _ _ _ ↦ .look_any fun _ _ ↦ ?_
  exact .pure rfl

end Shaping

end Grammar

end CorpusQuery
