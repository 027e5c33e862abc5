import CorpusQuery.Proofs.Acceptance.HonestMarker

/-!
Edges and the elements that they join are honest. An end of an edge is two tokens that touch, so the
second of them may stand at the fork: there it crosses, or it is missing in both parses, even where
not the same one is due (`Grammar.honest_otherHalf_at`). Whether an edge follows at all is seen by
two tokens, and an edge that is seen to reach the fork crosses (`Grammar.honest_atEdge_then`).
-/

set_option autoImplicit false
set_option relaxedAutoImplicit false

namespace CorpusQuery

open CorpusQuery.Parser CorpusQuery.Grammar CorpusQuery.Fork

namespace Grammar

variable {fork : Fork} {scope : Scope} {stray : Stray} {given : Place → Prop}

/-! ### Edges -/

section Edges

/-- The second of two tokens that touch. -/
def otherHalf (head tail : Kind) : Parser Unit := do
  expecting (.single tail)
  let complete ← look fun place ↦ place.touches 0 && place.kind == tail
  if complete then
    let _ ← advance
    pure ()
  else
    fail (.incompleteEdge head tail)

theorem alike_otherHalf (head tail : Kind) :
    Alike scope scope (otherHalf head tail) (otherHalf head tail) :=
  .bind (.elementary (.expecting _)) fun _ ↦ .bind (.elementary (.look _)) fun _ ↦
    .ite (.bind (.elementary .advance) fun _ ↦ .pure _) (.elementary (.fail _ rfl))

theorem otherHalf_of_touches {head tail : Kind} {session : Session}
    (h : (session.cursor.touches 0 && session.cursor.kind == tail) = true) :
    otherHalf head tail session = .ok () (session.tested (.single tail)).passed := by
  rw [otherHalf, bind_expecting, bind_look]
  exact congrFun (if_pos h) _

theorem otherHalf_of_not {head tail : Kind} {session : Session}
    (h : (session.cursor.touches 0 && session.cursor.kind == tail) = false) :
    otherHalf head tail session = .error
      ((session.tested (.single tail)).cursor.failure (.incompleteEdge head tail))
      (session.tested (.single tail)) := by
  rw [otherHalf, bind_expecting, bind_look]
  exact congrFun (if_neg (Bool.eq_false_iff.mp h)) _

/-- At the fork the second token crosses, or it is missing in both parses. What is due may differ
there if the second list has neither. -/
theorem honest_otherHalf_at (hs : fork.Scopes scope) {head tail tail' : Kind}
    (hend : tail ≠ .endOfInput) (hend' : tail' ≠ .endOfInput)
    (htail : fork.right.kind = tail → fork.right.kind = tail')
    (hpassed : ∀ place, given place → 0 < place.position)
    (hat : ∀ place, given place → place.position = fork.left.index) :
    Honest fork stray given unseen (otherHalf head tail) (otherHalf head tail') := by
  refine ⟨hs.left.alike (alike_otherHalf _ _), hs.right.alike (alike_otherHalf _ _),
    fun session copy hsessions h ↦ ?_⟩
  have hleft := hsessions.at_left (hat _ h)
  have hright := hsessions.at_right (hat _ h)
  have htouches := touches_right hs.apt hsessions (hpassed _ h) (hat _ h)
  by_cases hkind' : fork.right.kind = tail'
  · have hcomplete : (copy.cursor.touches 0 && copy.cursor.kind == tail') = true := by
      rw [htouches, show copy.cursor.kind = fork.right.kind from hright.kind_eq]
      exact beq_iff_eq.mpr hkind'
    rw [otherHalf_of_touches hcomplete]
    exact .right (.inr (hright.past_tested (hkind' ▸ hend') _))
  · have hincomplete : (copy.cursor.touches 0 && copy.cursor.kind == tail') = false := by
      rw [show copy.cursor.kind = fork.right.kind from hright.kind_eq, beq_false_of_ne hkind',
        Bool.and_false]
    rw [otherHalf_of_not hincomplete]
    cases hcomplete : session.cursor.touches 0 && session.cursor.kind == tail with
    | true =>
      have hkind : fork.left.kind = tail :=
        hleft.kind_eq.symm.trans (beq_iff_eq.mp (Bool.and_eq_true_iff.mp hcomplete).2)
      rw [otherHalf_of_touches hcomplete]
      exact .left (.inr (hleft.past_tested (hkind ▸ hend) _))
    | false =>
      have htested := hsessions.tested (.single tail) fun _ ↦ by
        rw [KindSet.contains_single]
        exact decide_eq_false fun hkind ↦ hkind' (htail hkind)
      rw [otherHalf_of_not hcomplete]
      exact .error (htested.spares_failure _) htested.spared

theorem honest_halves (hs : fork.Scopes scope) {head tail : Kind} (hhead : head ≠ .endOfInput)
    (hend : tail ≠ .endOfInput) :
    Honest fork stray given unseen (halves head tail) (halves head tail) := by
  refine .expect_then (by exact hhead) fun _ ↦ .of_cases
    (honest_otherHalf_at hs hend hend (fun h ↦ h) (fun _ h ↦ h.1) fun _ h ↦ h.2) ?_
  refine .expecting_then (fun _ h ↦ h.2.clear _) (.look_equal (fun session copy hsessions h ↦ ?_)
    fun complete ↦ .ite (.pass_one (fun _ h ↦ h.1.2) fun _ ↦ .pure rfl) .fail)
  rw [hsessions.touches_eq h.2, hsessions.kind_eq h.2]

/-- An end of an edge, by whether its two tokens are at hand. -/
def endFrom (head tail : Kind) (atHead atTail : Bool) : Parser EdgeEnd :=
  if atHead && atTail then do
    halves head tail
    pure .directed
  else do
    halves (.symbol .minus) (.symbol .minus)
    pure .undirected

theorem honest_endFrom (hs : fork.Scopes scope) {head tail : Kind} (hhead : head ≠ .endOfInput)
    (hend : tail ≠ .endOfInput) (atHead atTail : Bool) :
    Honest fork stray given unseen (endFrom head tail atHead atTail)
      (endFrom head tail atHead atTail) :=
  .ite ((honest_halves hs hhead hend).finish fun _ _ _ ↦ rfl)
    ((honest_halves hs (by nofun) (by nofun)).finish fun _ _ _ ↦ rfl)

theorem peekKind_one_beq_of_peek {kind : Kind} (place other : Place)
    (h : ∀ i < 2, other.peek i = place.peek i) :
    (other.peekKind 1 == kind) = (place.peekKind 1 == kind) := by
  rw [peekKind_eq_of_peek h Nat.one_lt_two]

/-- An end of an edge that stands before the fork. -/
theorem honest_edgeEnd (hs : fork.Scopes scope) {head tail : Kind} (hhead : head ≠ .endOfInput)
    (hend : tail ≠ .endOfInput) (hample : ∀ place, given place → fork.Ample 2 place) :
    Honest fork stray given unseen (edgeEnd head tail) (edgeEnd head tail) :=
  .check_then (fun place h ↦ ((hample place h).mono (by decide)).clear _)
    (.look_same 2 peekKind_one_beq_of_peek (fun place h ↦ hample place h.1) fun atTail ↦
      honest_endFrom hs hhead hend true atTail)
    (.look_any fun _ _ ↦ honest_endFrom hs hhead hend false false)

/-- The kind that is due behind the dash of a last end, by what stands there. -/
def outward (kind : Kind) : Kind :=
  if kind = .symbol .greater then .symbol .greater else .symbol .minus

theorem outward_ne_end (kind : Kind) : outward kind ≠ .endOfInput := by
  rw [outward]
  split <;> nofun

theorem outward_eq_of_outward {kind other : Kind} (h : kind = outward other) :
    kind = outward kind := by
  rw [outward] at h
  split at h <;> rw [h] <;> rfl

/-- Behind a dash before the fork, what is due depends on the list. -/
theorem honest_halves_beside (hs : fork.Scopes scope)
    (hposition : ∀ place, given place → place.position + 1 = fork.left.index) :
    Honest fork stray given unseen (halves (.symbol .minus) (outward fork.left.kind))
      (halves (.symbol .minus) (outward fork.right.kind)) := by
  have hample (place : Place) (h : given place) : fork.Ample 1 place :=
    Nat.le_of_eq (hposition place h)
  rw [halves, halves, Honest.expect_bind, Honest.expect_bind]
  refine .check_then (fun place h ↦ (hample place h).clear _)
    (.advance_then (fun _ h ↦ h.2.1) fun _ ↦ honest_otherHalf_at hs (outward_ne_end _)
      (outward_ne_end _) (fun h ↦ outward_eq_of_outward h) ?_ ?_) .fail
  · rintro place ⟨earlier, -, -, hplace⟩
    omega
  · rintro place ⟨earlier, h, -, hplace⟩
    exact hplace.trans (hposition earlier h.1)

theorem endFrom_outward (kind : Kind) :
    endFrom (.symbol .minus) (.symbol .greater) true (kind == .symbol .greater) =
      halves (.symbol .minus) (outward kind) >>= fun _ ↦
        pure (if kind = .symbol .greater then .directed else .undirected) := by
  by_cases hkind : kind = .symbol .greater
  · rw [hkind]
    rfl
  · rw [endFrom, outward, beq_false_of_ne hkind, if_neg hkind, if_neg hkind]
    rfl

/-- The last end of an edge, behind a test for its dash. -/
def lastEnd : Parser EdgeEnd :=
  look (·.peekKind 1 == .symbol .greater) >>= endFrom (.symbol .minus) (.symbol .greater) true

theorem alike_lastEnd : Alike scope scope lastEnd lastEnd :=
  .bind (.elementary (.look _)) fun _ ↦
    .ite (.bind (alike_halves _ _) fun _ ↦ .pure _) (.bind (alike_halves _ _) fun _ ↦ .pure _)

theorem crosses_lastEnd {verge : Verge} (h : verge.kind = .symbol .minus) :
    verge.Crosses lastEnd :=
  .look fun place hat ↦ by
    rw [endFrom]
    split
    all_goals exact (Verge.crosses_halves h nofun).bind fun _ ↦ .pure _

theorem honest_lastEnd_beside (hs : fork.Scopes scope)
    (hposition : ∀ place, given place → place.position + 1 = fork.left.index) :
    Honest fork stray given unseen lastEnd lastEnd := by
  refine ⟨hs.left.alike alike_lastEnd, hs.right.alike alike_lastEnd,
    fun session copy hsessions h ↦ ?_⟩
  have hindex := hposition _ h
  rw [lastEnd, bind_look, bind_look, hsessions.peekKind_one_left hindex,
    hsessions.peekKind_one_right hindex, endFrom_outward, endFrom_outward]
  refine Honest.ends (.bind (honest_halves_beside hs hposition) fun _ _ _ ↦ ?_) session copy
    hsessions h
  exact .pure rfl

/-- An end of an edge behind its brackets. -/
theorem honest_lastEnd (hs : fork.Scopes scope) :
    Honest fork stray given unseen (edgeEnd (.symbol .minus) (.symbol .greater))
      (edgeEnd (.symbol .minus) (.symbol .greater)) := by
  refine .check_cross crosses_lastEnd crosses_lastEnd (.of_either (fork.Ample 2) ?_ ?_)
    (.look_any fun _ _ ↦ honest_endFrom hs (by nofun) (by nofun) false false)
  · exact .look_same 2 peekKind_one_beq_of_peek (fun place h ↦ h.2) fun atTail ↦
      honest_endFrom hs (by nofun) (by nofun) true atTail
  · refine honest_lastEnd_beside hs fun place h ↦ ?_
    have hample : place.position + 1 ≤ fork.left.index := h.1.2.1
    have hlt : ¬ place.position + 2 ≤ fork.left.index := h.2
    omega

/-- The constraint of an edge and the bracket that closes it. -/
theorem honest_edgeConstraint?_then (hs : fork.Scopes scope) {β ε : Type} {view' : β → ε}
    {next next' : Option (Phrase .expression) → Parser β}
    (hnext : ∀ constraint constraint', Honest fork stray Parser.Anywhere view' (next constraint)
      (next' constraint')) :
    Honest fork stray given view'
      (edgeConstraint? scope >>= fun constraint ↦ expect (.symbol .rightBracket) >>= fun _ ↦
        next constraint)
      (edgeConstraint? scope >>= fun constraint ↦ expect (.symbol .rightBracket) >>= fun _ ↦
        next' constraint) := by
  have hcrosses {verge : Verge} {next : Option (Phrase .expression) → Parser β}
      (hkind : verge.kind = .symbol .rightBracket)
      (hnext : ∀ constraint, Aloof verge.coupling (next constraint)) :
      verge.Crosses (expect (.symbol .rightBracket) >>= fun _ ↦ next none) :=
    (Verge.Crosses.expect hkind nofun).bind fun _ ↦ hnext none
  have hclosed {given : Place → Prop} (constraint constraint' : Option (Phrase .expression)) :
      Honest fork stray given view' (expect (.symbol .rightBracket) >>= fun _ ↦ next constraint)
        (expect (.symbol .rightBracket) >>= fun _ ↦ next' constraint') :=
    (Honest.expect (by nofun)).bind fun _ _ _ ↦ hnext _ _
  rw [edgeConstraint?, bind_assoc, bind_assoc]
  refine .check_cross (fun h ↦ hcrosses h fun constraint ↦ (hnext constraint constraint).left)
    (fun h ↦ hcrosses h fun constraint ↦ (hnext constraint constraint).right) (hclosed none none) ?_
  have hconstraint {given : Place → Prop} : Honest fork Never given unseen
      (some <$> scope.expression 0) (some <$> scope.expression 0) :=
    hs.loose.map fun _ _ _ ↦ rfl
  exact hconstraint.bind fun constraint constraint' _ ↦ hclosed constraint constraint'

/-- Before the fork an edge is at hand. -/
def Edging (fork : Fork) (place : Place) : Prop :=
  fork.Ample 1 place ∧ ((KindSet.ofKeys edgeGlyphs).contains place.kind = true ∨ fork.Ample 2 place)

/-- The last end of an edge with brackets, behind which the edge is built. -/
def lastHalf (left : EdgeEnd) (label : Option String) (constraint : Option (Phrase .expression)) :
    Parser (Draft .edge) :=
  edgeEnd (.symbol .minus) (.symbol .greater) >>= fun right ↦
    pure ⟨.filledEdge left right label, .optional constraint .nil⟩

theorem honest_edge (hs : fork.Scopes scope) (hedging : ∀ place, given place → Edging fork place) :
    Honest fork stray given unseen (edge scope) (edge scope) := by
  have hrest (left : EdgeEnd) (label constraint) :
      Alike scope scope (lastHalf left label constraint) _ :=
    .bind (alike_edgeEnd _ _) fun _ ↦ .pure _
  have hcrosses {verge : Verge} (hv : verge.Scopes scope) (h : verge.kind = .memberName)
      (left : EdgeEnd) (label : Option String) : verge.Crosses
        (edgeConstraint? scope >>= fun constraint ↦ expect (.symbol .rightBracket) >>= fun _ ↦
          lastHalf left label constraint) :=
    (Verge.crosses_edgeConstraint? hv h).bind fun constraint ↦
      hv.alike (.bind (.elementary (.expect _)) fun _ ↦ hrest left label constraint)
  refine .phrase_blind (.oneOf_then rfl (fun _ ↦ .pure rfl) ?_)
  refine (honest_edgeEnd hs (by nofun) (by nofun) fun place h ↦ ?_).bind fun left left' _ ↦
    (Honest.expect (by nofun)).bind fun _ _ _ ↦ honest_label?_then hs
      (fun h ↦ hcrosses hs.left h left none) (fun h ↦ hcrosses hs.right h left' none)
      fun label label' ↦ honest_edgeConstraint?_then hs fun constraint constraint' ↦
        (honest_lastEnd hs).bind fun _ _ _ ↦ .pure rfl
  exact (hedging place h.1.1).2.resolve_left (Bool.eq_false_iff.mp h.2)

/-- Whether an edge follows. -/
def connected (place : Place) : Bool :=
  (KindSet.ofKeys edgeGlyphs).contains place.kind || atEdgeEnd place

theorem connected_eq_of_peek (place other : Place) (h : ∀ i < 2, other.peek i = place.peek i) :
    connected other = connected place := by
  rw [connected, connected, atEdgeEnd, atEdgeEnd, kind_eq_of_peek fun i hi ↦ h i (by omega),
    peekKind_eq_of_peek h Nat.one_lt_two, touches_eq_of_peek h Nat.one_lt_two]

theorem connects_of_connected {verge : Verge} {place : Place} (hbegins : verge.start.Begins place)
    (hlt : verge.index < place.position + 2) (h : connected place = true)
    (hglyph : (KindSet.ofKeys edgeGlyphs).contains place.kind = false) : verge.Connects place :=
  ⟨h, hbegins, by omega, fun h' ↦ by rw [hglyph] at h'; cases h'⟩

section Connections

variable {β ε : Type} {view' : β → ε} {next next' : Bool → Parser β}

theorem crosses_atEdge {verge : Verge} (h : (KindSet.ofKeys edgeGlyphs).contains verge.kind = true)
    (hnext : ∀ session, verge.Connects session.cursor.toPlace →
      verge.coupling.Escapes (next true session)) : verge.Crosses (atEdge >>= next) := by
  intro session hat
  have hglyph : (KindSet.ofKeys edgeGlyphs).contains session.cursor.toPlace.kind = true := by
    rw [hat.kind_eq, h]
  rw [Verge.bind_atEdge, hglyph, Bool.true_or]
  exact hnext (session.tested _)
    ⟨Bool.or_eq_true_iff.mpr (.inl hglyph), hat.1, hat.2 ▸ Nat.le_succ _, fun _ ↦ hat.2⟩

/-- Whether an edge follows is seen alike before the fork, and an edge that is seen to reach the
fork crosses. -/
theorem honest_atEdge_then
    (hleft : ∀ session, fork.left.Connects session.cursor.toPlace →
      fork.left.coupling.Escapes (next true session))
    (hright : ∀ session, fork.right.Connects session.cursor.toPlace →
      fork.right.coupling.Escapes (next' true session))
    (hyes : Honest fork stray (Edging fork) view' (next true) (next' true))
    (hno : Honest fork stray given view' (next false) (next' false)) :
    Honest fork stray given view' (atEdge >>= next) (atEdge >>= next') := by
  refine .gate (fun h ↦ crosses_atEdge h hleft) (fun h ↦ crosses_atEdge h hright)
    (.of_either (fun place ↦ fork.Ample 1 place ∧
      (KindSet.ofKeys edgeGlyphs).contains place.kind = true) ?_ ?_)
  all_goals
    change Honest _ _ _ _ (expecting (.ofKeys edgeGlyphs) >>= fun _ ↦ look connected >>= next)
      (expecting (.ofKeys edgeGlyphs) >>= fun _ ↦ look connected >>= next')
    refine .expecting_then (fun _ h ↦ h.1.2) ?_
  · have htrue (place : Place) (h : (KindSet.ofKeys edgeGlyphs).contains place.kind = true) :
        connected place = true := by
      rw [connected, h]
      rfl
    refine .look_equal (fun session copy hsessions h ↦ ?_) fun seen ↦ ?_
    · rw [htrue _ h.2.2]
      exact htrue copy.cursor.toPlace (hsessions.kind_eq h.2.1 ▸ h.2.2)
    · cases seen with
      | true => exact hyes.when fun _ h ↦ ⟨h.1.2.1, .inl h.1.2.2⟩
      | false => exact hno.when fun place h ↦ h.1.1.1
  · have hnone {session copy : Session} (hsessions : fork.Sessions session copy)
        (hclear : fork.Clear (.ofKeys edgeGlyphs) session.cursor.toPlace)
        (h : ¬ (fork.Ample 1 session.cursor.toPlace ∧
          (KindSet.ofKeys edgeGlyphs).contains session.cursor.kind = true)) :
        (KindSet.ofKeys edgeGlyphs).contains session.cursor.kind = false ∧
          (KindSet.ofKeys edgeGlyphs).contains copy.cursor.kind = false := by
      rcases hsessions.eq_or_ample with heq | hample
      · rw [show session.cursor.kind = _ from (hsessions.at_left heq).kind_eq,
          show copy.cursor.kind = _ from (hsessions.at_right heq).kind_eq]
        exact hclear heq
      · rw [hsessions.kind_eq hample, and_self]
        exact Bool.eq_false_iff.mpr fun hglyph ↦ h ⟨hample, hglyph⟩
    refine .look_then 2 (· = true) connected_eq_of_peek ?_ ?_ (fun seen ↦ ?_) ?_
    · intro session copy hsessions h hlt hseen
      rw [hseen]
      exact hleft session (connects_of_connected hsessions.begins hlt hseen
        (hnone hsessions h.1.2 h.2).1)
    · intro session copy hsessions h hlt hseen
      rw [hseen]
      exact hright copy (connects_of_connected hsessions.begins_copy hlt hseen
        (hnone hsessions h.1.2 h.2).2)
    · cases seen with
      | true => exact hyes.when fun place h ↦ ⟨h.2.1.mono (by decide), .inr h.2.1⟩
      | false => exact hno.when fun _ h ↦ h.1.1.1
    · intro seen seen' h h'
      rw [Bool.not_eq_true] at h h'
      subst h h'
      exact hno.when fun _ h ↦ h.1.1

end Connections

theorem honest_elementFrom (hs : fork.Scopes scope) (source source' : Phrase .node) :
    Honest fork stray given unseen (elementFrom scope source) (elementFrom scope source') := by
  have hescapes {verge : Verge} (hv : verge.Scopes scope) (source : Phrase .node)
      (session : Session)
      (h : verge.Connects session.cursor.toPlace) : verge.coupling.Escapes
        ((edge scope >>= fun edge ↦ scope.node >>= fun target ↦
          (pure ⟨.connection, .one source (.one edge (.one target .nil))⟩ :
            Parser (Draft .element))) session) :=
    (h.escapes_edge hv).bind fun _ ↦ hv.alike (.bind (.nested .node) fun _ ↦ .pure _)
  refine .phraseFrom_blind (honest_atEdge_then (hescapes hs.left source) (hescapes hs.right source')
    ?_ (.pure rfl))
  exact (honest_edge hs fun _ h ↦ h).bind fun _ _ _ ↦ (hs.rule .node rfl).bind fun _ _ _ ↦ .pure rfl

theorem honest_element (hs : fork.Scopes scope) :
    Honest fork stray given unseen (element scope) (element scope) :=
  (hs.rule .node rfl).bind fun source source' _ ↦ honest_elementFrom hs source source'

end Edges

end Grammar

end CorpusQuery
