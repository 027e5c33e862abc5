import CorpusQuery.Proofs.Acceptance.HonestEdge

/-!
Nodes are honest. A constraint before the children of a node is the one reading here that may end at
the fork in one parse only: it is kept if the closing bracket or children follow, and with either of
them what is read next crosses.
-/

set_option autoImplicit false
set_option relaxedAutoImplicit false

namespace CorpusQuery

open CorpusQuery.Parser CorpusQuery.Grammar CorpusQuery.Fork

namespace Grammar

variable {fork : Fork} {scope : Scope} {stray : Stray} {given : Place → Prop}

/-! ### Children -/

section Children

variable {β ε : Type} {view' : β → ε}
  {next next' : Option (Phrase .structuralConstraint) → Parser β}

/-- The kinds that may follow the constraint of a node. -/
def childStart : KindSet := .single (.symbol .rightBracket) ∪ structuralStart

theorem crosses_children_of_mem {verge : Verge} (hv : verge.Scopes scope)
    (h : childStart.contains verge.kind = true)
    (hnext : ∀ children, Aloof verge.coupling (next children)) :
    verge.Crosses (children? scope >>= fun children ↦
      expect (.symbol .rightBracket) >>= fun _ ↦ next children) := by
  rw [childStart, KindSet.contains_union, KindSet.contains_single, Bool.or_eq_true,
    decide_eq_true_eq] at h
  exact Verge.crosses_children hv h hnext

/-- Children and the bracket behind them. -/
theorem honest_children?_then (hs : fork.Scopes scope)
    (hnext : ∀ children children', Honest fork stray Parser.Anywhere view' (next children)
      (next' children')) :
    Honest fork stray given view'
      (children? scope >>= fun children ↦ expect (.symbol .rightBracket) >>= fun _ ↦ next children)
      (children? scope >>= fun children ↦ expect (.symbol .rightBracket) >>= fun _ ↦
        next' children) := by
  have hclosed {given : Place → Prop} (children children' : Option (Phrase .structuralConstraint)) :
      Honest fork stray given view' (expect (.symbol .rightBracket) >>= fun _ ↦ next children)
        (expect (.symbol .rightBracket) >>= fun _ ↦ next' children') :=
    (Honest.expect (by nofun)).bind fun _ _ _ ↦ hnext _ _
  refine .gate
    (fun h ↦ crosses_children_of_mem hs.left h fun children ↦ (hnext children children).left)
    (fun h ↦ crosses_children_of_mem hs.right h fun children ↦ (hnext children children).right) ?_
  rw [children?, bind_assoc, bind_assoc]
  refine .checkAny_then (fun _ h ↦ h.2.mono fun kind hkind ↦ ?_) ?_ (hclosed none none)
  · rw [childStart, KindSet.contains_union, hkind, Bool.or_true]
  · have hchildren {given : Place → Prop} : Honest fork Never given unseen
        (some <$> scope.structuralConstraint) (some <$> scope.structuralConstraint) :=
      (hs.rule .structuralConstraint rfl).map fun _ _ _ ↦ rfl
    exact hchildren.bind fun children children' _ ↦ hclosed children children'

theorem honest_onlyChildren (hs : fork.Scopes scope) :
    Honest fork stray given unseen (onlyChildren scope) (onlyChildren scope) :=
  honest_children?_then hs fun _ _ ↦ .pure rfl

end Children

/-! ### Constraints -/

section Constraints

/-- What follows a constraint that is read before children. -/
def closing (constraint : Phrase .expression) : Parser (Phrase .expression) := do
  let closed ← check (.symbol .rightBracket)
  if closed then
    pure constraint
  else
    let isBang ← look (·.kind == .symbol .bang)
    let hasChildren ← checkAny structuralStart
    if hasChildren && !(isBang && isInteger constraint) then pure constraint else fail .unexpected

/-- Whether a constraint is kept with a kind behind it. -/
def closes (constraint : Phrase .expression) (kind : Kind) : Bool :=
  childStart.contains kind && !(kind == .symbol .bang && isInteger constraint)

variable {constraint : Phrase .expression} {session : Session}

theorem alike_closing (constraint : Phrase .expression) :
    Alike scope scope (closing constraint) (closing constraint) :=
  .bind (.elementary (.check _)) fun _ ↦ .ite (.pure _) (.bind (.elementary (.look _)) fun _ ↦
    .bind (.elementary (.checkAny _)) fun _ ↦ .ite (.pure _) (.elementary (.fail _ rfl)))

theorem closes_of_ne (h : session.cursor.kind ≠ .symbol .rightBracket) :
    closes constraint session.cursor.kind = (structuralStart.contains session.cursor.kind &&
      !(session.cursor.kind == .symbol .bang && isInteger constraint)) := by
  rw [closes, childStart, KindSet.contains_union, KindSet.contains_single, decide_eq_false h,
    Bool.false_or]

theorem closing_of_closes (h : closes constraint session.cursor.kind = true) :
    ∃ after, closing constraint session = .ok constraint after ∧
      after.cursor.toPlace = session.cursor.toPlace := by
  rw [closing, bind_check]
  by_cases hclosed : session.cursor.kind = .symbol .rightBracket
  · rw [beq_iff_eq.mpr hclosed, if_pos rfl]
    exact ⟨_, rfl, rfl⟩
  · rw [beq_false_of_ne hclosed, if_neg Bool.false_ne_true, bind_look, bind_checkAny]
    rw [closes_of_ne hclosed] at h
    exact ⟨_, congrFun (if_pos h) _, rfl⟩

theorem closing_of_not (h : closes constraint session.cursor.kind = false) :
    closing constraint session = .error
      (((session.tested (.single (.symbol .rightBracket))).tested structuralStart).cursor.failure
        .unexpected)
      ((session.tested (.single (.symbol .rightBracket))).tested structuralStart) := by
  have hclosed : session.cursor.kind ≠ .symbol .rightBracket := fun hclosed ↦ by
    rw [hclosed] at h
    cases h
  rw [closing, bind_check, beq_false_of_ne hclosed, if_neg Bool.false_ne_true, bind_look,
    bind_checkAny]
  rw [closes_of_ne hclosed] at h
  exact congrFun (if_neg (Bool.eq_false_iff.mp h)) _

theorem ends_closing_at {session copy : Session} (hsessions : fork.Sessions session copy)
    (heq : session.cursor.position = fork.left.index) {constraint constraint' : Phrase .expression}
    (hcompound : fork.right.kind = .symbol .bang → isInteger constraint' = false) :
    fork.Ends (fork.Reaches childStart) unseen (closing constraint session)
      (closing constraint' copy) := by
  have hleft := hsessions.at_left heq
  have hright := hsessions.at_right heq
  have hkind : session.cursor.kind = fork.left.kind := hleft.kind_eq
  have hkind' : copy.cursor.kind = fork.right.kind := hright.kind_eq
  cases hmem : childStart.contains fork.right.kind with
  | true =>
    have hcloses : closes constraint' copy.cursor.kind = true := by
      rw [hkind', closes, hmem, Bool.true_and]
      cases hbang : fork.right.kind == .symbol .bang with
      | false => rfl
      | true => rw [hcompound (beq_iff_eq.mp hbang)]; rfl
    obtain ⟨after, hrun, hplace⟩ := closing_of_closes hcloses
    rw [hrun]
    exact .stray (.right (show fork.right.At after.cursor.toPlace from hplace ▸ hright) hmem)
  | false =>
    cases hcloses : closes constraint session.cursor.kind with
    | true =>
      obtain ⟨after, hrun, hplace⟩ := closing_of_closes hcloses
      rw [hrun]
      refine .stray (.left (show fork.left.At after.cursor.toPlace from hplace ▸ hleft) ?_)
      rw [← hkind]
      exact (Bool.and_eq_true_iff.mp hcloses).1
    | false =>
      have hcloses' : closes constraint' copy.cursor.kind = false := by
        rw [hkind', closes, hmem, Bool.false_and]
      rw [childStart, KindSet.contains_union, Bool.or_eq_false_iff] at hmem
      have htested := (hsessions.tested _ fun _ ↦ hmem.1).tested _ fun _ ↦ hmem.2
      rw [closing_of_not hcloses, closing_of_not hcloses']
      exact .error (htested.spares_failure _) htested.spared

theorem honest_closing_before (hample : ∀ place, given place → fork.Ample 1 place)
    {constraint constraint' : Phrase .expression}
    (h : isInteger constraint = isInteger constraint') :
    Honest fork stray given unseen (closing constraint) (closing constraint') := by
  refine .check_then (fun place h ↦ (hample place h).clear _) (.pure rfl) ?_
  refine .look_same 1 (fun _ _ h ↦ ?_) hample fun isBang ↦ ?_
  · rw [kind_eq_of_peek h]
  · refine .checkAny_then (fun place h ↦ (hample place h.1).clear _) ?_ .fail
    rw [h]
    exact .ite (.pure rfl) .fail

theorem honest_leadingConstraint (hs : fork.Scopes scope) :
    Honest fork (fork.Reaches childStart) given unseen (leadingConstraint scope)
      (leadingConstraint scope) := by
  refine ⟨hs.left.alike alike_leadingConstraint, hs.right.alike alike_leadingConstraint,
    fun session copy hsessions _ ↦ ?_⟩
  have hexpression : Honest fork Never Parser.Anywhere isInteger (scope.expression 0)
      (scope.expression 0) := hs.expression_of_le (Nat.zero_le _)
  refine (hexpression.ends session copy hsessions trivial).bind
    (fun constraint ↦ hs.left.alike (alike_closing constraint))
    (fun constraint ↦ hs.right.alike (alike_closing constraint))
    (fun constraint constraint' after after' _ hrun' hview hafter ↦ ?_) False.elim
  rcases hafter.eq_or_ample with heq | hample
  · exact ends_closing_at hafter heq fun hbang ↦
      hs.compound copy constraint' after' hsessions.begins_copy hrun' (hafter.at_right heq) hbang
  · exact (honest_closing_before (fun _ h ↦ h) hview).ends after after' hafter hample

end Constraints

/-! ### Contents -/

section Contents

theorem honest_nodeContent (hs : fork.Scopes scope) :
    Honest fork stray given unseen (nodeContent scope) (nodeContent scope) := by
  have hnext (constraint : Phrase .expression) : Alike scope scope
      (children? scope >>= fun children ↦ expect (.symbol .rightBracket) >>= fun _ ↦
        (pure ⟨some constraint, children⟩ : Parser NodeContent)) _ :=
    .bind alike_children? fun _ ↦ .bind (.elementary (.expect _)) fun _ ↦ .pure _
  have hcrosses {verge : Verge} (hv : verge.Scopes scope)
      (h : childStart.contains verge.kind = true)
      (constraint : Phrase .expression) : verge.Crosses
        (children? scope >>= fun children ↦ expect (.symbol .rightBracket) >>= fun _ ↦
          (pure ⟨some constraint, children⟩ : Parser NodeContent)) :=
    crosses_children_of_mem hv h fun _ ↦ .pure _
  rw [nodeContent_eq_either]
  refine .consume_then (by nofun) (.pure rfl) ?_
  refine .either_stray hs.left.retreats.constraint.attempt (honest_leadingConstraint hs)
    (fun _ _ _ ↦ honest_children?_then hs fun _ _ ↦ .pure rfl) (honest_onlyChildren hs).attempt
    (fun _ _ _ ↦ .pure rfl) fun session copy _ _ hstray ↦ ?_
  rcases hstray.cases with
    ⟨constraint, after, hrun, hat, hkind⟩ | ⟨constraint, after, hrun, hat, hkind⟩
  · rw [either_of_ok hrun]
    exact .left (hcrosses hs.left hkind constraint after hat)
  · refine .right ?_
    rw [either_of_ok hrun]
    exact hcrosses hs.right hkind constraint after hat

theorem honest_leadingMarker (hs : fork.Scopes scope) :
    Honest fork stray given unseen (leadingMarker scope) (leadingMarker scope) :=
  (hs.rule (.marker 0) rfl).bind fun _ _ _ ↦ (Honest.expect (by nofun)).finish fun _ _ _ ↦ rfl

theorem honest_markedContent (hs : fork.Scopes scope) :
    Honest fork stray given unseen (markedContent scope) (markedContent scope) := by
  have hmarker : Honest fork Never given unseen (leadingMarker scope) (leadingMarker scope) :=
    honest_leadingMarker hs
  rw [markedContent_eq_either]
  exact .either_stray hs.left.retreats.marker hmarker
    (fun _ _ _ ↦ (honest_nodeContent hs).bind fun _ _ _ ↦ .pure rfl) (honest_nodeContent hs)
    (fun _ _ _ ↦ .pure rfl) fun _ _ _ _ ↦ False.elim

theorem honest_nodeBody (hs : fork.Scopes scope)
    (quantifier quantifier' : Option (Phrase .quantifier)) :
    Honest fork stray given unseen (nodeBody scope quantifier) (nodeBody scope quantifier') := by
  refine (Honest.expect (by nofun)).bind fun _ _ _ ↦ honest_label?_then hs
    (fun h ↦ (Verge.crosses_markedContent hs.left h).bind fun _ ↦ .pure _)
    (fun h ↦ (Verge.crosses_markedContent hs.right h).bind fun _ ↦ .pure _) fun label label' ↦ ?_
  exact (honest_markedContent hs).bind fun _ _ _ ↦ .pure rfl

/-- The draft of a node by the dummy node that was seen to begin there. -/
def nodeFrom (scope : Scope) (dummy? : Option Cardinality) : Parser (Draft .node) :=
  match dummy? with
  | some cardinality => do
    let _ ← advance
    let _ ← advance
    let _ ← advance
    pure ⟨.dummyNode cardinality, .nil⟩
  | none => quantifier? >>= nodeBody scope

theorem node_eq (scope : Scope) : node scope = phrase (look dummyAt? >>= nodeFrom scope) := by
  refine congrArg phrase (bind_congr fun dummy? ↦ ?_)
  cases dummy? <;> rfl

theorem dummyAt?_eq_of_peek (place other : Place) (h : ∀ i < 3, other.peek i = place.peek i) :
    dummyAt? other = dummyAt? place := by
  rw [dummyAt?, dummyAt?, kind_eq_of_peek fun i hi ↦ h i (by omega),
    peekKind_eq_of_peek h (by omega), peekKind_eq_of_peek h (by omega)]

/-- A dummy node that reaches the verge crosses it. -/
theorem escapes_dummy {verge : Verge} {session : Session}
    (hbegins : verge.start.Begins session.cursor.toPlace)
    (hlt : verge.index < session.cursor.position + 3)
    (h : (dummyAt? session.cursor.toPlace).isSome = true) :
    verge.coupling.Escapes (nodeFrom scope (dummyAt? session.cursor.toPlace) session) := by
  obtain ⟨cardinality, hdummy⟩ := Option.isSome_iff_exists.mp h
  rw [hdummy]
  rw [dummyAt?] at hdummy
  split at hdummy
  · rename_i hbrackets
    have hmiddle : session.cursor.toPlace.peekKind 1 ≠ .endOfInput := fun hend ↦ by
      rw [hend] at hdummy
      cases hdummy
    have hnears : verge.Nears 3 session.cursor.toPlace := .of_three hbegins hlt
      (hbrackets.1.trans_ne (by decide)) hmiddle (hbrackets.2.trans_ne (by decide))
    exact hnears.escapes_advance fun _ _ hnears ↦ hnears.escapes_advance fun _ _ hnears ↦
      hnears.escapes_advance fun _ _ hnears ↦ .inr hnears.past
  · cases hdummy

theorem honest_node (hs : fork.Scopes scope) :
    Honest fork stray given unseen (node scope) (node scope) := by
  have hproper {given : Place → Prop} :
      Honest fork stray given unseen (quantifier? >>= nodeBody scope)
        (quantifier? >>= nodeBody scope) :=
    (honest_quantifier? hs).bind fun quantifier quantifier' _ ↦ honest_nodeBody hs _ _
  rw [node_eq]
  refine .phrase_blind (.look_then 3 (·.isSome = true) dummyAt?_eq_of_peek
    (fun session _ hsessions _ hlt h ↦ escapes_dummy hsessions.begins hlt h)
    (fun _ copy hsessions _ hlt h ↦ escapes_dummy hsessions.begins_copy hlt h) (fun dummy? ↦ ?_)
    fun dummy? dummy?' h h' ↦ ?_)
  · cases dummy? with
    | none => exact hproper
    | some cardinality =>
      exact .pass (fun _ h ↦ h.2.1) fun _ ↦ .pass (fun _ h ↦ h) fun _ ↦ .pass (fun _ h ↦ h) fun _ ↦
        .pure rfl
  · rw [Option.not_isSome_iff_eq_none] at h h'
    subst h h'
    exact hproper

end Contents

end Grammar

end CorpusQuery
