import CorpusQuery.Proofs.Negation.Enclosure
import CorpusQuery.Proofs.Negation.Expression
import CorpusQuery.Proofs.Negation.Leads
import CorpusQuery.Proofs.Negation.Statement
import CorpusQuery.Proofs.Spelling.Node

/-!
Nodes with an expression before a negation. What is read alone as an expression is read again behind
the opening bracket, where it is no cardinality, no label, no marker and no count
(`Place.Negated.constrains`), so it is the constraint of the node. Behind it both lists go on with a
negation, and therefore the nodes and the statements that begin with them end alike
(`Grammar.twinned_boundStatement`).
-/

set_option autoImplicit false
set_option relaxedAutoImplicit false

namespace CorpusQuery

open CorpusQuery.Parser CorpusQuery.Grammar

/-! ### The constraint of a node -/

/-- A list that begins with an opening bracket and an expression up to a negation. -/
structure Place.Constrains (start : Place) (pivot : Nat) (scope : Scope)
    (constraint : Phrase .expression) : Prop where
  opens : (start.peek 0).kind = .symbol .leftBracket
  starts : expressionStart.contains (start.peek 1).kind = true
  unlabelled : (start.peek 1).kind = .memberName → (start.peek 2).kind ≠ .symbol .colon
  unmarked : ∀ session, start.At 1 session.cursor.toPlace →
    ∃ failure after, leadingMarker scope session = .error failure after
  gives : Gives start 1 pivot (scope.expression 0) constraint
  negation : Continuation.isNegation (start.peek pivot).kind = true
  notInteger : isInteger constraint = false

/-- An excerpt that is read as an expression is the constraint of the node that begins before it. -/
theorem Place.Negated.constrains {short start : Place} {length limit limit' room room' : Nat}
    (h : short.Negated start 1 length) (hopens : (start.peek 0).kind = .symbol .leftBracket)
    (hcount : length = 1 → digitKinds.contains (start.peek 1).kind = false)
    {session after : Session} {constraint : Phrase .expression}
    (hsession : short.At 0 session.cursor.toPlace)
    (hrun : (Rule.inside limit room).expression 0 session = .ok constraint after)
    (hafter : after.cursor.position = length) (hroom : room ≤ room') :
    start.Constrains (1 + length) (Rule.inside limit' room') constraint := by
  obtain ⟨hbegins, -, hleads⟩ := (Rule.leads_inside short limit room 0 0).ok
    (hsession.1.fit h.closed_short) hsession hrun
  rw [hafter] at hleads
  have hgives : Gives start 1 (1 + length) ((Rule.inside limit' room').expression 0)
      constraint := by
    intro copy hcopy
    obtain ⟨last, hlast, hplaces, -⟩ := (Rule.embedded_inside h limit limit' hroom).expression 0
      session copy constraint after ⟨hsession.1, hcopy.1, by rw [hcopy.2, hsession.2]⟩ trivial hrun
    exact ⟨last, hlast, hplaces.begins_other, by rw [hplaces.position_eq, hafter, Nat.add_comm]⟩
  have hpos : 0 < length := by
    refine Nat.pos_of_ne_zero fun hzero ↦ ?_
    have hend := h.closed_short.kind_peek (Nat.le_of_eq (h.length_eq.trans hzero))
    have hstarts := hleads.starts
    rw [hend] at hstarts
    cases hstarts
  have hfirst : short.peek 0 = start.peek 1 := h.peek_eq 0 hpos
  refine ⟨hopens, hfirst ▸ hleads.starts, fun hmember hcolon ↦ ?_, fun copy hcopy ↦ ?_, hgives,
    h.negation, Bool.eq_false_iff.mpr fun hinteger ↦ ?_⟩
  · -- A name with a colon behind it is the last token of an expression, and here it is not.
    rcases Nat.lt_or_ge 1 length with hlt | hge
    · have hlabelled := hleads.labelled (hfirst ▸ hmember) (h.peek_eq 1 hlt ▸ hcolon)
      omega
    · have hnegation := h.negation
      rw [show 1 + length = 2 by omega, hcolon] at hnegation
      cases hnegation
  · obtain ⟨last, hlast, hplace⟩ := hgives copy hcopy
    have henclosed := ((Rule.encloses_inside start limit' room').expression 0 1).ok
      (hcopy.1.fit h.closed) hcopy hlast
    refine leadingMarker_fails (Rule.level_inside start limit' room') ?_ h.negation h.closed hcopy
    exact hplace.2 ▸ henclosed.2.2
  · obtain ⟨hdigits, hlength⟩ := hleads.integer hinteger
    rw [hfirst, hcount hlength] at hdigits
    cases hdigits

/-- The constraint is taken, since child statements follow and it is no count. -/
theorem Place.Constrains.leadingConstraint {start : Place} {pivot : Nat} {scope : Scope}
    {constraint : Phrase .expression} (h : start.Constrains pivot scope constraint) :
    Gives start 1 pivot (leadingConstraint scope) constraint := by
  intro session hplace
  obtain ⟨after, hrun, hafter⟩ := h.gives session hplace
  have hnegates : after.cursor.toPlace.Negates pivot := ⟨hafter.2, hafter.kind_eq ▸ h.negation⟩
  have hclosed : check (.symbol .rightBracket) after = .ok false _ :=
    check_of_eq (beq_false_of_ne (hnegates.kind_ne rfl))
  have hchildren : checkAny structuralStart (after.tested (.single (.symbol .rightBracket))) =
      .ok true _ := checkAny_of_eq (hnegates.view structuralStart.contains rfl rfl)
  refine ⟨(after.tested (.single (.symbol .rightBracket))).tested structuralStart, ?_, hafter⟩
  rw [Grammar.leadingConstraint, bind_of_ok hrun, bind_of_ok hclosed, if_neg Bool.false_ne_true,
    bind_look, bind_of_ok hchildren, h.notInteger, Bool.and_false]
  rfl

/-! ### The node around it -/

/-- An index of either list. -/
def Place.AtEither (start start' : Place) (index : Nat) (place : Place) : Prop :=
  start.At index place ∨ start'.At index place

namespace Place.AtEither

variable {start start' place : Place} {pivot index : Nat} {scope scope' : Scope}
  {constraint constraint' : Phrase .expression} (hs : start.Constrains pivot scope constraint)
  (hs' : start'.Constrains pivot scope' constraint')

theorem position_eq (h : AtEither start start' index place) : place.position = index :=
  h.elim And.right And.right

theorem advance {cursor : Cursor} (h : AtEither start start' index cursor.toPlace)
    (hclosed : cursor.Closed) (hkind : cursor.kind ≠ .endOfInput) :
    AtEither start start' (index + 1) cursor.advance.toPlace :=
  h.imp (·.advance hclosed hkind) (·.advance hclosed hkind)

include hs hs'

theorem opens (h : AtEither start start' 0 place) : place.kind = .symbol .leftBracket := by
  rcases h with h | h <;> rw [h.kind_eq]
  · exact hs.opens
  · exact hs'.opens

/-- An expression begins with no cardinality. -/
theorem dummyAt?_eq_none (h : AtEither start start' 0 place) : dummyAt? place = none := by
  have hstarts : expressionStart.contains (place.peekKind 1) = true := by
    rcases h with h | h <;> rw [h.peekKind_eq]
    · exact hs.starts
    · exact hs'.starts
  have hnone : cardinalities.lookup (place.peekKind 1) = none := by
    refine Option.eq_none_iff_forall_ne_some.mpr fun cardinality hlookup ↦ ?_
    rw [lookup_cardinalities.mp hlookup] at hstarts
    cases cardinality <;> cases hstarts
  rw [dummyAt?, hnone, ite_self]

theorem starts (h : AtEither start start' 1 place) :
    expressionStart.contains place.kind = true := by
  rcases h with h | h <;> rw [h.kind_eq]
  · exact hs.starts
  · exact hs'.starts

theorem unlabelled (h : AtEither start start' 1 place) (hmember : place.kind = .memberName) :
    place.peekKind 1 ≠ .symbol .colon := by
  rcases h with h | h <;> rw [h.kind_eq] at hmember <;> rw [h.peekKind_eq]
  · exact hs.unlabelled hmember
  · exact hs'.unlabelled hmember

end Place.AtEither

namespace Grammar

theorem label?_eq_none {session : Session}
    (h : session.cursor.kind = .memberName → session.cursor.peekKind 1 ≠ .symbol .colon) :
    label? session = .ok none (session.tested (.single .memberName)) := by
  rw [label?, bind_of_ok (check_of_eq rfl), bind_look, if_neg]
  · rfl
  · rw [Bool.and_eq_true, beq_iff_eq, beq_iff_eq]
    exact fun hlabel ↦ h hlabel.1 hlabel.2

section Nodes

variable {start start' : Place} {pivot limit room : Nat} {constraint : Phrase .expression}
  (h : start.Twins start' pivot)
  (hs : start.Constrains pivot (Rule.inside limit room) constraint)
  (hs' : start'.Constrains pivot (Rule.inside limit room) constraint)

include h hs hs'

theorem twinned_nodeContent :
    Twinned start start' (Place.AtEither start start' 1) (Place.Past (pivot + 2))
      (NodeContent.blurred fun _ ↦ 0) (nodeContent (Rule.inside limit room))
      (nodeContent (Rule.inside limit room)) := by
  have hc := Coupling.lawful_twin h
  have hnegates {start : Place} (hs : start.Constrains pivot (Rule.inside limit room) constraint)
      (place : Place) (hplace : start.At pivot place) : place.Negates pivot :=
    ⟨hplace.2, hplace.kind_eq ▸ hs.negation⟩
  rw [nodeContent_eq_either]
  refine .consume_none (fun place hplace heq ↦ ?_)
    (.either_first (fun _ ↦ Place.AtEither.position_eq) hs.leadingConstraint hs'.leadingConstraint
      (hnegates hs) (hnegates hs') ?_)
  · have hstarts := hplace.starts hs hs'
    rw [heq] at hstarts
    cases hstarts
  · refine (twinned_children? h limit room).bind fun _ _ hchildren ↦ .of_coupled ?_
    exact (Coupled.expect hc).bind fun _ _ _ ↦ .pure (congrArg (NodeContent.mk _) hchildren)

theorem twinned_markedContent :
    Twinned start start' (Place.AtEither start start' 1) (Place.Past (pivot + 2))
      (Prod.map (Option.map (Tree.blurred fun _ ↦ 0)) (NodeContent.blurred fun _ ↦ 0))
      (markedContent (Rule.inside limit room)) (markedContent (Rule.inside limit room)) := by
  rw [markedContent_eq_either]
  exact .either_second (fun _ ↦ Place.AtEither.position_eq) hs.unmarked hs'.unmarked
    (twinned_nodeContent h hs hs') fun _ _ hcontent ↦
      .pure (congrArg (Prod.mk none) hcontent) fun _ hpast ↦ hpast

omit h in
theorem twinned_label? :
    Twinned start start' (Place.AtEither start start' 1) (Place.AtEither start start' 1) id label?
      label? := by
  intro session copy hplaces hplace hplace'
  rw [label?_eq_none (hplace.unlabelled hs hs'), label?_eq_none (hplace'.unlabelled hs hs')]
  exact .ok rfl hplaces hplace hplace'

theorem twinned_boundNode :
    Twinned start start' (Place.AtEither start start' 0) (Place.Past (pivot + 2))
      (Tree.blurred fun _ ↦ 0) (node (Rule.inside limit room)) (node (Rule.inside limit room)) := by
  have hpos : 0 ≠ pivot := by
    rintro rfl
    have hnegation := hs.negation
    rw [hs.opens] at hnegation
    cases hnegation
  have hquantifier : Twinned start start' (Place.AtEither start start' 0)
      (Place.AtEither start start' 0) (Option.map (Tree.blurred fun _ ↦ 0)) quantifier?
      quantifier? := by
    refine .checkAny false (fun place hplace ↦ ?_) (.pure rfl fun _ hplace ↦ hplace)
    rw [hplace.opens hs hs']
    rfl
  have hbracket : Twinned start start' (Place.AtEither start start' 0)
      (Place.AtEither start start' 1) (fun _ ↦ ()) (expect (.symbol .leftBracket))
      (expect (.symbol .leftBracket)) :=
    .expect h (fun place hplace ↦ hplace.position_eq ▸ hpos)
      fun _ hclosed hkind hplace ↦ hplace.advance hclosed (hkind ▸ nofun)
  refine .phrase (.look none (fun _ hplace ↦ hplace.dummyAt?_eq_none hs hs') ?_)
  refine hquantifier.bind fun _ _ hquantifier ↦ hbracket.bind fun _ _ _ ↦
    (twinned_label? hs hs').bind fun label label' hlabel ↦
      (twinned_markedContent h hs hs').bind fun (marker, content) (marker', content') hmarked ↦
        .pure ?_ fun _ hpast ↦ hpast
  obtain rfl : label = label' := hlabel
  obtain ⟨hmarker, hcontent⟩ := Prod.mk.inj hmarked
  obtain ⟨hconstraint, hchildren⟩ := NodeContent.mk.inj hcontent
  rw [Draft.blurred, Draft.blurred]
  simp only [Tree.blurred_optional, hquantifier, hmarker, hconstraint, hchildren]

end Nodes

/-! ### The statement -/

theorem twinned_boundStatement {start start' : Place} {pivot limit room : Nat}
    {constraint : Phrase .expression} (h : start.Twins start' pivot)
    (hs : start.Constrains pivot (Rule.inside limit room) constraint)
    (hs' : start'.Constrains pivot (Rule.inside limit room) constraint) (least : Nat) :
    Twinned start start' (Place.AtEither start start' 0) (Place.Past (pivot + 2))
      (Tree.blurred fun _ ↦ 0) (nodeStatement (Rule.inside limit (room + 1)) least)
      (nodeStatement (Rule.inside limit (room + 1)) least) := by
  have hkind {α : Type} (view : Kind → α) (place : Place)
      (hplace : Place.AtEither start start' 0 place) :
      view place.kind = view (.symbol .leftBracket) :=
    congrArg view (hplace.opens hs hs')
  refine twinned_nodeStatement h limit (room + 1) least
    (.phrase (.checkAny false (hkind (KindSet.contains _)) ?_))
  change Twinned _ _ _ _ _ (atGrouping >>= groupedOrNot _) (atGrouping >>= groupedOrNot _)
  rw [atGrouping_bind]
  exact .check false (hkind (· == Kind.symbol .leftBrace))
    (.checkAny false (hkind quantifierStart.contains)
      (twinned_nodes h limit (room + 1) (.enter (twinned_boundNode h hs hs'))))

end Grammar

end CorpusQuery
