import CorpusQuery.Proofs.Negation.Twin

/-!
Statements that begin with a negation. Whichever negation it is, a quantifier that begins with it
has passed it (`Grammar.twinned_quantifier`), and the token behind it has to be a pipe or an opening
bracket. Behind that token the lists look the same, so statements end alike as well
(`Grammar.twinned_children?`).
-/

set_option autoImplicit false
set_option relaxedAutoImplicit false

namespace CorpusQuery

open CorpusQuery.Parser CorpusQuery.Grammar

/-- The negation of a list, at its index. -/
def Place.Negates (pivot : Nat) (place : Place) : Prop :=
  place.position = pivot ∧ Continuation.isNegation place.kind = true

variable {start start' : Place} {pivot : Nat}

/-- A token that is not the end of the input is passed. -/
theorem Place.Past.advance {base : Nat} {cursor : Cursor} (h : cursor.Past base)
    (hclosed : cursor.Closed) (hkind : cursor.kind ≠ .endOfInput) :
    cursor.advance.toPlace.Past (base + 1) :=
  Nat.succ_le_of_lt (Nat.lt_of_le_of_lt h (Cursor.position_lt_advance hclosed hkind))

theorem Place.Past.position_ne {place : Place} (h : place.Past (pivot + 1)) :
    place.position ≠ pivot :=
  Nat.ne_of_gt h

namespace Place.Negates

variable {place : Place} (h : place.Negates pivot)

include h

theorem view {α : Type} (view : Kind → α) {seen : α} (hnot : view (.keyword .not) = seen)
    (hbang : view (.symbol .bang) = seen) : view place.kind = seen :=
  Continuation.view_of_isNegation hnot hbang h.2

theorem kind_ne {kind : Kind} (hkind : Continuation.isNegation kind = false) :
    place.kind ≠ kind :=
  fun heq ↦ Bool.false_ne_true (hkind.symm.trans (heq ▸ h.2))

end Place.Negates

namespace Grammar

/-! ### Quantifiers -/

theorem simpleQuantifier_of_negation {session : Session}
    (h : Continuation.isNegation session.cursor.kind = true) :
    simpleQuantifier session = .ok
      (.phrase .noneOf ⟨session.cursor.here.span.start, session.passed.cursor.previousStop⟩ .nil)
      session.passed := by
  unfold simpleQuantifier phrase
  rw [bind_look, phraseFrom, bind_assoc, bind_look]
  rcases Continuation.isNegation_cases h with hkind | hkind
  · have hfirst : session.cursor.here.kind = .keyword .not := hkind
    simp only [hfirst]
    rfl
  · have hfirst : session.cursor.here.kind = .symbol .bang := hkind
    simp only [hfirst]
    rfl

variable (h : start.Twins start' pivot)

include h

theorem twinned_simpleQuantifier :
    Twinned start start' (Place.Negates pivot) (Place.Past (pivot + 1)) (Tree.blurred fun _ ↦ 0)
      simpleQuantifier simpleQuantifier := by
  intro session copy hplaces hplace hplace'
  have hpast {session : Session} (hclosed : session.cursor.Closed)
      (hplace : session.cursor.toPlace.Negates pivot) :
      session.passed.cursor.toPlace.Past (pivot + 1) :=
    Place.Past.advance (Nat.le_of_eq hplace.1.symm) hclosed (hplace.kind_ne rfl)
  rw [simpleQuantifier_of_negation hplace.2, simpleQuantifier_of_negation hplace'.2]
  exact .ok rfl (h.advance hplaces) (hpast (hplaces.begins.closed h.closed) hplace)
    (hpast (hplaces.begins_other.closed h.closed') hplace')

theorem twinned_alternatives :
    Twinned start start' (Place.Negates pivot) (Place.Past (pivot + 1))
      (List.map (Tree.blurred fun _ ↦ 0)) (separatedBy (.symbol .pipe) simpleQuantifier)
      (separatedBy (.symbol .pipe) simpleQuantifier) := by
  have hbehind : Twinned start start' (Place.Past (pivot + 1)) (Place.Past (pivot + 1))
      (Option.map (Tree.blurred fun _ ↦ 0)) (behind (.symbol .pipe) simpleQuantifier)
      (behind (.symbol .pipe) simpleQuantifier) := by
    refine .consume h (fun _ hpast ↦ hpast.position_ne)
      (fun _ hclosed hkind hpast ↦ hpast.advance hclosed (hkind ▸ nofun)) ?_
        (.pure rfl fun _ hpast ↦ hpast)
    have hquantifier : Twinned start start' (Place.Past (pivot + 2)) (Place.Past (pivot + 2))
        (Tree.blurred fun _ ↦ 0) simpleQuantifier simpleQuantifier :=
      .of_coupled (coupled_simpleQuantifier (Coupling.lawful_twin h))
    exact (hquantifier.weaken fun _ hpast ↦ hpast.mono (Nat.le_succ _)).map
      fun _ _ hvalue ↦ congrArg some hvalue
  exact (twinned_simpleQuantifier h).bind fun _ _ hfirst ↦ (Twinned.many h hbehind).bind
    fun _ _ hothers ↦ .pure (by rw [List.map_cons, List.map_cons, hfirst, hothers])
      fun _ hpast ↦ hpast

theorem twinned_quantifier :
    Twinned start start' (Place.Negates pivot) (Place.Past (pivot + 1)) (Tree.blurred fun _ ↦ 0)
      quantifier quantifier := by
  refine .phrase (.consume_none (fun _ hplace ↦ hplace.kind_ne rfl)
    ((twinned_alternatives h).bind fun _ _ halternatives ↦ .pure ?_ fun _ hpast ↦ hpast))
  rw [Draft.blurred, Draft.blurred, Tree.blurred_many, Tree.blurred_many, halternatives]

theorem twinned_quantifier? :
    Twinned start start' (Place.Negates pivot) (Place.Past (pivot + 1))
      (Option.map (Tree.blurred fun _ ↦ 0)) quantifier? quantifier? :=
  .checkAny true (fun _ hplace ↦ hplace.view quantifierStart.contains rfl rfl)
    ((twinned_quantifier h).map fun _ _ hquantifier ↦ congrArg some hquantifier)

theorem twinned_groupQuestion :
    Twinned start start' (Place.Negates pivot) (Place.Past (pivot + 1)) id groupQuestion
      groupQuestion := by
  refine (twinned_quantifier h).bind fun _ _ _ session copy hplaces hpast hpast' ↦ ?_
  have hkind := congrArg Token.kind (h.here_of_ne hplaces hpast.position_ne)
  exact .ok (congrArg (· == Kind.symbol .leftBrace) hkind) hplaces hpast hpast'

/-! ### Behind a quantifier -/

section Bodies

variable (limit room : Nat)

theorem twinned_groupBody {quantifier quantifier' : Option (Phrase .quantifier)}
    (hquantifier : quantifier.map (Tree.blurred (Coupling.twin start start' pivot).blur) =
      quantifier'.map (Tree.blurred (Coupling.twin start start' pivot).blur)) :
    Twinned start start' (Place.Past (pivot + 1)) (Place.Past (pivot + 2)) (Draft.blurred fun _ ↦ 0)
      (groupBody (Rule.inside limit room) quantifier)
      (groupBody (Rule.inside limit room) quantifier') := by
  have hc := Coupling.lawful_twin h
  have hs := Coupling.scopes_twin h limit room
  refine (Twinned.expect h (fun _ hpast ↦ hpast.position_ne) fun _ hclosed hkind hpast ↦
    hpast.advance hclosed (hkind ▸ nofun)).bind fun _ _ _ ↦ .of_coupled ?_
  exact (coupled_nodeStatements hc hs).bind fun _ _ hstatements ↦ (Coupled.expect hc).bind
    fun _ _ _ ↦ coupled_draft _ (by
      simp only [Tree.blurred_optional, Tree.blurred_many, hquantifier, hstatements])

theorem twinned_nodeBody {quantifier quantifier' : Option (Phrase .quantifier)}
    (hquantifier : quantifier.map (Tree.blurred (Coupling.twin start start' pivot).blur) =
      quantifier'.map (Tree.blurred (Coupling.twin start start' pivot).blur)) :
    Twinned start start' (Place.Past (pivot + 1)) (Place.Past (pivot + 2)) (Draft.blurred fun _ ↦ 0)
      (nodeBody (Rule.inside limit room) quantifier)
      (nodeBody (Rule.inside limit room) quantifier') := by
  have hc := Coupling.lawful_twin h
  have hs := Coupling.scopes_twin h limit room
  refine (Twinned.expect h (fun _ hpast ↦ hpast.position_ne) fun _ hclosed hkind hpast ↦
    hpast.advance hclosed (hkind ▸ nofun)).bind fun _ _ _ ↦ .of_coupled ?_
  refine (coupled_label? hc).bind_same fun label ↦
    (coupled_markedContent hc hs).bind fun (marker, content) (marker', content') h ↦ ?_
  obtain ⟨hmarker, hcontent⟩ := Prod.mk.inj h
  obtain ⟨hconstraint, hchildren⟩ := NodeContent.mk.inj hcontent
  exact coupled_draft _ (by
    simp only [Tree.blurred_optional, hquantifier, hmarker, hconstraint, hchildren])

theorem twinned_node :
    Twinned start start' (Place.Negates pivot) (Place.Past (pivot + 2)) (Tree.blurred fun _ ↦ 0)
      (node (Rule.inside limit room)) (node (Rule.inside limit room)) := by
  refine .phrase (.look none (fun place hplace ↦ ?_) ((twinned_quantifier? h).bind
    fun _ _ hquantifier ↦ twinned_nodeBody h limit room hquantifier))
  rw [dummyAt?, if_neg fun hboth ↦ hplace.kind_ne rfl hboth.1]

theorem twinned_grouping :
    Twinned start start' (Place.Negates pivot) (Place.Past (pivot + 2)) (Draft.blurred fun _ ↦ 0)
      (grouping (Rule.inside limit room)) (grouping (Rule.inside limit room)) :=
  (twinned_quantifier? h).bind fun _ _ hquantifier ↦ twinned_groupBody h limit room hquantifier

end Bodies

/-! ### Statements -/

section Statements

variable (limit room : Nat) {given : Place → Prop}

omit h in
/-- Rules end alike if their bodies do. -/
theorem twinned_nested (rule : Rule)
    (hbody : ∀ room, Twinned start start' given (Place.Past (pivot + 2)) (Tree.blurred fun _ ↦ 0)
      (rule.body (Rule.inside limit room)) (rule.body (Rule.inside limit room))) :
    Twinned start start' given (Place.Past (pivot + 2)) (Tree.blurred fun _ ↦ 0)
      ((Rule.inside limit room).nested rule) ((Rule.inside limit room).nested rule) := by
  cases room with
  | zero => exact fun _ _ _ _ _ ↦ .error
  | succ room => exact .enter (hbody room)

theorem twinned_nodes
    (hnode : Twinned start start' given (Place.Past (pivot + 2)) (Tree.blurred fun _ ↦ 0)
      (Rule.inside limit room).node (Rule.inside limit room).node) :
    Twinned start start' given (Place.Past (pivot + 2)) (Draft.blurred fun _ ↦ 0)
      (nodes (Rule.inside limit room)) (nodes (Rule.inside limit room)) :=
  hnode.bind fun _ _ hnode ↦ .of_coupled
    (coupled_nodesBehind (Coupling.lawful_twin h) (Coupling.scopes_twin h limit room) hnode)

theorem twinned_nodeStatement (least : Nat)
    (hoperand : Twinned start start' given (Place.Past (pivot + 2)) (Tree.blurred fun _ ↦ 0)
      (nodeStatementOperand (Rule.inside limit room))
      (nodeStatementOperand (Rule.inside limit room))) :
    Twinned start start' given (Place.Past (pivot + 2)) (Tree.blurred fun _ ↦ 0)
      (nodeStatement (Rule.inside limit room) least)
      (nodeStatement (Rule.inside limit room) least) :=
  hoperand.bind fun _ _ hfirst ↦ .iterate h (fun _ _ hleft ↦ .of_coupled
    (coupled_nodeStatementContinuation (Coupling.lawful_twin h) (Coupling.scopes_twin h limit room)
      least hleft)) hfirst

theorem twinned_nodeStatementOperand :
    Twinned start start' (Place.Negates pivot) (Place.Past (pivot + 2)) (Tree.blurred fun _ ↦ 0)
      (nodeStatementOperand (Rule.inside limit room))
      (nodeStatementOperand (Rule.inside limit room)) := by
  refine .phrase (.checkAny false (fun _ hplace ↦ hplace.view (KindSet.contains _) rfl rfl) ?_)
  change Twinned _ _ _ _ _ (atGrouping >>= groupedOrNot _) (atGrouping >>= groupedOrNot _)
  rw [atGrouping_bind]
  refine .check false (fun _ hplace ↦ beq_false_of_ne (hplace.kind_ne rfl)) (.checkAny true
    (fun _ hplace ↦ hplace.view quantifierStart.contains rfl rfl)
      ((twinned_groupQuestion h).lookahead.bind ?_))
  rintro isGrouping _ rfl
  have hnode := twinned_nested limit room .node (twinned_node h limit)
  exact .ite (twinned_grouping h limit room) (twinned_nodes h limit room hnode)

theorem twinned_nodeStatements :
    Twinned start start' (Place.Negates pivot) (Place.Past (pivot + 2))
      (List.map (Tree.blurred fun _ ↦ 0)) (nodeStatements (Rule.inside limit room))
      (nodeStatements (Rule.inside limit room)) := by
  have hc := Coupling.lawful_twin h
  have hs := Coupling.scopes_twin h limit room
  have hstatement := twinned_nested limit room (.nodeStatement 0) fun room ↦
    twinned_nodeStatement h limit room 0 (twinned_nodeStatementOperand h limit room)
  refine hstatement.bind fun _ _ hfirst ↦ .of_coupled ?_
  exact (Coupled.many hc hs.progressive hs.progressive_other .nodeStatement .nodeStatement
    (coupled_nodeStatement? hc hs)).bind fun _ _ hothers ↦
      .pure (congrArg₂ List.cons hfirst hothers)

omit h in
theorem twinned_hitsLimit? :
    Twinned start start' (Place.Negates pivot) (Place.Negates pivot)
      (Option.map (Tree.blurred fun _ ↦ 0)) hitsLimit? hitsLimit? :=
  .check false (fun _ hplace ↦ beq_false_of_ne (hplace.kind_ne rfl)) <|
    .check false (fun _ hplace ↦ beq_false_of_ne (hplace.kind_ne rfl)) <|
      .glance fun _ _ ↦ .pure rfl fun _ hplace ↦ hplace

theorem twinned_structuralConstraint :
    Twinned start start' (Place.Negates pivot) (Place.Past (pivot + 2)) (Tree.blurred fun _ ↦ 0)
      (structuralConstraint (Rule.inside limit room))
      (structuralConstraint (Rule.inside limit room)) := by
  have hflags : Twinned start start' (Place.Negates pivot) (Place.Negates pivot) (List.map id)
      (many (oneOf matchFlags)) (many (oneOf matchFlags)) :=
    .many h (.oneOf_none fun _ hplace ↦ hplace.view (matchFlags.lookup ·) rfl rfl)
  refine .phrase (twinned_hitsLimit?.bind fun _ _ hlimit ↦ hflags.bind fun flags flags' hflags ↦
    (twinned_nodeStatements h limit room).bind fun _ _ hstatements ↦ .pure ?_ fun _ hpast ↦ hpast)
  rw [List.map_id, List.map_id] at hflags
  rw [hflags, Draft.blurred, Draft.blurred]
  simp only [Tree.blurred_optional, Tree.blurred_many, hlimit, hstatements]

/-- Child statements that begin with a negation. -/
theorem twinned_children? :
    Twinned start start' (Place.Negates pivot) (Place.Past (pivot + 2))
      (Option.map (Tree.blurred fun _ ↦ 0)) (children? (Rule.inside limit room))
      (children? (Rule.inside limit room)) :=
  .checkAny true (fun _ hplace ↦ hplace.view structuralStart.contains rfl rfl)
    ((twinned_nested limit room .structuralConstraint
      (twinned_structuralConstraint h limit)).map fun _ _ hchildren ↦ congrArg some hchildren)

end Statements

end Grammar

end CorpusQuery
