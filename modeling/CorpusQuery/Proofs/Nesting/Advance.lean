import CorpusQuery.Proofs.Construction.Grammar
import CorpusQuery.Proofs.Nesting.Progress

/-!
Every rule of the grammar moves the cursor forward. A rule may nest another one before it has passed
a token, but not in circles: `Rule.rank` grows from the rule outside to the rule inside as long as
the cursor stands still, and it never falls by more than two when the cursor has moved. So the
number of open rules stays below three times the number of tokens passed, plus the rank of the rule
opened last (`Steady`).
-/

set_option autoImplicit false
set_option relaxedAutoImplicit false

namespace CorpusQuery

open CorpusQuery.Parser CorpusQuery.Place

/-- The place of a rule in the order in which rules can be opened on the spot. -/
def Rule.rank : Rule → Nat
  | .payload => 1
  | .selection => 1
  | .expression _ => 2
  | .structuralConstraint => 2
  | .marker _ => 2
  | .loop => 3
  | .nodeStatement _ => 3
  | .node => 4

/-- The rules of a scope move the cursor forward wherever so many open rules leave room for one
more. -/
structure Steady (total : Nat) (kept : List Event → Option Failure → Prop) (depth : Nat)
    (scope : Scope) : Prop where
  forgiving : Ensures.Forgiving kept scope.depth
  nested : ∀ rule base, depth < 3 * base + rule.rank →
    Ensures total kept (Past base) (scope.nested rule) fun _ ↦ Past (base + 1)

namespace Grammar

variable {total : Nat} {kept : List Event → Option Failure → Prop} {depth base : Nat}
  {scope : Scope}

/-! ### Names and numbers -/

theorem ensures_variableName :
    Ensures total kept (Past base) variableName fun _ ↦ Past (base + 1) :=
  .map (.expect nofun)

theorem ensures_memberName : Ensures total kept (Past base) memberName fun _ ↦ Past (base + 1) :=
  .map (.expect nofun)

theorem ensures_identifier : Ensures total kept (Past base) identifier fun _ ↦ Past (base + 1) :=
  .map (.expect nofun)

theorem ensures_label? : Ensures total kept (Past base) label? fun _ ↦ Past base := by
  refine .bind (.check _) fun isMember ↦ .bind (.look _) fun isLabel ↦ .ite (fun _ ↦ ?_) fun _ ↦ ?_
  · refine .weaken ?_ (fun _ h ↦ h.1.1) fun _ _ h ↦ h
    exact .bind ensures_memberName fun _ ↦ .bind (.expect nofun) fun _ ↦
      .pure fun _ h ↦ h.mono (by omega)
  · exact .pure fun _ h ↦ h.1.1

theorem ensures_integer : Ensures total kept (Past base) integer fun _ ↦ Past (base + 1) := by
  refine .bind (.consumeAny rfl) fun token? ↦ ?_
  cases token? with
  | none => exact .fail _
  | some token => exact .pure fun _ h ↦ h

theorem ensures_numeral : Ensures total kept (Past base) numeral fun _ ↦ Past (base + 1) := by
  refine .bind (.look _) fun isDecimal ↦ .ite (fun hdecimal ↦ ?_) fun _ ↦ ?_
  · refine .bind (.advance fun place hplace ↦ ⟨hplace.1, fun hkind ↦ ?_⟩) fun _ ↦
      .bind .advance_any fun _ ↦ .bind .advance_any fun _ ↦ .pure fun _ h ↦ h
    have hdigits := hplace.2
    rw [hdecimal, atDecimal, hkind] at hdigits
    cases hdigits
  · exact .map (ensures_integer.weaken (fun _ h ↦ h.1) fun _ _ h ↦ h)

theorem ensures_signedNumeral :
    Ensures total kept (Past base) signedNumeral fun _ ↦ Past (base + 1) := by
  refine .bind (.oneOf rfl) fun sign? ↦ ?_
  cases sign? with
  | none => exact ensures_numeral
  | some sign =>
    refine .bind (.look _) fun touching ↦ .ite (fun _ ↦ ?_) fun _ ↦ ?_
    · exact .map (ensures_numeral.weaken (fun _ h ↦ h.1) fun _ _ h ↦ h.mono (Nat.le_succ _))
    · exact .bind (.expecting _) fun _ ↦ .fail _

end Grammar

namespace Steady

variable {total : Nat} {kept : List Event → Option Failure → Prop} {depth base : Nat}
  {scope : Scope}

theorem expression (hs : Steady total kept depth scope) (least : Nat)
    (h : depth < 3 * base + 2) :
    Ensures total kept (Past base) (scope.expression least) fun _ ↦ Past (base + 1) :=
  hs.nested (.expression least) base h

theorem loop (hs : Steady total kept depth scope) (h : depth < 3 * base + 3) :
    Ensures total kept (Past base) scope.loop fun _ ↦ Past (base + 1) :=
  hs.nested .loop base h

theorem structuralConstraint (hs : Steady total kept depth scope) (h : depth < 3 * base + 2) :
    Ensures total kept (Past base) scope.structuralConstraint fun _ ↦ Past (base + 1) :=
  hs.nested .structuralConstraint base h

theorem nodeStatement (hs : Steady total kept depth scope) (least : Nat)
    (h : depth < 3 * base + 3) :
    Ensures total kept (Past base) (scope.nodeStatement least) fun _ ↦ Past (base + 1) :=
  hs.nested (.nodeStatement least) base h

theorem node (hs : Steady total kept depth scope) (h : depth < 3 * base + 4) :
    Ensures total kept (Past base) scope.node fun _ ↦ Past (base + 1) :=
  hs.nested .node base h

theorem marker (hs : Steady total kept depth scope) (least : Nat) (h : depth < 3 * base + 2) :
    Ensures total kept (Past base) (scope.marker least) fun _ ↦ Past (base + 1) :=
  hs.nested (.marker least) base h

theorem selection (hs : Steady total kept depth scope) (h : depth < 3 * base + 1) :
    Ensures total kept (Past base) scope.selection fun _ ↦ Past (base + 1) :=
  hs.nested .selection base h

end Steady

namespace Grammar

variable {total : Nat} {kept : List Event → Option Failure → Prop} {depth base : Nat}
  {scope : Scope}

/-! ### Expressions -/

theorem ensures_expressionsUntil (hs : Steady total kept depth scope) {close : Kind}
    (hclose : close ≠ .endOfInput) (h : depth < 3 * base + 2) :
    Ensures total kept (Past base) (expressionsUntil scope close) fun _ ↦ Past (base + 1) := by
  refine .bind (.separatedBy (by nofun) fun _ _ ↦ hs.expression 0 (by omega)) fun _ ↦ ?_
  exact .bind (.expect hclose) fun _ ↦ .pure fun _ h ↦ h.mono (by omega)

theorem ensures_optionalExpressionsUntil (hs : Steady total kept depth scope) {close : Kind}
    (hclose : close ≠ .endOfInput) (h : depth < 3 * base + 2) :
    Ensures total kept (Past base) (optionalExpressionsUntil scope close)
      fun _ ↦ Past (base + 1) := by
  refine .bind (.consume hclose) fun isEmpty ↦ ?_
  cases isEmpty with
  | true => exact .pure fun _ h ↦ h
  | false => exact ensures_expressionsUntil hs hclose h

theorem ensures_listItems (hs : Steady total kept depth scope) (h : depth ≤ 3 * base + 2) :
    Ensures total kept (Past base) (listItems scope) fun _ ↦ Past (base + 1) := by
  refine .bind (.expect nofun) fun _ ↦ ?_
  exact (ensures_optionalExpressionsUntil hs (by nofun) (by omega)).least (by omega)

theorem ensures_primary (hs : Steady total kept depth scope) (h : depth ≤ 3 * base + 2) :
    Ensures total kept (Past base) (primary scope) fun _ ↦ Past (base + 1) := by
  refine .bind (.look _) fun kind ↦ .bind (.look _) fun next ↦ ?_
  have hadvance {category : Category} (draft : Token → Draft category)
      (hkind : kind ≠ .endOfInput) :
      Ensures total kept (fun place ↦ (place.Past base ∧ place.kind = kind) ∧
        place.peekKind 1 = next) (do return draft (← advance)) fun _ ↦ Past (base + 1) :=
    .bind (.advance fun _ h ↦ ⟨h.1.1, fun heq ↦ hkind (h.1.2.symm.trans heq)⟩) fun _ ↦
      .pure fun _ h ↦ h
  split
  · exact hadvance _ nofun
  · exact hadvance _ nofun
  · exact hadvance _ nofun
  · exact .when (.bind ensures_numeral fun _ ↦ .pure fun _ h ↦ h) fun _ h ↦ h.1.1
  · exact .when (.bind ensures_numeral fun _ ↦ .pure fun _ h ↦ h) fun _ h ↦ h.1.1
  · exact hadvance _ nofun
  · exact .when (.bind (ensures_listItems hs h) fun _ ↦ .pure fun _ h ↦ h) fun _ h ↦ h.1.1
  · exact .when (.bind ensures_variableName fun _ ↦ .pure fun _ h ↦ h) fun _ h ↦ h.1.1
  · exact .when (.bind ensures_memberName fun _ ↦ .pure fun _ h ↦ h) fun _ h ↦ h.1.1
  · refine .bind (.advance fun _ h ↦ ⟨h.1.1, fun heq ↦ nomatch h.1.2.symm.trans heq⟩) fun _ ↦
      .ite (fun _ ↦ ?_) fun _ ↦ .pure fun _ h ↦ h
    exact .bind .advance_any fun _ ↦ .bind ensures_identifier fun _ ↦
      .pure fun _ h ↦ h.mono (by omega)
  · split
    · refine .when (.bind .advance_any fun _ ↦ .bind .advance_any fun _ ↦
        .bind (.expect nofun) fun _ ↦ .bind (ensures_listItems hs (by omega)) fun _ ↦
          .pure fun _ h ↦ ?_) fun _ h ↦ h.1.1
      exact h.mono (by omega)
    · exact .failMissing _ _

theorem ensures_castTo (hs : Steady total kept depth scope) (h : depth ≤ 3 * base + 2)
    (type : ValueType) :
    Ensures total kept (fun place ↦ place.Past base ∧ place.kind ≠ .endOfInput)
      (castTo scope type) fun _ ↦ Past (base + 1) := by
  refine .bind (.advance fun _ h ↦ h) fun _ ↦ .bind .advance_any fun _ ↦
    .bind .advance_any fun _ ↦ .bind (hs.expression _ (by omega)) fun _ ↦ .pure fun _ h ↦ ?_
  exact h.mono (by omega)

theorem ensures_unary (hs : Steady total kept depth scope) (h : depth ≤ 3 * base + 2)
    (operator : UnaryOperator) :
    Ensures total kept (fun place ↦ place.Past base ∧ place.kind ≠ .endOfInput)
      (unary scope operator) fun _ ↦ Past (base + 1) := by
  refine .bind (.advance fun _ h ↦ h) fun _ ↦ .bind (hs.expression _ (by omega)) fun _ ↦
    .pure fun _ h ↦ ?_
  exact h.mono (by omega)

theorem ensures_wrapping (hs : Steady total kept depth scope) (h : depth ≤ 3 * base + 2) :
    Ensures total kept (fun place ↦ place.Past base ∧ place.kind ≠ .endOfInput)
      (wrapping scope) fun _ ↦ Past (base + 1) := by
  refine .bind (.advance fun _ h ↦ h) fun _ ↦ .bind (hs.expression _ (by omega)) fun _ ↦
    .bind (.expect nofun) fun _ ↦ .pure fun _ h ↦ ?_
  exact h.mono (by omega)

theorem kind_of_castAt? {place : Place} {type : ValueType} (h : castAt? place = some type) :
    place.kind = .symbol .leftParen := by
  unfold castAt? at h
  split at h
  · rename_i hparens
    exact hparens.1
  · cases h

theorem ensures_operand (hs : Steady total kept depth scope) (h : depth ≤ 3 * base + 2) :
    Ensures total kept (Past base) (operand scope) fun _ ↦ Past (base + 1) := by
  refine .phrase (.bind (.look _) fun type? ↦ ?_)
  cases type? with
  | some type =>
    refine (ensures_castTo hs h type).when fun place hplace ↦ ⟨hplace.1, ?_⟩
    rw [kind_of_castAt? hplace.2]
    nofun
  | none =>
    refine .when (.bind (.look _) fun kind ↦ ?_) fun _ h ↦ h.1
    cases hunary : unaryOperator? kind with
    | some operator =>
      refine (ensures_unary hs h operator).when fun place hplace ↦ ⟨hplace.1, fun hend ↦ ?_⟩
      rw [← hplace.2, hend] at hunary
      cases hunary
    | none =>
      refine .ite (fun hparen ↦ ?_) fun _ ↦ .ite (fun _ ↦ ?_) fun _ ↦ ?_
      · exact (ensures_wrapping hs h).when fun _ hplace ↦
          ⟨hplace.1, fun hend ↦ nomatch (hplace.2.symm.trans hend).symm.trans hparen⟩
      · exact .when (.bind (hs.loop (by omega)) fun _ ↦ .pure fun _ h ↦ h) fun _ h ↦ h.1
      · exact (ensures_primary hs h).when fun _ h ↦ h.1

theorem ensures_target : Ensures total kept (Past base) target fun _ ↦ Past (base + 1) := by
  refine .when (.bind (.look _) fun kind ↦ ?_) fun _ h ↦ h
  split
  · exact .map (ensures_variableName.when fun _ h ↦ h.1)
  · exact .map (ensures_memberName.when fun _ h ↦ h.1)
  · exact .failMissing _ _

theorem ensures_consumeEither {first second : Kind} (hfirst : first ≠ .endOfInput)
    (hsecond : second ≠ .endOfInput) :
    Ensures total kept (Past base) (consumeEither first second) fun _ ↦ Past base := by
  refine .bind (.consume hfirst) fun found ↦ .ite (fun _ ↦ ?_) fun _ ↦ ?_
  · exact .pure fun _ h ↦ h.mono (Nat.le_add_right _ _)
  · exact (Ensures.consume hsecond).weaken (fun _ h ↦ h.mono (Nat.le_add_right _ _))
      fun _ _ h ↦ h.mono (Nat.le_add_right _ _)

theorem kind_ne_end_of_at? {place : Place} {continuation : Continuation}
    (h : Continuation.at? place = some continuation) (hset : continuation ≠ .setPredicate) :
    place.kind ≠ .endOfInput := by
  intro hend
  unfold Continuation.at? at h
  split at h
  · cases h
    exact hset rfl
  · rw [hend] at h
    cases h

theorem ensures_draft (hs : Steady total kept depth scope) (h : depth ≤ 3 * base + 2)
    (left : Phrase .expression) (continuation : Continuation) :
    Ensures total kept
      (fun place ↦ place.Past base ∧ Continuation.at? place = some continuation)
      (continuation.draft scope left) fun _ ↦ Past (base + 1) := by
  have hadvance (hset : continuation ≠ .setPredicate) :
      Ensures total kept
        (fun place ↦ place.Past base ∧ Continuation.at? place = some continuation) advance
        fun _ ↦ Past (base + 1) :=
    .advance fun _ h ↦ ⟨h.1, kind_ne_end_of_at? h.2 hset⟩
  cases continuation with
  | path =>
    refine .bind (hadvance nofun) fun _ ↦ .bind ensures_identifier fun _ ↦ .pure fun _ h ↦ ?_
    exact h.mono (by omega)
  | call =>
    refine .bind (hadvance nofun) fun _ ↦
      .bind (ensures_optionalExpressionsUntil hs (by nofun) (by omega)) fun _ ↦ .pure fun _ h ↦ ?_
    exact h.mono (by omega)
  | listAccess =>
    refine .bind (hadvance nofun) fun _ ↦
      .bind (ensures_expressionsUntil hs (by nofun) (by omega)) fun _ ↦ .pure fun _ h ↦ ?_
    exact h.mono (by omega)
  | annotationAccess =>
    refine .bind (hadvance nofun) fun _ ↦
      .bind (ensures_expressionsUntil hs (by nofun) (by omega)) fun _ ↦ .pure fun _ h ↦ ?_
    exact h.mono (by omega)
  | binary operator =>
    refine .bind (hadvance nofun) fun _ ↦ .bind (hs.expression _ (by omega)) fun _ ↦
      .pure fun _ h ↦ ?_
    exact h.mono (by omega)
  | assignment =>
    refine .bind (hadvance nofun) fun _ ↦ .bind (.consume nofun) fun _ ↦
      .bind ensures_target fun _ ↦ .pure fun _ h ↦ ?_
    exact h.mono (by omega)
  | setPredicate =>
    refine .when (.bind (ensures_consumeEither nofun nofun) fun _ ↦
      .bind (ensures_consumeEither nofun nofun) fun _ ↦ .bind (.expect nofun) fun _ ↦
        .bind (hs.expression _ (by omega)) fun _ ↦ .pure fun _ h ↦ ?_) fun _ h ↦ h.1
    exact h.mono (by omega)
  | ternary =>
    refine .bind (hadvance nofun) fun _ ↦ .bind (hs.expression _ (by omega)) fun _ ↦
      .bind (.expect nofun) fun _ ↦ .bind (hs.expression _ (by omega)) fun _ ↦ .pure fun _ h ↦ ?_
    exact h.mono (by omega)

theorem ensures_continuation (hs : Steady total kept depth scope) (h : depth ≤ 3 * base + 2)
    (least : Nat) (left : Phrase .expression) :
    Ensures total kept (Past base) (continuation scope least left) fun next? ↦
      Past (base + next?.isSome.toNat) := by
  refine .bind (.look _) fun found? ↦ ?_
  cases found? with
  | none => exact .pure fun _ h ↦ h.1
  | some continuation =>
    exact .ite (fun _ ↦ .pure fun _ h ↦ h.1) fun _ ↦
      .map (.phraseFrom _ (ensures_draft hs h left continuation))

theorem ensures_expression (hs : Steady total kept depth scope) (h : depth ≤ 3 * base + 2)
    (least : Nat) :
    Ensures total kept (Past base) (expression scope least) fun _ ↦ Past (base + 1) :=
  .bind (ensures_operand hs h) fun first ↦
    .iterate (fun left _ hle ↦ ensures_continuation hs (by omega) least left) first

/-! ### Loops -/

theorem ensures_boundedRange (hs : Steady total kept depth scope) (h : depth ≤ 3 * base + 4) :
    Ensures total kept (Past base) (boundedRange scope) fun _ ↦ Past (base + 1) := by
  refine .phrase (.bind (.expect nofun) fun _ ↦ .bind (hs.expression _ (by omega)) fun _ ↦
    .bind (.expect nofun) fun _ ↦ .bind (hs.expression _ (by omega)) fun _ ↦
      .bind (.expect nofun) fun _ ↦ .pure fun _ h ↦ ?_)
  exact h.mono (by omega)

theorem ensures_parity? : Ensures total kept (Past base) parity? fun _ ↦ Past base := by
  refine .bind (.consume nofun) fun _ ↦ .ite (fun _ ↦ ?_) fun _ ↦ .bind (.consume nofun) fun _ ↦ ?_
  · exact .pure fun _ h ↦ h.mono (Nat.le_add_right _ _)
  · exact .pure fun _ h ↦ h.mono (by omega)

/-- A part behind a word never takes the cursor back, whether it is there or not. -/
theorem ensures_behind {α : Type} {word : Keyword} {body : Parser α}
    (h : Ensures total kept (Past (base + 1)) body fun _ ↦ Past (base + 1)) :
    Ensures total kept (Past base) (behind (.keyword word) body) fun _ ↦ Past base :=
  (Ensures.behind (by nofun) h).weaken (fun _ h ↦ h) fun _ _ h ↦ h.mono (Nat.le_add_right _ _)

theorem ensures_loopControl (hs : Steady total kept depth scope) (h : depth ≤ 3 * base + 4) :
    Ensures total kept (Past base) (loopControl scope) fun _ ↦ Past (base + 1) := by
  have hexpression : Ensures total kept (Past (base + 1)) (scope.expression 0)
      fun _ ↦ Past (base + 1) := (hs.expression 0 (by omega)).least (by omega)
  have hrange : Ensures total kept (Past (base + 1)) (boundedRange scope)
      fun _ ↦ Past (base + 1) := (ensures_boundedRange hs (by omega)).least (by omega)
  exact .phrase (.bind ensures_parity? fun _ ↦ .bind (ensures_behind hexpression) fun _ ↦
    .bind (ensures_behind hrange) fun _ ↦ .bind (ensures_behind hrange) fun _ ↦
      .bind (ensures_behind hexpression) fun _ ↦ .bind (.expect nofun) fun _ ↦
        .pure fun _ h ↦ h)

theorem ensures_counted (hs : Steady total kept depth scope) (h : depth < 3 * base + 2) :
    Ensures total kept (Past base) (counted scope) fun _ ↦ Past (base + 1) := by
  refine .bind (hs.expression _ h) fun _ ↦ .bind (.expect nofun) fun _ ↦
    .bind ensures_variableName fun _ ↦ .pure fun _ h ↦ ?_
  exact h.mono (by omega)

theorem ensures_counter (hs : Steady total kept depth scope) (h : depth < 3 * base + 2) :
    Ensures total kept (Past base) (counter scope) fun _ ↦ Past (base + 1) :=
  .phrase (.bind (ensures_counted hs h) fun _ ↦ .pure fun _ h ↦ h)

theorem ensures_counters (hs : Steady total kept depth scope) (h : depth ≤ 3 * base + 4) :
    Ensures total kept (Past base) (counters scope) fun _ ↦ Past base := by
  refine .bind (.consume nofun) fun found ↦ ?_
  cases found with
  | false => exact .pure fun _ h ↦ h
  | true =>
    exact (Ensures.separatedBy (by nofun) fun _ hle ↦
      ensures_counter hs (by simp only [Bool.toNat_true] at hle; omega)).least
        (by simp only [Bool.toNat_true]; omega)

theorem ensures_loop (hs : Steady total kept depth scope) (h : depth ≤ 3 * base + 3) :
    Ensures total kept (Past base) (loop scope) fun _ ↦ Past (base + 1) := by
  refine .phrase (.bind (.expect nofun) fun _ ↦ .bind (ensures_counted hs (by omega)) fun _ ↦
    .bind (ensures_loopControl hs (by omega)) fun _ ↦
      .bind (ensures_counters hs (by omega)) fun _ ↦ .pure fun _ h ↦ ?_)
  exact h.mono (by omega)

/-! ### Quantifiers and markers -/

theorem ensures_greed {possessive : Kind} (hpossessive : possessive ≠ .endOfInput) :
    Ensures total kept (Past base) (greed possessive) fun _ ↦ Past base := by
  refine .bind (.consume nofun) fun _ ↦ .ite (fun _ ↦ ?_) fun _ ↦
    .bind (.consume hpossessive) fun _ ↦ ?_
  · exact .pure fun _ h ↦ h.mono (Nat.le_add_right _ _)
  · exact .pure fun _ h ↦ h.mono (by omega)

theorem ensures_countFrom (low : String) :
    Ensures total kept (Past base) (countFrom low) fun _ ↦ Past base := by
  refine .bind (.consume nofun) fun _ ↦ .ite (fun _ ↦ ?_) fun _ ↦ ?_
  · refine .bind (.expect nofun) fun _ ↦ .bind (ensures_greed nofun) fun _ ↦
      .bind (.consume nofun) fun _ ↦ .pure fun _ h ↦ ?_
    exact h.mono (by omega)
  · refine .bind (.consume nofun) fun _ ↦ .ite (fun _ ↦ .pure_bind ?_)
      fun _ ↦ .bind (.consume nofun) fun _ ↦ ?_
    all_goals
      refine .bind (ensures_greed nofun) fun _ ↦ .bind (.consume nofun) fun _ ↦ .pure fun _ h ↦ ?_
      exact h.mono (by omega)

theorem ensures_simpleQuantifier :
    Ensures total kept (Past base) simpleQuantifier fun _ ↦ Past (base + 1) := by
  refine .phrase (.bind (.look _) fun first ↦ ?_)
  have hadvance (hkind : first.kind ≠ .endOfInput) :
      Ensures total kept (fun place ↦ place.Past base ∧ place.here = first) advance
        fun _ ↦ Past (base + 1) :=
    .advance fun _ h ↦ ⟨h.1, fun hend ↦ hkind (h.2 ▸ hend)⟩
  split <;> rename_i hkind
  · exact .bind (hadvance (hkind ▸ nofun)) fun _ ↦ .pure fun _ h ↦ h
  · exact .bind (hadvance (hkind ▸ nofun)) fun _ ↦ .pure fun _ h ↦ h
  · exact .bind (hadvance (hkind ▸ nofun)) fun _ ↦ .bind (ensures_greed nofun) fun _ ↦
      .pure fun _ h ↦ h
  · exact .bind (hadvance (hkind ▸ nofun)) fun _ ↦ .bind (ensures_greed nofun) fun _ ↦
      .pure fun _ h ↦ h
  · exact .bind (hadvance (hkind ▸ nofun)) fun _ ↦ ensures_countFrom _
  · exact .bind (.expecting _) fun _ ↦ .fail _

theorem ensures_quantifier :
    Ensures total kept (Past base) quantifier fun _ ↦ Past (base + 1) := by
  refine .phrase (.bind (.consume nofun) fun _ ↦
    .bind (.separatedBy (by nofun) fun _ _ ↦ ensures_simpleQuantifier) fun _ ↦
      .ite (fun _ ↦ .bind (.expect nofun) fun _ ↦ ?_) fun _ ↦ ?_)
  · exact .pure fun _ h ↦ h.mono (by omega)
  · exact .pure fun _ h ↦ h.mono (by omega)

theorem ensures_quantifier? :
    Ensures total kept (Past base) quantifier? fun _ ↦ Past base :=
  .bind (.checkAny _) fun _ ↦ .ite
    (fun _ ↦ .map ((ensures_quantifier.least (Nat.le_succ _)).when fun _ h ↦ h.1))
    fun _ ↦ .pure fun _ h ↦ h.1

theorem ensures_markerArguments :
    Ensures total kept (Past base) markerArguments fun _ ↦ Past base := by
  refine .bind (.consume nofun) fun _ ↦ .ite (fun _ ↦ ?_) fun _ ↦ ?_
  · refine .bind (.separatedBy (by nofun) fun _ _ ↦ ensures_signedNumeral) fun _ ↦
      .bind (.expect nofun) fun _ ↦ .pure fun _ h ↦ ?_
    exact h.mono (by omega)
  · exact .pure fun _ h ↦ h.mono (Nat.le_add_right _ _)

theorem ensures_markerOperand (hs : Steady total kept depth scope) (h : depth ≤ 3 * base + 2) :
    Ensures total kept (Past base) (markerOperand scope) fun _ ↦ Past (base + 1) := by
  refine .phrase (.bind (.consume nofun) fun isWrapped ↦ ?_)
  cases isWrapped with
  | true =>
    refine .bind (hs.marker 0 (by simp only [Bool.toNat_true]; omega)) fun _ ↦
      .bind (.expect nofun) fun _ ↦ .pure fun _ h ↦ ?_
    exact h.mono (by simp only [Bool.toNat_true]; omega)
  | false =>
    refine .bind (.check _) fun isCall ↦ .ite (fun hcall ↦ ?_) fun _ ↦ .failMissing _ _
    refine .bind (.advance fun _ h ↦ ⟨h.1, fun hend ↦ ?_⟩) fun _ ↦
      .bind ensures_markerArguments fun _ ↦ .pure fun _ h ↦ h
    have hkind := h.2
    rw [hcall, hend] at hkind
    cases hkind

theorem ensures_markerContinuation (hs : Steady total kept depth scope)
    (h : depth ≤ 3 * base + 2) (least : Nat) (left : Phrase .marker) :
    Ensures total kept (Past base) (markerContinuation scope least left) fun next? ↦
      Past (base + next?.isSome.toNat) := by
  refine .bind (.look _) fun kind ↦ ?_
  cases hconnective : Connective.ofKind? kind with
  | none => exact .pure fun _ h ↦ h.1
  | some connective =>
    refine .ite (fun _ ↦ .pure fun _ h ↦ h.1) fun _ ↦ .map (.phraseFrom _ ?_)
    refine .bind (.advance fun _ h ↦ ⟨h.1, fun hend ↦ ?_⟩) fun _ ↦
      .bind (hs.marker _ (by omega)) fun _ ↦ .pure fun _ h ↦ h.mono (Nat.le_succ _)
    rw [← h.2, hend] at hconnective
    cases hconnective

theorem ensures_marker (hs : Steady total kept depth scope) (h : depth ≤ 3 * base + 2)
    (least : Nat) : Ensures total kept (Past base) (marker scope least) fun _ ↦ Past (base + 1) :=
  .bind (ensures_markerOperand hs h) fun first ↦
    .iterate (fun left _ hle ↦ ensures_markerContinuation hs (by omega) least left) first

/-! ### Edges and nodes -/

theorem ensures_atEdge {given : Place → Prop} :
    Ensures total kept given atEdge fun _ ↦ given :=
  .bind (.expecting _) fun _ ↦ (Ensures.look _).weaken (fun _ h ↦ h) fun _ _ h ↦ h.1

theorem ensures_halves {head tail : Kind} (hhead : head ≠ .endOfInput) :
    Ensures total kept (Past base) (halves head tail) fun _ ↦ Past (base + 1) := by
  refine .bind (.expect hhead) fun _ ↦ .bind (.expecting _) fun _ ↦ .bind (.look _) fun _ ↦
    .ite (fun _ ↦ ?_) fun _ ↦ .fail _
  exact .when (.bind .advance_any fun _ ↦ .pure fun _ h ↦ h) fun _ h ↦ h.1

theorem ensures_edgeEnd {head tail : Kind} (hhead : head ≠ .endOfInput) :
    Ensures total kept (Past base) (edgeEnd head tail) fun _ ↦ Past (base + 1) := by
  refine .bind (.check _) fun _ ↦ .bind (.look _) fun _ ↦ .ite (fun _ ↦ ?_) fun _ ↦ ?_
  · exact .when (.bind (ensures_halves hhead) fun _ ↦ .pure fun _ h ↦ h) fun _ h ↦ h.1.1
  · exact .when (.bind (ensures_halves nofun) fun _ ↦ .pure fun _ h ↦ h) fun _ h ↦ h.1.1

theorem ensures_edgeConstraint? (hs : Steady total kept depth scope) (h : depth < 3 * base + 2) :
    Ensures total kept (Past base) (edgeConstraint? scope) fun _ ↦ Past base := by
  refine .bind (.check _) fun _ ↦ .ite (fun _ ↦ .pure fun _ h ↦ h.1) fun _ ↦ .map ?_
  exact ((hs.expression 0 h).least (Nat.le_succ _)).when fun _ h ↦ h.1

theorem ensures_edge (hs : Steady total kept depth scope) (h : depth ≤ 3 * base + 4) :
    Ensures total kept (Past base) (edge scope) fun _ ↦ Past (base + 1) := by
  refine .phrase (.bind (.oneOf rfl) fun ends? ↦ ?_)
  cases ends? with
  | some ends => exact .pure fun _ h ↦ h
  | none =>
    refine .bind (ensures_edgeEnd nofun) fun _ ↦ .bind (.expect nofun) fun _ ↦
      .bind ensures_label? fun _ ↦ .bind (ensures_edgeConstraint? hs ?_) fun _ ↦
        .bind (.expect nofun) fun _ ↦ .bind (ensures_edgeEnd nofun) fun _ ↦ .pure fun _ h ↦ ?_
    · simp only [Option.isSome_none, Bool.toNat_false]
      omega
    · exact h.mono (by simp only [Option.isSome_none, Bool.toNat_false]; omega)

theorem ensures_elementFrom (hs : Steady total kept depth scope) (h : depth ≤ 3 * base + 3)
    (source : Phrase .node) :
    Ensures total kept (Past base) (elementFrom scope source) fun _ ↦ Past base := by
  refine .phraseFrom _ (.bind ensures_atEdge fun _ ↦ .ite (fun _ ↦ ?_) fun _ ↦ .pure fun _ h ↦ h)
  refine .bind (ensures_edge hs (by omega)) fun _ ↦ .bind (hs.node (by omega)) fun _ ↦
    .pure fun _ h ↦ ?_
  exact h.mono (by omega)

theorem ensures_element (hs : Steady total kept depth scope) (h : depth ≤ 3 * base + 3) :
    Ensures total kept (Past base) (element scope) fun _ ↦ Past (base + 1) :=
  .bind (hs.node (by omega)) fun source ↦ ensures_elementFrom hs (by omega) source

theorem ensures_children? (hs : Steady total kept depth scope) (h : depth < 3 * base + 2) :
    Ensures total kept (Past base) (children? scope) fun _ ↦ Past base := by
  refine .bind (.checkAny _) fun _ ↦ .ite (fun _ ↦ .map ?_) fun _ ↦ .pure fun _ h ↦ h.1
  exact ((hs.structuralConstraint h).least (Nat.le_succ _)).when fun _ h ↦ h.1

theorem ensures_leadingConstraint (hs : Steady total kept depth scope)
    (h : depth < 3 * base + 2) :
    Ensures total kept (Past base) (leadingConstraint scope) fun _ ↦ Past (base + 1) := by
  refine .bind (hs.expression 0 h) fun _ ↦ .bind (.check _) fun _ ↦
    .ite (fun _ ↦ .pure fun _ h ↦ h.1) fun _ ↦ ?_
  refine .when (.bind (.look _) fun _ ↦ .bind (.checkAny _) fun _ ↦
    .ite (fun _ ↦ .pure fun _ h ↦ h.1.1) fun _ ↦ .fail _) fun _ h ↦ h.1

theorem ensures_onlyChildren (hs : Steady total kept depth scope) (h : depth < 3 * base + 2) :
    Ensures total kept (Past base) (onlyChildren scope) fun _ ↦ Past (base + 1) :=
  .bind (ensures_children? hs h) fun _ ↦ .bind (.expect nofun) fun _ ↦ .pure fun _ h ↦ h

theorem ensures_nodeContent (hs : Steady total kept depth scope) (h : depth < 3 * base + 2) :
    Ensures total kept (Past base) (nodeContent scope) fun _ ↦ Past (base + 1) := by
  rw [nodeContent_eq_either]
  refine .bind (.consume nofun) fun isEmpty ↦ ?_
  cases isEmpty with
  | true => exact .pure fun _ h ↦ h
  | false =>
    refine .either hs.forgiving _ (ensures_leadingConstraint hs h) (fun _ ↦ ?_)
      (.attempt hs.forgiving _ (ensures_onlyChildren hs h)) fun _ ↦ .pure fun _ h ↦ h
    refine .bind (ensures_children? hs ?_) fun _ ↦ .bind (.expect nofun) fun _ ↦
      .pure fun _ h ↦ h.mono ?_
    · simp only [Bool.toNat_false]
      omega
    · simp only [Bool.toNat_false]
      omega

theorem ensures_leadingMarker (hs : Steady total kept depth scope) (h : depth < 3 * base + 2) :
    Ensures total kept (Past base) (leadingMarker scope) fun _ ↦ Past (base + 1) :=
  .bind (hs.marker 0 h) fun _ ↦ .bind (.expect nofun) fun _ ↦ .pure fun _ h ↦ h.mono (by omega)

theorem ensures_markedContent (hs : Steady total kept depth scope) (h : depth < 3 * base + 2) :
    Ensures total kept (Past base) (markedContent scope) fun _ ↦ Past (base + 1) := by
  rw [markedContent_eq_either]
  refine .either hs.forgiving _ (ensures_leadingMarker hs h) (fun _ ↦ ?_)
    (ensures_nodeContent hs h) fun _ ↦ .pure fun _ h ↦ h
  exact .bind (ensures_nodeContent hs (by omega)) fun _ ↦ .pure fun _ h ↦ h.mono (by omega)

theorem kind_of_dummyAt? {place : Place} {cardinality : Cardinality}
    (h : dummyAt? place = some cardinality) : place.kind = .symbol .leftBracket := by
  unfold dummyAt? at h
  split at h
  · rename_i hbrackets
    exact hbrackets.1
  · cases h

theorem ensures_node (hs : Steady total kept depth scope) (h : depth ≤ 3 * base + 4) :
    Ensures total kept (Past base) (node scope) fun _ ↦ Past (base + 1) := by
  refine .phrase (.bind (.look _) fun dummy? ↦ ?_)
  cases dummy? with
  | some cardinality =>
    refine .bind (.advance fun _ h ↦ ⟨h.1, fun hend ↦ ?_⟩) fun _ ↦ .bind .advance_any fun _ ↦
      .bind .advance_any fun _ ↦ .pure fun _ h ↦ h
    exact nomatch hend.symm.trans (kind_of_dummyAt? h.2)
  | none =>
    refine .when (.bind ensures_quantifier? fun _ ↦ .bind (.expect nofun) fun _ ↦
      .bind ensures_label? fun _ ↦ .bind (ensures_markedContent hs (by omega)) fun _ ↦
        .pure fun _ h ↦ ?_) fun _ h ↦ h.1
    exact h.mono (by omega)

/-! ### Node statements -/

theorem ensures_nodeStatement? (hs : Steady total kept depth scope) (h : depth < 3 * base + 3) :
    Ensures total kept (Past base) (nodeStatement? scope) fun statement? ↦
      Past (base + statement?.isSome.toNat) :=
  .bind (.checkAny _) fun _ ↦ .ite
    (fun _ ↦ .map ((hs.nodeStatement 0 h).when fun _ h ↦ h.1)) fun _ ↦ .pure fun _ h ↦ h.1

theorem ensures_nodeStatements (hs : Steady total kept depth scope) (h : depth < 3 * base + 3) :
    Ensures total kept (Past base) (nodeStatements scope) fun _ ↦ Past (base + 1) :=
  .bind (hs.nodeStatement 0 h) fun _ ↦
    .bind (.many fun _ _ ↦ ensures_nodeStatement? hs (by omega)) fun _ ↦ .pure fun _ h ↦ h

theorem ensures_atGrouping : Ensures total kept (Past base) atGrouping fun _ ↦ Past base := by
  refine .bind (.check _) fun _ ↦ .ite (fun _ ↦ .pure fun _ h ↦ h.1) fun _ ↦
    .bind (.checkAny _) fun _ ↦ .ite (fun _ ↦ ?_) fun _ ↦ .pure fun _ h ↦ h.1.1
  refine .when (.lookahead (.bind ensures_quantifier fun _ ↦ .look _)) fun _ h ↦ h.1.1

theorem ensures_grouping (hs : Steady total kept depth scope) (h : depth ≤ 3 * base + 5) :
    Ensures total kept (Past base) (grouping scope) fun _ ↦ Past (base + 1) := by
  refine .bind ensures_quantifier? fun _ ↦ .bind (.expect nofun) fun _ ↦
    .bind (ensures_nodeStatements hs (by omega)) fun _ ↦ .bind (.expect nofun) fun _ ↦
      .pure fun _ h ↦ ?_
  exact h.mono (by omega)

/-- A sequence begins with an arrangement, so its statements do not begin on the spot. -/
theorem ensures_sequence (hs : Steady total kept depth scope) (h : depth ≤ 3 * base + 3) :
    Ensures total kept
      (fun place ↦ place.Past base ∧ (KindSet.ofKeys arrangements).contains place.kind = true)
      (sequence scope) fun _ ↦ Past (base + 1) := by
  have harrangements : Ensures total kept
      (fun place ↦ place.Past base ∧ (KindSet.ofKeys arrangements).contains place.kind = true)
      (many (oneOf arrangements)) fun _ ↦ Past (base + 1) := by
    refine .bind (.iterate_first ?_ fun items count _ ↦ ?_) fun _ ↦ .pure fun _ h ↦ h
    · refine .bind (.oneOf_found rfl) fun value? ↦ .pure fun _ h ↦ ⟨?_, h.2⟩
      rw [Option.isSome_map]
      exact h.1
    · refine .bind (.oneOf rfl) fun value? ↦ .pure fun _ h ↦ ?_
      rw [Option.isSome_map]
      exact h
  refine .bind harrangements fun _ ↦ .bind (ensures_nodeStatements hs (by omega)) fun _ ↦
    .pure fun _ h ↦ ?_
  exact h.mono (by omega)

theorem ensures_nodes (hs : Steady total kept depth scope) (h : depth ≤ 3 * base + 3) :
    Ensures total kept (Past base) (nodes scope) fun _ ↦ Past (base + 1) := by
  refine .bind (hs.node (by omega)) fun node ↦ .bind ensures_atEdge fun _ ↦
    .ite (fun _ ↦ .pure_bind ?_) fun _ ↦ .bind (.check _) fun _ ↦ .when ?_ fun _ h ↦ h.1
  all_goals
    refine .ite (fun _ ↦ ?_) fun _ ↦ .pure fun _ h ↦ h
    refine .bind (ensures_elementFrom hs (by omega) node) fun _ ↦
      .bind (.many fun _ _ ↦ .behind (by nofun) ?_) fun _ ↦ .pure fun _ h ↦ h
    exact (ensures_element hs (by omega)).least (Nat.le_succ _)

theorem ensures_nodeStatementOperand (hs : Steady total kept depth scope)
    (h : depth ≤ 3 * base + 3) :
    Ensures total kept (Past base) (nodeStatementOperand scope) fun _ ↦ Past (base + 1) := by
  refine .phrase (.bind (.checkAny _) fun isSequence ↦ .ite (fun hsequence ↦ ?_) fun _ ↦ ?_)
  · exact (ensures_sequence hs h).when fun _ h ↦ ⟨h.1, h.2.trans hsequence⟩
  · refine .when (.bind ensures_atGrouping fun _ ↦ .ite (fun _ ↦ ?_) fun _ ↦ ?_) fun _ h ↦ h.1
    · exact ensures_grouping hs (by omega)
    · exact ensures_nodes hs h

theorem ensures_nodeStatementContinuation (hs : Steady total kept depth scope)
    (h : depth ≤ 3 * base + 3) (least : Nat) (left : Phrase .nodeStatement) :
    Ensures total kept (Past base) (nodeStatementContinuation scope least left) fun next? ↦
      Past (base + next?.isSome.toNat) := by
  refine .ite (fun _ ↦ .pure fun _ h ↦ h) fun _ ↦ .bind (.checkAny _) fun found ↦
    .ite (fun hfound ↦ .map (.phraseFrom _ ?_)) fun _ ↦ .pure fun _ h ↦ h.1
  refine .bind (.advance fun _ h ↦ ⟨h.1, fun hend ↦ ?_⟩) fun _ ↦
    .bind (hs.nodeStatement _ (by omega)) fun _ ↦ .pure fun _ h ↦ h.mono (Nat.le_succ _)
  have hkind := h.2
  rw [hfound, hend] at hkind
  cases hkind

theorem ensures_nodeStatement (hs : Steady total kept depth scope) (h : depth ≤ 3 * base + 3)
    (least : Nat) :
    Ensures total kept (Past base) (nodeStatement scope least) fun _ ↦ Past (base + 1) :=
  .bind (ensures_nodeStatementOperand hs h) fun first ↦
    .iterate (fun left _ hle ↦ ensures_nodeStatementContinuation hs (by omega) least left) first

theorem ensures_hitsLimit? : Ensures total kept (Past base) hitsLimit? fun _ ↦ Past base := by
  refine .bind (.check _) fun _ ↦ .ite (fun _ ↦ ?_) fun _ ↦ ?_
  · refine .map (.when (.phrase ?_) fun _ h ↦ h.1)
    exact .bind .advance_any fun _ ↦ .pure fun _ h ↦ h
  · refine .bind (.check _) fun _ ↦ .bind (.look _) fun _ ↦ .ite (fun _ ↦ ?_) fun _ ↦
      .pure fun _ h ↦ h.1.1.1
    refine .map (.when (.phrase ?_) fun _ h ↦ h.1.1.1)
    exact .bind .advance_any fun _ ↦ .bind .advance_any fun _ ↦ .pure fun _ h ↦ h

theorem ensures_structuralConstraint (hs : Steady total kept depth scope)
    (h : depth ≤ 3 * base + 2) :
    Ensures total kept (Past base) (structuralConstraint scope) fun _ ↦ Past (base + 1) :=
  .phrase (.bind ensures_hitsLimit? fun _ ↦ .bind (.many fun _ _ ↦ .oneOf rfl) fun _ ↦
    .bind (ensures_nodeStatements hs (by omega)) fun _ ↦ .pure fun _ h ↦ h)

/-! ### Queries -/

theorem ensures_clause (hs : Steady total kept depth scope) (h : depth ≤ 3 * base + 4)
    (word connective : Keyword) :
    Ensures total kept (Past base) (scope.clause word connective) fun _ ↦ Past base := by
  refine ensures_behind ?_
  exact .bind (.expect nofun) fun _ ↦ (hs.expression 0 (by omega)).least (by omega)

theorem ensures_binding : Ensures total kept (Past base) binding fun _ ↦ Past (base + 1) := by
  refine .phrase (.bind (.oneOf rfl) fun _ ↦
    .bind (.separatedBy (by nofun) fun _ _ ↦ ensures_memberName) fun _ ↦
      .bind (.expect nofun) fun _ ↦ .bind ensures_identifier fun _ ↦ .pure fun _ h ↦ ?_)
  exact h.mono (by omega)

theorem ensures_bindings : Ensures total kept (Past base) bindings fun _ ↦ Past base := by
  refine .bind (.consume nofun) fun _ ↦ .ite (fun _ ↦ ?_) fun _ ↦ ?_
  · exact (Ensures.separatedBy (by nofun) fun _ _ ↦ ensures_binding).least (by omega)
  · exact .pure fun _ h ↦ h.mono (Nat.le_add_right _ _)

theorem ensures_payload (hs : Steady total kept depth scope) (h : depth ≤ 3 * base + 3) :
    Ensures total kept (Past base) (payload scope) fun _ ↦ Past (base + 1) := by
  refine .phrase (.bind (.check _) fun isAll ↦ .bind (.look _) fun isLast ↦
    .ite (fun hall ↦ ?_) fun _ ↦ ?_)
  · refine .bind (.advance fun _ h ↦ ⟨h.1.1, fun hend ↦ ?_⟩) fun _ ↦ .pure fun _ h ↦ h
    have hkind := h.1.2
    rw [(Bool.and_eq_true_iff.mp hall).1, hend] at hkind
    cases hkind
  · refine .when (.bind ensures_bindings fun _ ↦ .bind (ensures_clause hs (by omega) _ _) fun _ ↦
      .bind (.expect nofun) fun _ ↦ .bind (hs.selection (by omega)) fun _ ↦
        .pure fun _ h ↦ ?_) fun _ h ↦ h.1.1
    exact h.mono (by omega)

theorem ensures_having? (hs : Steady total kept depth scope) (h : depth ≤ 3 * base + 4) :
    Ensures total kept (Past base) (having? scope) fun _ ↦ Past base :=
  ensures_behind ((hs.expression 0 (by omega)).least (by omega))

theorem ensures_lane (hs : Steady total kept depth scope) (h : depth ≤ 3 * base + 4) :
    Ensures total kept (Past base) (lane scope) fun _ ↦ Past (base + 1) := by
  refine .phrase (.bind (.expect nofun) fun _ ↦ .bind ensures_identifier fun _ ↦
    .bind (ensures_behind (ensures_memberName.least (Nat.le_succ _))) fun _ ↦
      .bind (hs.structuralConstraint (by omega)) fun _ ↦ .pure fun _ h ↦ ?_)
  exact h.mono (by omega)

theorem ensures_plainSelection (hs : Steady total kept depth scope) (h : depth < 3 * base + 2) :
    Ensures total kept (Past base) (plainSelection scope) fun _ ↦ Past (base + 1) :=
  .bind (hs.expression 0 h) fun _ ↦ .bind .expect_end fun _ ↦ .pure fun _ h ↦ h

theorem ensures_structuralSelection (hs : Steady total kept depth scope)
    (h : depth < 3 * base + 2) :
    Ensures total kept (Past base) (structuralSelection scope) fun _ ↦ Past (base + 1) := by
  refine .bind (.check _) fun _ ↦ .when (.ite (fun _ ↦ ?_) fun _ ↦ ?_) fun _ h ↦ h.1
  · exact .bind (.separatedBy (by nofun) fun _ _ ↦ ensures_lane hs (by omega)) fun _ ↦
      .bind (ensures_having? hs (by omega)) fun _ ↦ .pure fun _ h ↦ h
  · exact .bind (hs.structuralConstraint h) fun _ ↦
      .bind (ensures_having? hs (by omega)) fun _ ↦ .pure fun _ h ↦ h

theorem ensures_selection (hs : Steady total kept depth scope) (h : depth ≤ 3 * base + 1) :
    Ensures total kept (Past base) (selection scope) fun _ ↦ Past (base + 1) := by
  rw [selection_eq_either]
  exact .phrase (.either hs.forgiving _ (ensures_plainSelection hs (by omega))
    (fun _ ↦ .pure fun _ h ↦ h)
    (.attempt hs.forgiving _ (ensures_structuralSelection hs (by omega)))
    fun _ ↦ .pure fun _ h ↦ h)

theorem ensures_groupExpression (hs : Steady total kept depth scope)
    (h : depth ≤ 3 * base + 4) :
    Ensures total kept (Past base) (groupExpression scope) fun _ ↦ Past (base + 1) := by
  refine .phrase (.bind (.expect nofun) fun _ ↦ .bind (hs.expression 0 (by omega)) fun _ ↦
    .bind (ensures_clause hs (by omega) _ _) fun _ ↦ .bind (.expect nofun) fun _ ↦
      .bind (.expect nofun) fun _ ↦
        .bind (ensures_behind ((hs.expression 0 (by omega)).least (by omega))) fun _ ↦
          .pure fun _ h ↦ ?_)
  exact h.mono (by omega)

theorem ensures_group (hs : Steady total kept depth scope) (h : depth ≤ 3 * base + 4) :
    Ensures total kept (Past base) (group scope) fun _ ↦ Past (base + 1) := by
  refine .phrase (.bind (.expect nofun) fun _ ↦
    .bind (.separatedBy (by nofun) fun _ _ ↦ ensures_groupExpression hs (by omega)) fun _ ↦
      .pure fun _ h ↦ ?_)
  exact h.mono (by omega)

theorem ensures_resultLimit? : Ensures total kept (Past base) resultLimit? fun _ ↦ Past base := by
  refine .bind (.check _) fun _ ↦ .ite (fun _ ↦ ?_) fun _ ↦ .pure fun _ h ↦ h.1
  refine .map (.when (.phrase (.bind .advance_any fun _ ↦ .bind (.consume nofun) fun _ ↦
    .bind ensures_integer fun _ ↦ .pure fun _ h ↦ ?_)) fun _ h ↦ h.1)
  exact h.mono (by omega)

theorem ensures_orderExpression (hs : Steady total kept depth scope)
    (h : depth < 3 * base + 2) :
    Ensures total kept (Past base) (orderExpression scope) fun _ ↦ Past (base + 1) := by
  refine .phrase (.bind (hs.expression 0 h) fun _ ↦ .bind (.oneOf rfl) fun direction? ↦ ?_)
  cases direction? with
  | some direction => exact .pure fun _ h ↦ h.mono (Nat.le_add_right _ _)
  | none => exact .failMissing _ _

theorem ensures_orders (hs : Steady total kept depth scope) (h : depth ≤ 3 * base + 4) :
    Ensures total kept (Past base) (orders scope) fun _ ↦ Past base := by
  refine .bind (.consume nofun) fun found ↦ .ite (fun _ ↦ .bind (.expect nofun) fun _ ↦ ?_)
    fun _ ↦ .pure fun _ h ↦ h.mono (Nat.le_add_right _ _)
  exact (Ensures.separatedBy (by nofun) fun _ _ ↦
    ensures_orderExpression hs (by omega)).least (by omega)

theorem ensures_result (hs : Steady total kept depth scope) (h : depth ≤ 3 * base + 4) :
    Ensures total kept (Past base) (result scope) fun _ ↦ Past base := by
  refine .bind (.look _) fun _ ↦ .when (.bind ensures_resultLimit? fun _ ↦
    .bind (ensures_orders hs h) fun _ ↦ .bind (.look _) fun _ ↦ .pure fun _ h ↦ h.1) fun _ h ↦ h.1

end Grammar

/-! ### Rules -/

open CorpusQuery.Grammar

/-- The body of a rule moves the cursor forward wherever the open rules leave room for it. -/
theorem Rule.ensures_body {total : Nat} {kept : List Event → Option Failure → Prop}
    {depth base : Nat} {scope : Scope} (hs : Steady total kept depth scope) (rule : Rule)
    (h : depth ≤ 3 * base + rule.rank) :
    Ensures total kept (Past base) (rule.body scope) fun _ ↦ Past (base + 1) := by
  cases rule with
  | expression least => exact ensures_expression hs h least
  | loop => exact ensures_loop hs h
  | structuralConstraint => exact ensures_structuralConstraint hs h
  | nodeStatement least => exact ensures_nodeStatement hs h least
  | node => exact ensures_node hs h
  | marker least => exact ensures_marker hs h least
  | payload => exact ensures_payload hs (Nat.le_trans h (by simp [rank]))
  | selection => exact ensures_selection hs h

end CorpusQuery
