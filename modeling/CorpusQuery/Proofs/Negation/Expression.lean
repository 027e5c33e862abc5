import CorpusQuery.Proofs.Negation.Embedding

/-!
Expressions before a negation. An expression that is complete at the end of its tokens is read in
the same way where a negation follows them (`Rule.embedded_inside`): none of its parts asks for a
kind that a negation has, but for operands, which the end of the input cannot stand for, and for set
predicates, whose `IN` would have to come next.
-/

set_option autoImplicit false
set_option relaxedAutoImplicit false

namespace CorpusQuery

open CorpusQuery.Parser

variable {short start : Place} {shift length : Nat} {given : Place → Prop} {scope scope' : Scope}

/-- Expressions and loops of the excerpt, read in the one scope, are read in the list in the
other. -/
structure Scope.Embedded (short start : Place) (shift length : Nat) (scope scope' : Scope) :
    Prop where
  negated : short.Negated start shift length
  progressive : scope.Progressive
  keeps : ∀ rule total base, Ensures total Untraced (Place.Past base) (scope.nested rule)
    fun _ ↦ Place.Past base
  expression : ∀ least, Embeds short start shift Anywhere (scope.expression least)
    (scope'.expression least)
  loop : Embeds short start shift Anywhere scope.loop scope'.loop

namespace Scope.Embedded

variable (hs : scope.Embedded short start shift length scope')

include hs

theorem onward {α : Type} {parser : Parser α} (h : Alike scope scope parser parser) :
    Onward parser :=
  h.onward hs.keeps

theorem forward {α : Type} {parser : Parser α} (hproduction : Grammar.Production scope parser)
    (h : Alike scope scope parser parser) : Forward parser :=
  (hs.onward h).forward hs.progressive hproduction

theorem phrase {category : Category} {body body' : Parser (Draft category)}
    (hproduction : Grammar.Production scope (Parser.phrase body))
    (halike : Alike scope scope (Parser.phrase body) (Parser.phrase body))
    (hbody : Embeds short start shift (fun place ↦ place.position < length) body body') :
    Embeds short start shift given (Parser.phrase body) (Parser.phrase body') :=
  .phrase hs.negated (hs.forward hproduction halike) (hs.onward halike) hbody

theorem nested (least : Nat) :
    Embeds short start shift given (scope.expression least) (scope'.expression least) :=
  (hs.expression least).anywhere

end Scope.Embedded

namespace Grammar

/-! ### Names and numbers -/

section Elementary

variable (h : short.Negated start shift length)

include h

theorem embeds_variableName : Embeds short start shift given variableName variableName :=
  .map (.expect h nofun)

theorem embeds_memberName : Embeds short start shift given memberName memberName :=
  .map (.expect h nofun)

theorem embeds_identifier : Embeds short start shift given identifier identifier :=
  .map (.expect h nofun)

theorem embeds_integer : Embeds short start shift given integer integer := by
  intro copy session value after hplaces _ hrun
  have hdigits := digits_of_integer hrun
  rw [integer_of_digits hdigits] at hrun
  cases hrun
  have hlt : copy.cursor.position < length := by
    refine Nat.lt_of_not_le fun hle ↦ ne_endOfInput_of_digits hdigits ?_
    rw [← h.peekKind_of_le hplaces 0 hle]
    exact (congrArg Token.kind (Place.along_zero _ _)).symm
  have htested : Place.Abreast short start shift (copy.tested digitKinds).cursor.toPlace
      (session.tested digitKinds).cursor.toPlace := hplaces
  obtain ⟨hpassed, hposition⟩ := h.passed htested hlt
  rw [h.kind_of_lt hplaces hlt] at hdigits
  refine ⟨_, ?_, hpassed, hposition ▸ Nat.le_succ _⟩
  rw [h.here_of_lt hplaces hlt]
  exact integer_of_digits hdigits

theorem embeds_numeral : Embeds short start shift given numeral numeral := by
  intro copy session value after hplaces _ hrun
  have hsame := h.atDecimal_eq hplaces
  cases hdecimal : atDecimal copy.cursor.toPlace with
  | true =>
    have hlong : copy.cursor.position + 2 < length := by
      refine Nat.lt_of_not_le fun hle ↦ ?_
      rw [h.atDecimal_of_le hplaces hle] at hdecimal
      cases hdecimal
    rw [numeral_of_decimal hdecimal] at hrun
    cases hrun
    obtain ⟨hfirst, hposition⟩ := h.passed hplaces (by omega)
    obtain ⟨hsecond, hposition'⟩ := h.passed hfirst (by omega)
    obtain ⟨hthird, hposition''⟩ := h.passed hsecond (by omega)
    refine ⟨_, ?_, hthird, by omega⟩
    rw [h.here_of_lt hplaces (by omega), h.here_of_lt hsecond (by omega)]
    exact numeral_of_decimal (hsame ▸ hdecimal)
  | false =>
    have hinteger : Embeds short start shift Parser.Anywhere (Numeral.integer <$> integer)
        (Numeral.integer <$> integer) := .map (embeds_integer h)
    rw [numeral_of_not_decimal hdecimal] at hrun
    rw [numeral_of_not_decimal (hsame ▸ hdecimal)]
    exact hinteger copy session value after hplaces trivial hrun

end Elementary

/-! ### Expressions -/

variable (hs : scope.Embedded short start shift length scope')

include hs

theorem embeds_expressionsUntil {close : Kind} (hend : close ≠ .endOfInput) :
    Embeds short start shift given (expressionsUntil scope close)
      (expressionsUntil scope' close) :=
  .bind (.separatedBy hs.negated nofun rfl (hs.nested 0)) fun _ ↦
    .bind (.expect hs.negated hend) fun _ ↦ .pure _

theorem embeds_optionalExpressionsUntil {close : Kind} (hend : close ≠ .endOfInput)
    (hnegation : Continuation.isNegation close = false) :
    Embeds short start shift given (optionalExpressionsUntil scope close)
      (optionalExpressionsUntil scope' close) :=
  .bind (.consume hs.negated hend hnegation) fun _ ↦ .ite (fun _ ↦ .pure _) fun _ ↦
    embeds_expressionsUntil hs hend

theorem embeds_listItems :
    Embeds short start shift given (listItems scope) (listItems scope') :=
  .bind (.expect hs.negated nofun) fun _ ↦ embeds_optionalExpressionsUntil hs nofun rfl

/-- A cast is seen as a whole, so its type and its parenthesis are passed in both. -/
theorem embeds_castTo (type : ValueType) :
    Embeds short start shift (fun place ↦ place.position + 2 < length) (castTo scope type)
      (castTo scope' type) := by
  intro copy session draft after hplaces hlt hrun
  have hrest : Embeds short start shift Parser.Anywhere _ _ :=
    .bind (hs.nested castOperandLevel) fun operand ↦
      .pure (⟨.cast type, .one operand .nil⟩ : Draft .expression)
  obtain ⟨hfirst, hposition⟩ := hs.negated.passed hplaces (by omega)
  obtain ⟨hsecond, hposition'⟩ := hs.negated.passed hfirst (by omega)
  obtain ⟨hthird, hposition''⟩ := hs.negated.passed hsecond (by omega)
  obtain ⟨after', hrun', hplaces', hle⟩ := hrest _ _ draft after hthird trivial hrun
  refine ⟨after', hrun', hplaces', ?_⟩
  omega

theorem embeds_unary (operator : UnaryOperator) :
    Embeds short start shift (fun place ↦ place.position < length) (unary scope operator)
      (unary scope' operator) :=
  .pass hs.negated <| .bind (hs.nested _) fun _ ↦ .pure _

theorem embeds_wrapping :
    Embeds short start shift (fun place ↦ place.position < length) (wrapping scope)
      (wrapping scope') :=
  .pass hs.negated <| .bind (hs.nested _) fun _ ↦ .bind (.expect hs.negated nofun) fun _ ↦ .pure _

/-- Whether a double colon or a bracket comes next is the same in both. -/
theorem embeds_primary :
    Embeds short start shift (fun place ↦ place.position < length) (primary scope)
      (primary scope') := by
  have h := hs.negated
  intro copy session draft after hplaces hlt hrun
  have embedded {body body' : Parser (Draft .expression)}
      (hbody : Embeds short start shift (fun place ↦ place.position < length) body body')
      (hrun : body copy = .ok draft after) :=
    hbody copy session draft after hplaces hlt hrun
  have hadvance (session : Session) :
      advance session = .ok session.cursor.here session.passed := rfl
  rw [primary, bind_look, bind_look] at hrun ⊢
  rw [← h.kind_of_lt hplaces hlt]
  generalize copy.cursor.kind = kind at hrun ⊢
  split at hrun
  · exact embedded (.pass h (.pure _)) hrun
  · exact embedded (.pass h (.pure _)) hrun
  · exact embedded (.pass h (.pure _)) hrun
  · exact embedded (.bind (embeds_numeral h) fun _ ↦ .pure _) hrun
  · exact embedded (.bind (embeds_numeral h) fun _ ↦ .pure _) hrun
  · obtain ⟨hpassed, hposition⟩ := h.passed hplaces hlt
    cases hrun
    rw [h.here_of_lt hplaces hlt]
    exact ⟨session.passed, rfl, hpassed, hposition ▸ Nat.le_succ _⟩
  · exact embedded (.bind (embeds_listItems hs) fun _ ↦ .pure _) hrun
  · exact embedded (.bind (embeds_variableName h) fun _ ↦ .pure _) hrun
  · exact embedded (.bind (embeds_memberName h) fun _ ↦ .pure _) hrun
  · obtain ⟨hpassed, hposition⟩ := h.passed hplaces hlt
    rw [bind_of_ok (hadvance _)] at hrun ⊢
    rw [← h.here_of_lt hplaces hlt]
    have hnext := h.next_iff hplaces hlt (Kind.noConfusion : Kind.symbol .doubleColon ≠ _) rfl
    by_cases hcolon : copy.cursor.peekKind 1 = .symbol .doubleColon
    · rw [if_pos hcolon] at hrun
      rw [if_pos (hnext.mp hcolon)]
      have hlong : copy.cursor.position + 1 < length := by
        refine Nat.lt_of_not_le fun hle ↦ ?_
        rw [h.peekKind_of_le hplaces 1 hle] at hcolon
        cases hcolon
      have hrest : Embeds short start shift _ _ _ := .pass h <| .bind (embeds_identifier h)
        fun name ↦ .pure (⟨.qualified copy.cursor.here.text name, .nil⟩ : Draft .expression)
      obtain ⟨after', hrun', hplaces', hle⟩ := hrest _ _ draft after hpassed (by omega) hrun
      exact ⟨after', hrun', hplaces', by omega⟩
    · rw [if_neg hcolon] at hrun
      rw [if_neg (mt hnext.mpr hcolon)]
      cases hrun
      exact ⟨session.passed, rfl, hpassed, hposition ▸ Nat.le_succ _⟩
  · have hnext := h.next_iff hplaces hlt (Kind.noConfusion : Kind.symbol .leftBracket ≠ _) rfl
    generalize List.lookup kind valueTypes = type? at hrun ⊢
    generalize hseen : copy.cursor.peekKind 1 = next at hrun
    split at hrun
    · rename_i type
      have hlong : copy.cursor.position + 1 < length := by
        refine Nat.lt_of_not_le fun hle ↦ ?_
        rw [h.peekKind_of_le hplaces 1 hle] at hseen
        cases hseen
      obtain ⟨hpassed, hposition⟩ := h.passed hplaces hlt
      have hclose : Embeds short start shift Parser.Anywhere (expect (.symbol .rightBracket))
          (expect (.symbol .rightBracket)) := .expect h (by decide)
      have hrest : Embeds short start shift _ _ _ := .pass h <| .bind hclose fun _ ↦
        .bind (embeds_listItems hs) fun items ↦
          .pure (⟨.list (some type), .many items .nil⟩ : Draft .expression)
      rw [hnext.mp hseen]
      rw [bind_of_ok (hadvance _)] at hrun
      obtain ⟨after', hrun', hplaces', hle⟩ :=
        hrest _ _ draft after hpassed (by omega) hrun
      exact ⟨after', (bind_of_ok (hadvance _) _).trans hrun', hplaces', by omega⟩
    · cases hrun

theorem embeds_operand : Embeds short start shift given (operand scope) (operand scope') := by
  have h := hs.negated
  refine hs.phrase .operand alike_operand
    (.look (fun _ _ hplaces _ ↦ h.castAt?_eq hplaces) fun type? ↦ ?_)
  cases type? with
  | some type =>
    intro copy session draft after hplaces hcast hrun
    refine embeds_castTo hs type copy session draft after hplaces ?_ hrun
    refine Nat.lt_of_not_le fun hle ↦ ?_
    rw [h.castAt?_of_le hplaces hle] at hcast
    cases hcast.2
  | none =>
    refine .look (fun _ _ hplaces hlt ↦ h.kind_of_lt hplaces hlt.1) fun kind ↦ ?_
    cases unaryOperator? kind with
    | some operator => exact (embeds_unary hs operator).when fun _ h ↦ h.1.1
    | none =>
      refine .ite (fun _ ↦ (embeds_wrapping hs).when fun _ h ↦ h.1.1) fun _ ↦
        .ite (fun _ ↦ .bind hs.loop.anywhere fun _ ↦ .pure _) fun _ ↦
          (embeds_primary hs).when fun _ h ↦ h.1.1

omit hs in
/-- Behind the end of the excerpt there is no target. -/
theorem embeds_target (h : short.Negated start shift length) (hforward : Forward target)
    (honward : Onward target) : Embeds short start shift given target target := by
  refine .of_forward h hforward honward
    (.look (fun _ _ hplaces hlt ↦ h.kind_of_lt hplaces hlt) fun kind ↦ ?_)
  split
  · exact .map (embeds_variableName h)
  · exact .map (embeds_memberName h)
  · exact .of_error fun _ _ _ hrun ↦ by cases hrun

omit hs in
theorem embeds_consumeEither (h : short.Negated start shift length) {first second : Kind}
    (hfirst : first ≠ .endOfInput) (hfirst' : Continuation.isNegation first = false)
    (hsecond : second ≠ .endOfInput) (hsecond' : Continuation.isNegation second = false) :
    Embeds short start shift given (consumeEither first second) (consumeEither first second) :=
  .bind (.consume h hfirst hfirst') fun _ ↦ .ite (fun _ ↦ .pure _) fun _ ↦
    .consume h hsecond hsecond'

omit hs in
theorem embeds_negation (h : short.Negated start shift length) :
    Embeds short start shift (fun place ↦ place.position < length)
      (consumeEither (.keyword .not) (.symbol .bang))
      (consumeEither (.keyword .not) (.symbol .bang)) := by
  have hiff (kind : Kind) (copy place : Place)
      (hplaces : Place.Abreast short start shift copy place) (hlt : copy.position < length) :
      copy.kind = kind ↔ place.kind = kind := by
    rw [h.kind_of_lt hplaces hlt]
  have hfirst : Embeds short start shift (fun place ↦ place.position < length)
      (consume (.keyword .not)) (consume (.keyword .not)) := .consume_of_iff h nofun (hiff _)
  have hsecond : Embeds short start shift (fun place ↦ place.position < length)
      (consume (.symbol .bang)) (consume (.symbol .bang)) := .consume_of_iff h nofun (hiff _)
  -- Where nothing has been found, nothing has been passed.
  have hstill (copy after : Session) (found : Bool) (_ : short.Begins copy.cursor.toPlace)
      (hlt : copy.cursor.position < length)
      (hrun : consume (.keyword .not) copy = .ok found after)
      (_ : copy.cursor.position ≤ after.cursor.position) :
      ¬ found = true → after.cursor.position < length := by
    intro hnot
    by_cases hkind : copy.cursor.kind = .keyword .not
    · rw [consume_of_kind hkind] at hrun
      cases hrun
      exact absurd rfl hnot
    · rw [consume_of_ne hkind] at hrun
      cases hrun
      exact hlt
  have hnext (found : Bool) : Embeds short start shift
      (fun place ↦ ¬ found = true → place.position < length)
      (if found then pure true else consume (.symbol .bang))
      (if found then pure true else consume (.symbol .bang)) :=
    .ite (fun _ ↦ .pure _) fun hnot ↦ hsecond.when fun _ hplace ↦ hplace hnot
  exact hfirst.bind_to hstill hnext

omit hs in
/-- A negation that is passed before `IN` does not stand behind the excerpt. -/
theorem embeds_membership (h : short.Negated start shift length) {α : Type}
    {next next' : Bool → Parser α}
    (hnext : ∀ negated, Embeds short start shift Parser.Anywhere (next negated) (next' negated)) :
    Embeds short start shift given
      (consumeEither (.keyword .not) (.symbol .bang) >>= fun negated ↦
        expect (.keyword .inKw) >>= fun _ ↦ next negated)
      (consumeEither (.keyword .not) (.symbol .bang) >>= fun negated ↦
        expect (.keyword .inKw) >>= fun _ ↦ next' negated) := by
  intro copy session value after hplaces _ hrun
  have hexpect : Embeds short start shift Parser.Anywhere (expect (.keyword .inKw))
      (expect (.keyword .inKw)) := .expect h (by decide)
  have hinside : Embeds short start shift (fun place ↦ place.position < length) _ _ :=
    (embeds_negation h).bind fun negated ↦ hexpect.bind fun _ ↦ hnext negated
  refine hinside copy session value after hplaces (Nat.lt_of_not_le fun hle ↦ ?_) hrun
  have hkind : copy.cursor.kind = .endOfInput :=
    (congrArg Token.kind (Place.along_zero _ _)).symm.trans (h.peekKind_of_le hplaces 0 hle)
  have hnot : copy.cursor.kind ≠ .keyword .not := ne_of_eq_of_ne hkind (by decide)
  have hbang : copy.cursor.kind ≠ .symbol .bang := ne_of_eq_of_ne hkind (by decide)
  let asked := (copy.tested (.single (.keyword .not))).tested (.single (.symbol .bang))
  have hnone : consumeEither (.keyword .not) (.symbol .bang) copy = .ok false asked := by
    rw [consumeEither, bind_of_ok (consume_of_ne hnot)]
    exact consume_of_ne hbang
  have hin : asked.cursor.kind ≠ .keyword .inKw := ne_of_eq_of_ne hkind (by decide)
  rw [bind_of_ok hnone, bind_of_error (expect_of_ne hin)] at hrun
  cases hrun

theorem embeds_draft (left : Phrase .expression) (continuation : Continuation) :
    Embeds short start shift
      (fun place ↦ place.Past 1 ∧ Continuation.at? place = some continuation)
      (continuation.draft scope left) (continuation.draft scope' left) := by
  have h := hs.negated
  have hseen {α : Type} {parser parser' : Parser α}
      (hparser : Embeds short start shift (fun place ↦ place.position < length) parser parser') :
      Embeds short start shift
        (fun place ↦ place.Past 1 ∧ Continuation.at? place = some continuation) parser parser' := by
    intro copy session value after hplaces hat hrun
    refine hparser copy session value after hplaces (Nat.lt_of_not_le fun hle ↦ ?_) hrun
    rw [h.at?_of_le hplaces hle] at hat
    cases hat.2
  cases continuation with
  | path => exact hseen <| .pass h <| .bind (embeds_identifier h) fun _ ↦ .pure _
  | call =>
    exact hseen <| .pass h <| .bind (embeds_optionalExpressionsUntil hs nofun rfl) fun _ ↦ .pure _
  | listAccess =>
    exact hseen <| .pass h <| .bind (embeds_expressionsUntil hs nofun) fun _ ↦ .pure _
  | annotationAccess =>
    exact hseen <| .pass h <| .bind (embeds_expressionsUntil hs nofun) fun _ ↦ .pure _
  | binary operator => exact hseen <| .pass h <| .bind (hs.nested _) fun _ ↦ .pure _
  | assignment =>
    have hproduction : Production scope target := .target
    exact hseen <| .pass h <| .bind (.consume h nofun rfl) fun _ ↦
      .bind (embeds_target h (hs.forward hproduction alike_target) (hs.onward alike_target))
        fun _ ↦ .pure _
  | setPredicate =>
    exact .bind (embeds_consumeEither h nofun rfl nofun rfl) fun _ ↦
      embeds_membership h fun _ ↦ .bind (hs.nested _) fun _ ↦ .pure _
  | ternary =>
    exact hseen <| .pass h <| .bind (hs.nested _) fun _ ↦ .bind (.expect h nofun) fun _ ↦
      .bind (hs.nested _) fun _ ↦ .pure _

theorem embeds_continuation (least : Nat) (left : Phrase .expression) :
    Embeds short start shift (Place.Past 1) (continuation scope least left)
      (continuation scope' least left) := by
  have h := hs.negated
  refine .look (fun _ _ hplaces hpos ↦ h.at?_eq hplaces hpos) fun found? ↦ ?_
  cases found? with
  | none => exact .pure _
  | some found =>
    refine .ite (fun _ ↦ .pure _) fun _ ↦ .map ?_
    exact .phraseFrom h (fun _ _ _ _ hpast _ hle ↦ Nat.le_trans hpast.1 hle)
      (embeds_draft hs left found)

theorem embeds_expression (least : Nat) :
    Embeds short start shift given (expression scope least) (expression scope' least) := by
  have hforward : Forward (operand scope) := hs.forward .operand alike_operand
  refine (embeds_operand hs).bind_to (fun copy after first hbegins _ hrun _ ↦ ?_) fun first ↦
    .iterate (embeds_continuation hs least) first
  exact Nat.succ_le_of_lt (Nat.zero_lt_of_lt
    (hforward copy first after (hbegins.closed hs.negated.closed_short) hrun))

/-! ### Loops -/

theorem embeds_boundedRange :
    Embeds short start shift given (boundedRange scope) (boundedRange scope') := by
  have h := hs.negated
  exact hs.phrase .boundedRange alike_boundedRange <| .bind (.expect h nofun) fun _ ↦
    .bind (hs.nested _) fun _ ↦ .bind (.expect h nofun) fun _ ↦ .bind (hs.nested _) fun _ ↦
      .bind (.expect h nofun) fun _ ↦ .pure _

omit hs in
theorem embeds_parity? (h : short.Negated start shift length) :
    Embeds short start shift given parity? parity? :=
  .bind (.consume h nofun rfl) fun _ ↦ .ite (fun _ ↦ .pure _) fun _ ↦
    .bind (.consume h nofun rfl) fun _ ↦ .pure _

theorem embeds_loopControl :
    Embeds short start shift given (loopControl scope) (loopControl scope') := by
  have h := hs.negated
  exact hs.phrase .loopControl alike_loopControl <| .bind (embeds_parity? h) fun _ ↦
    .bind (.behind h nofun rfl (hs.nested _)) fun _ ↦
      .bind (.behind h nofun rfl (embeds_boundedRange hs)) fun _ ↦
        .bind (.behind h nofun rfl (embeds_boundedRange hs)) fun _ ↦
          .bind (.behind h nofun rfl (hs.nested _)) fun _ ↦ .bind (.expect h nofun) fun _ ↦ .pure _

theorem embeds_counted :
    Embeds short start shift given (counted scope) (counted scope') :=
  .bind (hs.nested _) fun _ ↦ .bind (.expect hs.negated nofun) fun _ ↦
    .bind (embeds_variableName hs.negated) fun _ ↦ .pure _

theorem embeds_counter : Embeds short start shift given (counter scope) (counter scope') :=
  hs.phrase .counter (.phrase (alike_counted.bind fun _ ↦ .pure _)) <|
    .bind (embeds_counted hs) fun _ ↦ .pure _

theorem embeds_counters : Embeds short start shift given (counters scope) (counters scope') :=
  .bind (.consume hs.negated nofun rfl) fun _ ↦ .ite
    (fun _ ↦ .separatedBy hs.negated nofun rfl (embeds_counter hs)) fun _ ↦ .pure _

theorem embeds_loop : Embeds short start shift given (loop scope) (loop scope') :=
  hs.phrase (.body .loop) alike_loop <| .bind (.expect hs.negated nofun) fun _ ↦
    .bind (embeds_counted hs) fun _ ↦ .bind (embeds_loopControl hs) fun _ ↦
      .bind (embeds_counters hs) fun _ ↦ .pure _

end Grammar

/-- Under every limit, and with more room than there was for the excerpt, expressions and loops of
the excerpt are read in the list. -/
theorem Rule.embedded_inside (h : short.Negated start shift length) (limit limit' : Nat)
    {room room' : Nat} (hroom : room ≤ room') :
    (inside limit room).Embedded short start shift length (inside limit' room') := by
  have hprogressive := Rule.progressive_inside limit
  have hkeeps (room : Nat) : ∀ rule total base, Ensures total Untraced (Place.Past base)
      ((inside limit room).nested rule) fun _ ↦ Place.Past base :=
    fun rule _ _ ↦ keeps_run
      (fun cursor hpast ↦ Nat.le_trans hpast (Cursor.position_le_advance cursor)) limit room rule
  induction room generalizing room' with
  | zero =>
    exact ⟨h, hprogressive 0, hkeeps 0, fun least ↦ .of_error fun _ _ _ hrun ↦ (by cases hrun),
      .of_error fun _ _ _ hrun ↦ (by cases hrun)⟩
  | succ room ih =>
    obtain ⟨room', rfl⟩ : ∃ room'', room' = room'' + 1 := ⟨room' - 1, by omega⟩
    have hs := ih (Nat.le_of_succ_le_succ hroom)
    exact ⟨h, hprogressive _, hkeeps _, fun least ↦ .enter (Grammar.embeds_expression hs least),
      .enter (Grammar.embeds_loop hs)⟩

end CorpusQuery
