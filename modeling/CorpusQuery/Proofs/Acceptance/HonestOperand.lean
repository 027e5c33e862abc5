import CorpusQuery.Proofs.Acceptance.HonestScope
import CorpusQuery.Proofs.Spelling.Expression

/-!
Operands are honest. What is looked at to tell them apart is at most three tokens, and whoever looks
as far as to the fork passes it or does not care.
-/

set_option autoImplicit false
set_option relaxedAutoImplicit false

namespace CorpusQuery

open CorpusQuery.Parser CorpusQuery.Grammar CorpusQuery.Fork

namespace Grammar

variable {fork : Fork} {scope : Scope} {stray : Stray} {given : Place → Prop}

/-! ### What is seen -/

section Seen

variable {place other : Place}

theorem kind_eq_of_peek (h : ∀ i < 1, other.peek i = place.peek i) : other.kind = place.kind := by
  have hpeek := h 0 Nat.zero_lt_one
  rw [Place.peek, Place.peek, Place.along_zero, Place.along_zero] at hpeek
  exact congrArg Token.kind hpeek

theorem peekKind_eq_of_peek {count index : Nat} (h : ∀ i < count, other.peek i = place.peek i)
    (hindex : index < count) : other.peekKind index = place.peekKind index :=
  congrArg Token.kind (h index hindex)

theorem castAt?_eq_of_peek (h : ∀ i < 3, other.peek i = place.peek i) :
    castAt? other = castAt? place := by
  rw [castAt?, castAt?, kind_eq_of_peek fun i hi ↦ h i (by omega), peekKind_eq_of_peek h (by omega),
    peekKind_eq_of_peek h (by omega)]

theorem touches_eq_of_peek {count index : Nat} (h : ∀ i < count, other.peek i = place.peek i)
    (hindex : index + 1 < count) : other.touches (index + 1) = place.touches (index + 1) := by
  rw [Place.touches, Place.touches, h index (by omega), h (index + 1) hindex]

theorem atDecimal_eq_of_peek (h : ∀ i < 3, other.peek i = place.peek i) :
    atDecimal other = atDecimal place := by
  rw [atDecimal, atDecimal, kind_eq_of_peek fun i hi ↦ h i (by omega),
    peekKind_eq_of_peek h (by omega), peekKind_eq_of_peek h (by omega),
    touches_eq_of_peek h (by omega), touches_eq_of_peek h (by omega)]

end Seen

/-! ### Names and numbers -/

section Atoms

theorem honest_variableName : Honest fork stray given unseen variableName variableName :=
  .map (.expect (by nofun)) fun _ _ _ ↦ rfl

theorem honest_memberName : Honest fork stray given unseen memberName memberName :=
  .map (.expect (by nofun)) fun _ _ _ ↦ rfl

theorem honest_identifier : Honest fork stray given unseen identifier identifier :=
  .map (.expect (by nofun)) fun _ _ _ ↦ rfl

theorem honest_integer : Honest fork stray given unseen integer integer :=
  .consumeAny_then rfl (fun _ ↦ .pure rfl) .fail

/-- Whether a number is an integer. -/
def isWhole : Numeral → Bool
  | .integer _ => true
  | .decimal _ => false

theorem nears_of_atDecimal {verge : Verge} {place : Place} (hbegins : verge.start.Begins place)
    (hlt : verge.index < place.position + 3) (h : atDecimal place = true) :
    verge.Nears 3 place := by
  simp only [atDecimal, Bool.and_eq_true, beq_iff_eq] at h
  obtain ⟨⟨⟨⟨hkind, hnext⟩, hsecond⟩, -⟩, -⟩ := h
  exact .of_three hbegins hlt (ne_endOfInput_of_digits hkind) (hnext.trans_ne (by decide))
    (ne_endOfInput_of_digits hsecond)

theorem honest_numeral : Honest fork stray given isWhole numeral numeral := by
  have hescapes {verge : Verge} (session : Session)
      (hbegins : verge.start.Begins session.cursor.toPlace)
      (hlt : verge.index < session.cursor.position + 3)
      (h : atDecimal session.cursor.toPlace = true) :
      verge.coupling.Escapes ((if atDecimal session.cursor.toPlace then do
          let whole ← advance
          let _ ← advance
          let fraction ← advance
          pure (.decimal (whole.text ++ "." ++ fraction.text))
        else .integer <$> integer : Parser Numeral) session) := by
    rw [if_pos h]
    exact (nears_of_atDecimal hbegins hlt h).escapes_advance fun _ _ hnears ↦
      hnears.escapes_advance fun _ _ hnears ↦ hnears.escapes_advance fun _ _ hnears ↦
        .inr hnears.past
  have hinteger {given : Place → Prop} : Honest fork stray given isWhole
      (Numeral.integer <$> integer) (Numeral.integer <$> integer) :=
    honest_integer.map fun _ _ _ ↦ rfl
  refine .look_then 3 (· = true) (fun _ _ ↦ atDecimal_eq_of_peek)
    (fun session _ hsessions _ ↦ hescapes session hsessions.begins)
    (fun _ copy hsessions _ ↦ hescapes copy hsessions.begins_copy)
    (fun value ↦ ?_) fun value value' hvalue hvalue' ↦ ?_
  · cases value with
    | false => exact hinteger
    | true =>
      exact .pass (fun _ h ↦ h.2.1) fun _ ↦ .pass (fun _ h ↦ h) fun _ ↦ .pass (fun _ h ↦ h) fun _ ↦
        .pure rfl
  · rw [Bool.not_eq_true] at hvalue hvalue'
    subst hvalue hvalue'
    exact hinteger

end Atoms

/-! ### Operands -/

section Operands

variable (hs : fork.Scopes scope)

include hs

theorem honest_expressionsUntil {close : Kind} (hend : close ≠ .endOfInput) :
    Honest fork stray given unseen (expressionsUntil scope close) (expressionsUntil scope close) :=
  (Honest.separatedBy (by nofun) hs.loose hs.loose).bind fun _ _ _ ↦
    (Honest.expect hend).bind fun _ _ _ ↦ .pure rfl

theorem honest_optionalExpressionsUntil {close : Kind} (hend : close ≠ .endOfInput) :
    Honest fork stray given unseen (optionalExpressionsUntil scope close)
      (optionalExpressionsUntil scope close) :=
  .consume_then hend (.pure rfl) (honest_expressionsUntil hs hend)

theorem honest_listItems :
    Honest fork stray given unseen (listItems scope) (listItems scope) :=
  (Honest.expect (by nofun)).bind fun _ _ _ ↦ honest_optionalExpressionsUntil hs nofun

/-- Whether the draft of an expression is a bare integer. -/
def integral (draft : Draft .expression) : Bool := isInteger (.phrase draft.form ⟨0, 0⟩ draft.parts)

omit hs in
theorem integral_eq (draft draft' : Draft .expression) (h : integral draft = integral draft')
    (span span' : Span) : isInteger (.phrase draft.form span draft.parts) =
      isInteger (.phrase draft'.form span' draft'.parts) := h

omit hs in
theorem peekKind_one_eq_of_peek (place other : Place) (h : ∀ i < 2, other.peek i = place.peek i) :
    other.peekKind 1 = place.peekKind 1 := peekKind_eq_of_peek h Nat.one_lt_two

/-- An identifier, maybe with a name behind it. -/
def qualified (next : Kind) : Parser (Draft .expression) := do
  let token ← advance
  if next = .symbol .doubleColon then
    let _ ← advance
    let name ← identifier
    pure ⟨.qualified token.text name, .nil⟩
  else
    pure ⟨.identifier token.text, .nil⟩

/-- A list with the type of its items. -/
def typedList (scope : Scope) (type : ValueType) (next : Kind) : Parser (Draft .expression) :=
  if next = .symbol .leftBracket then do
    let _ ← advance
    let _ ← advance
    let _ ← expect (.symbol .rightBracket)
    let items ← listItems scope
    pure ⟨.list (some type), .many items .nil⟩
  else
    failMissing "an expression" expressionStart

omit hs in
theorem honest_qualified (hample : ∀ place, given place → fork.Ample 1 place)
    (hkind : ∀ place, given place → place.kind = .identifier) :
    Honest fork stray given integral (look (·.peekKind 1) >>= qualified)
      (look (·.peekKind 1) >>= qualified) := by
  have hescapes {verge : Verge} (session : Session)
      (hbegins : verge.start.Begins session.cursor.toPlace)
      (hlt : verge.index < session.cursor.position + 2) (hkind : session.cursor.kind = .identifier)
      (hcolon : session.cursor.peekKind 1 = .symbol .doubleColon) :
      verge.coupling.Escapes (qualified (session.cursor.peekKind 1) session) := by
    have hname : Aloof verge.coupling identifier :=
      (Aloof.of_elementary verge.lawful (.expect _)).map _
    refine (Verge.Nears.of_two hbegins hlt (hkind ▸ nofun) (hcolon ▸ nofun)).escapes_advance
      fun _ _ hnears ↦ ?_
    rw [if_pos hcolon]
    exact hnears.escapes_advance fun _ _ hnears ↦
      (hname.bind fun _ ↦ .pure _).escapes (.inr hnears.past)
  refine .look_then 2 (· = .symbol .doubleColon) peekKind_one_eq_of_peek
    (fun session _ hsessions h hlt ↦ hescapes session hsessions.begins hlt (hkind _ h))
    (fun _ copy hsessions h hlt ↦ hescapes copy hsessions.begins_copy hlt
      ((hsessions.kind_eq (hample _ h)).trans (hkind _ h)))
    (fun next ↦ .pass (fun _ h ↦ h.2.1) fun token ↦ ?_) fun next next' hnext hnext' ↦
      .pass_one hample fun token ↦ ?_
  · exact .ite (.pass (fun _ h ↦ h) fun _ ↦ honest_identifier.finish fun _ _ _ ↦ rfl) (.pure rfl)
  · rw [if_neg hnext, if_neg hnext']
    exact .pure rfl

theorem honest_typedList (hample : ∀ place, given place → fork.Ample 1 place) (type : ValueType)
    (hkind : ∀ place, given place → place.kind = .keyword type.keyword) :
    Honest fork stray given integral (look (·.peekKind 1) >>= typedList scope type)
      (look (·.peekKind 1) >>= typedList scope type) := by
  have hescapes {verge : Verge} (hv : verge.Scopes scope) (session : Session)
      (hbegins : verge.start.Begins session.cursor.toPlace)
      (hlt : verge.index < session.cursor.position + 2)
      (hkind : session.cursor.kind = .keyword type.keyword)
      (hbracket : session.cursor.peekKind 1 = .symbol .leftBracket) :
      verge.coupling.Escapes (typedList scope type (session.cursor.peekKind 1) session) := by
    have hnears := Verge.Nears.of_two hbegins hlt (hkind ▸ nofun) (hbracket ▸ nofun)
    rw [hbracket]
    refine hnears.escapes_advance fun _ _ hnears ↦ hnears.escapes_advance fun _ _ hnears ↦ ?_
    exact (hv.alike (.bind (.elementary (.expect _)) fun _ ↦ .bind alike_listItems fun _ ↦
      .pure _)).escapes (.inr hnears.past)
  have hother {next : Kind} (hnext : next ≠ .symbol .leftBracket) :
      typedList scope type next = failMissing "an expression" expressionStart := if_neg hnext
  have hmissing {given : Place → Prop} (hample : ∀ place, given place → fork.Ample 1 place) :
      Honest fork stray given integral (failMissing "an expression" expressionStart)
        (failMissing "an expression" expressionStart) :=
    .failMissing fun place h ↦ (hample place h).clear _
  refine .look_then 2 (· = .symbol .leftBracket) peekKind_one_eq_of_peek
    (fun session _ hsessions h hlt ↦ hescapes hs.left session hsessions.begins hlt (hkind _ h))
    (fun _ copy hsessions h hlt ↦ hescapes hs.right copy hsessions.begins_copy hlt
      ((hsessions.kind_eq (hample _ h)).trans (hkind _ h)))
    (fun next ↦ ?_) fun next next' hnext hnext' ↦ ?_
  · by_cases hnext : next = .symbol .leftBracket
    · subst hnext
      exact .pass (fun _ h ↦ h.2.1) fun _ ↦ .pass (fun _ h ↦ h) fun _ ↦
        (Honest.expect (by nofun)).bind fun _ _ _ ↦ (honest_listItems hs).finish fun _ _ _ ↦ rfl
    · rw [hother hnext]
      exact hmissing fun place h ↦ hample place h.1
  · rw [hother hnext, hother hnext']
    exact hmissing hample

theorem honest_primary (hample : ∀ place, given place → fork.Ample 1 place) :
    Honest fork stray given integral (primary scope) (primary scope) := by
  refine .look_same 1 (fun _ _ ↦ kind_eq_of_peek) hample fun kind ↦ ?_
  have hfirst (place : Place) (h : given place ∧ place.kind = kind) : fork.Ample (0 + 1) place :=
    hample place h.1
  by_cases hidentifier : kind = .identifier
  · subst hidentifier
    exact honest_qualified hfirst fun _ h ↦ h.2
  cases htype : valueTypes.lookup kind with
  | some type =>
    obtain rfl := lookup_valueTypes.mp htype
    have htyped : Honest fork stray _ integral _ _ := honest_typedList hs hfirst type fun _ h ↦ h.2
    cases type
    all_goals
      convert htyped using 2
      all_goals
        funext next
        by_cases hbracket : next = .symbol .leftBracket
        · subst hbracket
          rfl
        · simp only [ValueType.keyword, typedList, if_neg hbracket]
          split
          · contradiction
          · rfl
  | none =>
    have hadvance {draft : Draft .expression} :
        Honest fork stray (fun place ↦ given place ∧ place.kind = kind) integral
          (advance >>= fun _ ↦ pure draft) (advance >>= fun _ ↦ pure draft) :=
      .pass hfirst fun _ ↦ .pure rfl
    have hnumeral : Honest fork stray (fun place ↦ given place ∧ place.kind = kind) integral
        (numeral >>= fun numeral ↦ pure ⟨.number numeral, .nil⟩)
        (numeral >>= fun numeral ↦ pure ⟨.number numeral, .nil⟩) :=
      honest_numeral.finish fun numeral numeral' h ↦ by
        cases numeral <;> cases numeral' <;> cases h <;> rfl
    refine .look_any fun next next' ↦ ?_
    split
    case h_4 | h_5 => exact hnumeral
    case h_6 => exact .pass hfirst fun _ ↦ .pure rfl
    case h_7 => exact (honest_listItems hs).finish fun _ _ _ ↦ rfl
    case h_8 => exact honest_variableName.finish fun _ _ _ ↦ rfl
    case h_9 => exact honest_memberName.finish fun _ _ _ ↦ rfl
    case h_10 => exact absurd rfl hidentifier
    case h_11 => exact .failMissing fun place h ↦ (hfirst place h).clear _
    all_goals exact hadvance

theorem honest_castTo (hample : ∀ place, given place → fork.Ample 3 place) (type : ValueType) :
    Honest fork fork.Barred given integral (castTo scope type) (castTo scope type) :=
  .pass hample fun _ ↦ .pass (fun _ h ↦ h) fun _ ↦ .pass (fun _ h ↦ h) fun _ ↦
    (hs.expression castOperandLevel).finish fun _ _ _ ↦ rfl

theorem honest_unary (hample : ∀ place, given place → fork.Ample 1 place)
    (operator : UnaryOperator) :
    Honest fork fork.Barred given integral (unary scope operator) (unary scope operator) :=
  .pass_one hample fun _ ↦ (hs.expression unaryOperandLevel).finish fun _ _ _ ↦ rfl

theorem honest_wrapping (hample : ∀ place, given place → fork.Ample 1 place) :
    Honest fork stray given integral (wrapping scope) (wrapping scope) :=
  .pass_one hample fun _ ↦ hs.loose.bind fun _ _ _ ↦
    (Honest.expect (by nofun)).bind fun _ _ _ ↦ .pure rfl

/-- An operand that begins at the fork crosses there, or it fails in both parses and expects nothing
that the second list has there. -/
theorem honest_operand_at (hat : ∀ place, given place → place.position = fork.left.index) :
    Honest fork stray given isInteger (operand scope) (operand scope) := by
  refine ⟨hs.left.alike alike_operand, hs.right.alike alike_operand,
    fun session copy hsessions hplace ↦ ?_⟩
  have hleft := hsessions.at_left (hat _ hplace)
  have hright := hsessions.at_right (hat _ hplace)
  by_cases hstarts : fork.left.StartsExpression
  · exact .left (Verge.crosses_operand hs.left hstarts session hleft)
  by_cases hstarts' : fork.right.StartsExpression
  · exact .right (Verge.crosses_operand hs.right hstarts' copy hright)
  obtain ⟨failure, after, hrun, hexpected, hafter⟩ := Verge.wants_operand hstarts hleft
  obtain ⟨failure', after', hrun', -⟩ := Verge.wants_operand hstarts' hright
  have hnot : (session.cursor.expected ∪ expressionStart).contains fork.right.kind = false := by
    rw [KindSet.contains_union, hsessions.spared (hat _ hplace), Bool.false_or]
    exact Bool.eq_false_iff.mpr fun hmem ↦ hstarts' ⟨hmem, hs.apt.bracket⟩
  rw [hrun, hrun']
  exact .error (fun _ ↦ hexpected ▸ hnot) fun _ ↦ hafter ▸ hnot

/-- An operand that is no cast. -/
def uncast (scope : Scope) : Parser (Draft .expression) := do
  let kind ← look Place.kind
  match unaryOperator? kind with
  | some operator => unary scope operator
  | none =>
    if kind = .symbol .leftParen then
      wrapping scope
    else if kind = .keyword .foreach then
      let loop ← scope.loop
      pure ⟨.forEach, .one loop .nil⟩
    else
      primary scope

theorem honest_uncast (hample : ∀ place, given place → fork.Ample 1 place) :
    Honest fork fork.Barred given integral (uncast scope) (uncast scope) := by
  refine .look_same 1 (fun _ _ ↦ kind_eq_of_peek) hample fun kind ↦ ?_
  have hfirst (place : Place) (h : given place ∧ place.kind = kind) : fork.Ample 1 place :=
    hample place h.1
  cases unaryOperator? kind with
  | some operator => exact honest_unary hs hfirst operator
  | none =>
    exact .ite (honest_wrapping hs hfirst)
      (.ite ((hs.loop).finish fun _ _ _ ↦ rfl) (honest_primary hs hfirst))

theorem honest_operand :
    Honest fork fork.Barred given isInteger (operand scope) (operand scope) := by
  refine .of_cases (honest_operand_at hs fun _ h ↦ h.2)
    (.phrase ?_ integral_eq)
  refine .look_then 3 (·.isSome = true) (fun _ _ ↦ castAt?_eq_of_peek) ?_ ?_ (fun type? ↦ ?_)
    fun type? type?' htype htype' ↦ ?_
  · intro session _ hsessions _ hlt hcast
    obtain ⟨type, htype⟩ := Option.isSome_iff_exists.mp hcast
    rw [htype]
    exact Verge.escapes_castTo hs.left hsessions.begins hlt htype
  · intro _ copy hsessions _ hlt hcast
    obtain ⟨type, htype⟩ := Option.isSome_iff_exists.mp hcast
    rw [htype]
    exact Verge.escapes_castTo hs.right hsessions.begins_copy hlt htype
  · cases type? with
    | some type => exact honest_castTo hs (fun _ h ↦ h.2.1) type
    | none => exact honest_uncast hs fun _ h ↦ h.1.2
  · rw [Option.not_isSome_iff_eq_none] at htype htype'
    subst htype htype'
    exact honest_uncast hs fun _ h ↦ h.2

end Operands

end Grammar

end CorpusQuery
