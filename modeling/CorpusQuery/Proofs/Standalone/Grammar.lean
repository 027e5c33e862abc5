import CorpusQuery.Proofs.Spelling.Atom
import CorpusQuery.Proofs.Standalone.Excerpt

/-!
Expressions carry over to excerpts (`Rule.carried_inside`). What an expression reads next depends on
up to two tokens behind the one at hand, and in an excerpt these may be missing. Where they decide
for a longer reading, they are passed, so they belong to the excerpt; where they are missing, the
shorter reading is taken in both. Only before a set predicate a star could be taken for an operator,
but no excerpt is cut there.
-/

set_option autoImplicit false
set_option relaxedAutoImplicit false

namespace CorpusQuery

open CorpusQuery.Parser

variable {short start : Place} {shift length base : Nat} {scope scope' : Scope}

/-- The expressions and loops of a scope carry over to those of another one. -/
structure Scope.Carried (short start : Place) (shift length : Nat) (scope scope' : Scope) :
    Prop where
  excerpt : short.Excerpt start shift length
  progressive : scope.Progressive
  keeps : ∀ rule total base, Ensures total Untraced (Place.Past base) (scope.nested rule)
    fun _ ↦ Place.Past base
  expression : ∀ least, Carries short start shift length 0 (scope.expression least)
    (scope'.expression least)
  loop : Carries short start shift length 0 scope.loop scope'.loop

/-- A set predicate begins with a universal, a negation or `IN`. -/
theorem Grammar.Continuation.atSetPredicate_of_kind {place : Place} {kind : Kind}
    (h : place.kind = kind) (huniversal : isUniversal kind = false)
    (hnegation : isNegation kind = false) (hin : kind ≠ .keyword .inKw) :
    atSetPredicate place = false := by
  have hpeek : place.peekKind 0 = kind := (congrArg Token.kind (Place.along_zero _ _)).trans h
  unfold atSetPredicate
  rw [h, huniversal]
  simp only [Bool.false_eq_true, if_false, hpeek, hnegation]
  exact beq_false_of_ne hin

/-- Nothing goes on at the end of the input. -/
theorem Grammar.Continuation.at?_of_endOfInput {place : Place} (h : place.kind = .endOfInput) :
    at? place = none := by
  rw [at?, atSetPredicate_of_kind h rfl rfl (by decide), h]
  rfl

namespace Place.Excerpt

variable {copy place : Place} (h : short.Excerpt start shift length)
  (hplaces : Abreast short start shift copy place)

include h hplaces

theorem peekKind_of_lt (count : Nat) (hlt : copy.position + count < length) :
    copy.peekKind count = place.peekKind count :=
  congrArg Token.kind (h.peek_of_lt hplaces count hlt)

theorem kind_of_lt (hlt : copy.position < length) : copy.kind = place.kind :=
  congrArg Token.kind (h.here_of_lt hplaces hlt)

theorem touches_of_lt (count : Nat) (hlt : copy.position + (count + 1) < length) :
    copy.touches (count + 1) = place.touches (count + 1) := by
  rw [touches, touches, h.peek_of_lt hplaces (count + 1) hlt, h.peek_of_lt hplaces count (by omega)]

omit hplaces in
theorem passed {session copy : Session}
    (hplaces : Abreast short start shift copy.cursor.toPlace session.cursor.toPlace)
    (hlt : copy.cursor.position < length) :
    Abreast short start shift copy.passed.cursor.toPlace session.passed.cursor.toPlace ∧
      copy.passed.cursor.position = copy.cursor.position + 1 := by
  have hlength := hplaces.begins.length_eq
  have hlength' := hplaces.begins_other.length_eq
  have hposition := hplaces.position_eq
  have hshort := h.length_eq
  have hfits := h.fits
  have hne : copy.cursor.ahead ≠ [] := by
    rw [← List.length_pos_iff]
    omega
  have hne' : session.cursor.ahead ≠ [] := by
    rw [← List.length_pos_iff]
    omega
  refine ⟨h.advance copy.cursor session.cursor hplaces ?_, Cursor.position_advance_of_ne_nil hne⟩
  rw [Cursor.position_advance_of_ne_nil hne']
  omega

/-! ### What is seen in an excerpt -/

open Grammar Grammar.Continuation

theorem atDecimal_of_lt (hlt : copy.position + 2 < length) : atDecimal copy = atDecimal place := by
  rw [atDecimal, atDecimal, h.kind_of_lt hplaces (by omega), h.peekKind_of_lt hplaces 1 (by omega),
    h.peekKind_of_lt hplaces 2 hlt, h.touches_of_lt hplaces 0 (by omega),
    h.touches_of_lt hplaces 1 hlt]

theorem atDecimal_of_le (hle : length ≤ copy.position + 2) : atDecimal copy = false := by
  rw [atDecimal, h.peekKind_of_le hplaces 2 hle]
  simp [show digitKinds.contains .endOfInput = false from rfl]

theorem castAt?_of_lt (hlt : copy.position + 2 < length) : castAt? copy = castAt? place := by
  rw [castAt?, castAt?, h.kind_of_lt hplaces (by omega), h.peekKind_of_lt hplaces 2 hlt,
    h.peekKind_of_lt hplaces 1 (by omega)]

theorem castAt?_of_le (hle : length ≤ copy.position + 2) : castAt? copy = none := by
  rw [castAt?, h.peekKind_of_le hplaces 2 hle]
  simp

/-- The last token of the excerpt, seen from a place in it. -/
theorem leadsSet_peek (count : Nat) (hlast : copy.position + count + 1 = length) :
    leadsSet (place.peekKind count) = false := by
  rw [peekKind, hplaces.begins_other.peek_eq, hplaces.position_eq,
    show copy.position + shift + count = shift + length - 1 by omega]
  exact h.leadsSet_last

/-- No set predicate is cut off. -/
theorem atSetPredicate_of_lt (hlt : copy.position < length) :
    atSetPredicate copy = atSetPredicate place := by
  have hpeek (count : Nat) (hlt : copy.position + count < length) :
      copy.peekKind count = place.peekKind count := h.peekKind_of_lt hplaces count hlt
  have hhere : place.peekKind 0 = place.kind := congrArg Token.kind (along_zero _ _)
  unfold atSetPredicate
  rw [h.kind_of_lt hplaces hlt]
  rcases Nat.lt_trichotomy (copy.position + 2) length with hlong | hlast | hshort
  · have hfirst : (if isUniversal place.kind then 1 else 0) ≤ 1 := by split <;> omega
    generalize (if isUniversal place.kind then 1 else 0) = first at hfirst ⊢
    dsimp only
    rw [hpeek first (by omega)]
    have hsecond : (if isNegation (place.peekKind first) then first + 1 else first) ≤ 2 := by
      split <;> omega
    rw [hpeek _ (by omega)]
  · -- The last token negates nothing, so `IN` would have to stand in its place or before it.
    have hleads := h.leadsSet_peek hplaces 1 hlast
    rw [leadsSet, Bool.or_eq_false_iff] at hleads
    split
    · simp only [hpeek 1 (by omega), hleads.2, Bool.false_eq_true, if_false]
    · simp only [hpeek 0 hlt]
      split
      · simp only [Nat.zero_add, hpeek 1 (by omega)]
      · simp only [hpeek 0 hlt]
  · have hleads := h.leadsSet_peek hplaces 0 (by omega)
    rw [hhere, leadsSet, Bool.or_eq_false_iff] at hleads
    simp only [hleads.1, Bool.false_eq_true, if_false, hpeek 0 hlt, hhere, hleads.2]

theorem at?_of_lt (hlt : copy.position < length) (hpos : 0 < copy.position) :
    at? copy = at? place := by
  have hfollows (kinds : KindSet) : follows copy kinds = follows place kinds := by
    rw [follows, follows, previousKind?, previousKind?, h.previous_eq hplaces hpos]
  simp only [at?, h.atSetPredicate_of_lt hplaces hlt, h.kind_of_lt hplaces hlt, hfollows]

theorem at?_of_le (hle : length ≤ copy.position) : at? copy = none :=
  at?_of_endOfInput <| (congrArg Token.kind (along_zero _ _)).symm.trans
    (h.peekKind_of_le hplaces 0 hle)

end Place.Excerpt

/-- What is seen from a place in the list has not been passed yet. -/
theorem Session.position_iterate {session : Session} (hclosed : session.cursor.Closed) {count : Nat}
    (h : session.cursor.peekKind count ≠ .endOfInput) :
    (passed^[count + 1] session).cursor.Closed ∧
      (passed^[count + 1] session).cursor.position = session.cursor.position + (count + 1) := by
  have hposition {session : Session} (hclosed : session.cursor.Closed) {count : Nat}
      (h : session.cursor.peekKind count ≠ .endOfInput) :
      session.passed.cursor.position = session.cursor.position + 1 :=
    Cursor.position_advance_of_ne_nil fun hnil ↦
      h (hclosed.kind_peek (by rw [hnil]; exact Nat.zero_le _))
  induction count generalizing session with
  | zero => exact ⟨Cursor.closed_advance hclosed, hposition hclosed h⟩
  | succ count ih =>
    have hfirst := hposition hclosed h
    rw [← peekKind_passed] at h
    obtain ⟨hclosed', hlast⟩ := ih (Cursor.closed_advance hclosed) h
    refine ⟨hclosed', hlast.trans ?_⟩
    omega

/-- What is seen and then passed inside the excerpt stands in it. -/
theorem Place.Excerpt.lt_of_passed {α : Type} (h : short.Excerpt start shift length)
    {session copy after : Session} {rest : Parser α} {value : α}
    (hplaces : Abreast short start shift copy.cursor.toPlace session.cursor.toPlace) (count : Nat)
    (hkind : session.cursor.peekKind count ≠ .endOfInput) (hrest : Onward rest)
    (hrun : rest (Session.passed^[count + 1] session) = .ok value after)
    (hle : after.cursor.position ≤ shift + length) : copy.cursor.position + count < length := by
  obtain ⟨hclosed, hpast⟩ :=
    Session.position_iterate (hplaces.begins_other.closed h.closed) hkind
  have hlast := (hrest _ value after hclosed hrun).2
  have hposition := hplaces.position_eq
  omega

namespace Scope.Carried

variable (hs : scope.Carried short start shift length scope')

include hs

theorem onward {α : Type} {parser : Parser α} (h : Alike scope scope parser parser) :
    Onward parser :=
  h.onward hs.keeps

theorem forward {α : Type} {parser : Parser α} (hproduction : Grammar.Production scope parser)
    (h : Alike scope scope parser parser) : Forward parser :=
  (hs.onward h).forward hs.progressive hproduction

theorem nested (least : Nat) :
    Carries short start shift length base (scope.expression least) (scope'.expression least) :=
  (hs.expression least).later (Nat.zero_le _)

end Scope.Carried

namespace Grammar

/-! ### Names and numbers -/

section Elementary

variable (h : short.Excerpt start shift length)

include h

theorem carries_variableName : Carries short start shift length base variableName variableName :=
  .map h (.expect h nofun)

theorem carries_memberName : Carries short start shift length base memberName memberName :=
  .map h (.expect h nofun)

theorem carries_identifier : Carries short start shift length base identifier identifier :=
  .map h (.expect h nofun)

theorem carries_integer : Carries short start shift length base integer integer := by
  refine .bind h (.consumeAny h (by decide)) fun token? ↦ ?_
  cases token? with
  | some token => exact .pure _
  | none => exact .of_error fun _ _ _ hrun ↦ by cases hrun

/-- A number with a point is seen in the excerpt if it is read in the list. -/
theorem carries_numeral : Carries short start shift length base numeral numeral := by
  have halike : Alike idle idle numeral numeral := alike_numeral
  refine ⟨halike.onward fun _ _ _ ↦ .fail _,
    fun session copy value after hplaces hbase hrun hle ↦ ?_⟩
  cases hdecimal : atDecimal session.cursor.toPlace with
  | true =>
    rw [numeral_of_decimal hdecimal] at hrun
    cases hrun
    have hpeek : session.cursor.peekKind 2 ≠ .endOfInput := by
      simp only [atDecimal, Bool.and_eq_true] at hdecimal
      exact ne_endOfInput_of_digits hdecimal.1.1.2
    have hlt := h.lt_of_passed hplaces 2 hpeek (.pure ()) rfl hle
    obtain ⟨hfirst, hposition'⟩ := h.passed hplaces (by omega)
    obtain ⟨hsecond, hposition''⟩ := h.passed hfirst (by omega)
    obtain ⟨hthird, -⟩ := h.passed hsecond (by omega)
    refine ⟨copy.passed.passed.passed, ?_, hthird, rfl⟩
    rw [numeral_of_decimal ((h.atDecimal_of_lt hplaces hlt).trans hdecimal),
      h.here_of_lt hplaces (by omega), h.here_of_lt hsecond (by omega)]
  | false =>
    have hdecimal' : atDecimal copy.cursor.toPlace = false := by
      rcases Nat.lt_or_ge (copy.cursor.position + 2) length with hlt | hge
      · exact (h.atDecimal_of_lt hplaces hlt).trans hdecimal
      · exact h.atDecimal_of_le hplaces hge
    rw [numeral_of_not_decimal hdecimal] at hrun
    rw [numeral_of_not_decimal hdecimal']
    exact (Carries.map h (carries_integer h)).copies session copy value after hplaces hbase hrun hle

/-- What the token at hand decides. -/
theorem carries_look_kind {α : Type} {next next' : Kind → Parser α}
    (hforward : Forward (look Place.kind >>= next))
    (hnext : ∀ kind, Carries short start shift length base (next kind) (next' kind)) :
    Carries short start shift length base (look Place.kind >>= next)
      (look Place.kind >>= next') := by
  refine .look (fun session copy value after hplaces hrun hle ↦ ?_) hnext
  have hlt := hforward session value after (hplaces.begins_other.closed h.closed) hrun
  have hposition := hplaces.position_eq
  exact h.kind_of_lt hplaces (by omega)

end Elementary

/-! ### Expressions -/

variable (hs : scope.Carried short start shift length scope')

include hs

theorem carries_expressionsUntil {close : Kind} (hend : close ≠ .endOfInput) :
    Carries short start shift length base (expressionsUntil scope close)
      (expressionsUntil scope' close) :=
  .bind hs.excerpt (.separatedBy hs.excerpt nofun (hs.nested 0)) fun _ ↦
    .bind hs.excerpt (.expect hs.excerpt hend) fun _ ↦ .pure _

theorem carries_optionalExpressionsUntil {close : Kind} (hend : close ≠ .endOfInput) :
    Carries short start shift length base (optionalExpressionsUntil scope close)
      (optionalExpressionsUntil scope' close) :=
  .bind hs.excerpt (.consume hs.excerpt hend) fun _ ↦ .ite (fun _ ↦ .pure _) fun _ ↦
    carries_expressionsUntil hs hend

theorem carries_listItems :
    Carries short start shift length base (listItems scope) (listItems scope') :=
  .bind hs.excerpt (.expect hs.excerpt nofun) fun _ ↦ carries_optionalExpressionsUntil hs nofun

theorem carries_castTo (type : ValueType) :
    Carries short start shift length base (castTo scope type) (castTo scope' type) :=
  .pass hs.excerpt <| .pass hs.excerpt <| .pass hs.excerpt <|
    .bind hs.excerpt (hs.nested _) fun _ ↦ .pure _

theorem carries_unary (operator : UnaryOperator) :
    Carries short start shift length base (unary scope operator) (unary scope' operator) :=
  .pass hs.excerpt <| .bind hs.excerpt (hs.nested _) fun _ ↦ .pure _

theorem carries_wrapping :
    Carries short start shift length base (wrapping scope) (wrapping scope') :=
  .pass hs.excerpt <| .bind hs.excerpt (hs.nested _) fun _ ↦
    .bind hs.excerpt (.expect hs.excerpt nofun) fun _ ↦ .pure _

/-- The double colon behind an identifier, and the bracket behind a type, are passed where they are
seen. -/
theorem carries_primary :
    Carries short start shift length base (primary scope) (primary scope') := by
  have h := hs.excerpt
  refine ⟨hs.onward alike_primary, fun session copy draft after hplaces hbase hrun hle ↦ ?_⟩
  have hclosed := hplaces.begins_other.closed h.closed
  have hlt : copy.cursor.position < length := by
    have hlt := hs.forward .primary alike_primary session draft after hclosed hrun
    have hposition := hplaces.position_eq
    omega
  have carried {body body' : Parser (Draft .expression)}
      (hbody : Carries short start shift length base body body')
      (hrun : body session = .ok draft after) :=
    hbody.copies session copy draft after hplaces hbase hrun hle
  have hseen {kind : Kind} (count : Nat) (hend : kind ≠ .endOfInput)
      (hkind : copy.cursor.peekKind count = kind) : session.cursor.peekKind count = kind :=
    (congrArg Token.kind (h.peek_of_ne hplaces count (hkind ▸ hend))).symm.trans hkind
  rw [primary, bind_look, bind_look] at hrun ⊢
  rw [h.kind_of_lt hplaces hlt]
  generalize session.cursor.kind = kind at hrun ⊢
  split at hrun
  · exact carried (.pass h (.pure _)) hrun
  · exact carried (.pass h (.pure _)) hrun
  · exact carried (.pass h (.pure _)) hrun
  · exact carried (.bind h (carries_numeral h) fun _ ↦ .pure _) hrun
  · exact carried (.bind h (carries_numeral h) fun _ ↦ .pure _) hrun
  · obtain ⟨hpassed, -⟩ := h.passed hplaces hlt
    cases hrun
    rw [← h.here_of_lt hplaces hlt]
    exact ⟨copy.passed, rfl, hpassed, rfl⟩
  · exact carried (.bind h (carries_listItems hs) fun _ ↦ .pure _) hrun
  · exact carried (.bind h (carries_variableName h) fun _ ↦ .pure _) hrun
  · exact carried (.bind h (carries_memberName h) fun _ ↦ .pure _) hrun
  · obtain ⟨hpassed, hposition'⟩ := h.passed hplaces hlt
    have hadvance (session : Session) :
        advance session = .ok session.cursor.here session.passed := rfl
    rw [bind_of_ok (hadvance _)] at hrun ⊢
    rw [h.here_of_lt hplaces hlt]
    by_cases hnext : session.cursor.peekKind 1 = .symbol .doubleColon
    · rw [if_pos hnext] at hrun
      have hrest : Carries short start shift length base _ _ :=
        .bind h (carries_identifier h) fun name ↦
          .pure (⟨.qualified session.cursor.here.text name, .nil⟩ : Draft .expression)
      have hlong := h.lt_of_passed hplaces 1 (by rw [hnext]; nofun) hrest.onward hrun hle
      rw [if_pos ((h.peekKind_of_lt hplaces 1 hlong).trans hnext)]
      exact (Carries.pass h hrest).copies _ _ draft after hpassed (by omega) hrun hle
    · rw [if_neg hnext] at hrun
      rw [if_neg fun hnext' ↦ hnext (hseen 1 nofun hnext')]
      have hrest : Carries short start shift length base _ _ :=
        .pure (⟨.identifier session.cursor.here.text, .nil⟩ : Draft .expression)
      exact hrest.copies _ _ draft after hpassed (by omega) hrun hle
  · generalize List.lookup kind valueTypes = type? at hrun ⊢
    generalize hnext : session.cursor.peekKind 1 = next at hrun
    split at hrun
    · rename_i type
      have hclose : Carries short start shift length base (expect (.symbol .rightBracket))
          (expect (.symbol .rightBracket)) := .expect h nofun
      have hrest : Carries short start shift length base _ _ :=
        .bind h hclose fun _ ↦ .bind h (carries_listItems hs) fun items ↦
          .pure (⟨.list (some type), .many items .nil⟩ : Draft .expression)
      have hlong := h.lt_of_passed hplaces 1 (by rw [hnext]; nofun) hrest.onward hrun hle
      rw [(h.peekKind_of_lt hplaces 1 hlong).trans hnext]
      exact carried (.pass h (.pass h hrest)) hrun
    · cases hrun

/-- An operand that is no cast moves forward. -/
theorem forward_uncast : Forward (look Place.kind >>= fun kind ↦
    match unaryOperator? kind with
    | some operator => unary scope operator
    | none =>
      if kind = .symbol .leftParen then wrapping scope
      else if kind = .keyword .foreach then do
        let loop ← scope.loop
        pure ⟨.forEach, .one loop .nil⟩
      else primary scope) := by
  have hexpression (least : Nat) : Forward (scope.expression least) :=
    hs.forward (.nested _) (.nested _)
  have hadvance : Onward advance := Elementary.onward .advance
  refine .behind (Elementary.onward (.look _)) fun kind ↦ ?_
  cases unaryOperator? kind with
  | some operator =>
    exact .behind hadvance fun _ ↦ (hexpression _).bind (hs.expression _).onward fun _ ↦ .pure _
  | none =>
    dsimp only
    split
    · exact .behind hadvance fun _ ↦ (hexpression _).bind (hs.expression _).onward fun _ ↦
        .bind (Elementary.onward (.expect _)) fun _ ↦ .pure _
    · split
      · exact (hs.forward (.nested .loop) (.nested _)).bind hs.loop.onward fun _ ↦ .pure _
      · exact hs.forward .primary alike_primary

/-- A cast is seen in the excerpt if it is read in the list. -/
theorem carries_operand :
    Carries short start shift length 0 (operand scope) (operand scope') := by
  have h := hs.excerpt
  refine .phrase h (hs.forward .operand alike_operand)
    (.look (fun session copy draft after hplaces hrun hle ↦ ?_) fun type? ↦ ?_)
  · cases htype : castAt? session.cursor.toPlace with
    | some type =>
      rw [htype] at hrun
      have hclose : session.cursor.peekKind 2 = .symbol .rightParen := by
        by_contra hne
        rw [castAt?, if_neg fun h ↦ hne h.2] at htype
        cases htype
      have hrest : Carries short start shift length 0 _ _ :=
        .bind h (hs.nested castOperandLevel) fun operand ↦
          .pure (⟨.cast type, .one operand .nil⟩ : Draft .expression)
      have hlt := h.lt_of_passed hplaces 2 (fun h ↦ by cases hclose.symm.trans h) hrest.onward
        hrun hle
      exact (h.castAt?_of_lt hplaces hlt).trans htype
    | none =>
      rcases Nat.lt_or_ge (copy.cursor.position + 2) length with hlt | hge
      · exact (h.castAt?_of_lt hplaces hlt).trans htype
      · exact h.castAt?_of_le hplaces hge
  · cases type? with
    | some type => exact carries_castTo hs type
    | none =>
      refine carries_look_kind h (forward_uncast hs) fun kind ↦ ?_
      cases unaryOperator? kind with
      | some operator => exact carries_unary hs operator
      | none =>
        exact .ite (fun _ ↦ carries_wrapping hs) fun _ ↦
          .ite (fun _ ↦ .bind h hs.loop fun _ ↦ .pure _) fun _ ↦ carries_primary hs

omit hs in
theorem carries_target (h : short.Excerpt start shift length) (hforward : Forward target) :
    Carries short start shift length base target target := by
  refine carries_look_kind h hforward fun kind ↦ ?_
  split
  · exact .map h (carries_variableName h)
  · exact .map h (carries_memberName h)
  · exact .of_error fun _ _ _ hrun ↦ by cases hrun

omit hs in
theorem carries_consumeEither (h : short.Excerpt start shift length) {first second : Kind}
    (hfirst : first ≠ .endOfInput) (hsecond : second ≠ .endOfInput) :
    Carries short start shift length base (consumeEither first second)
      (consumeEither first second) :=
  .bind h (.consume h hfirst) fun _ ↦ .ite (fun _ ↦ .pure _) fun _ ↦ .consume h hsecond

theorem carries_draft (left : Phrase .expression) (continuation : Continuation) :
    Carries short start shift length base (continuation.draft scope left)
      (continuation.draft scope' left) := by
  have h := hs.excerpt
  cases continuation with
  | path => exact .pass h <| .bind h (carries_identifier h) fun _ ↦ .pure _
  | call =>
    exact .pass h <| .bind h (carries_optionalExpressionsUntil hs nofun) fun _ ↦ .pure _
  | listAccess => exact .pass h <| .bind h (carries_expressionsUntil hs nofun) fun _ ↦ .pure _
  | annotationAccess =>
    exact .pass h <| .bind h (carries_expressionsUntil hs nofun) fun _ ↦ .pure _
  | binary operator => exact .pass h <| .bind h (hs.nested _) fun _ ↦ .pure _
  | assignment =>
    exact .pass h <| .bind h (.consume h nofun) fun _ ↦
      .bind h (carries_target h (hs.forward .target alike_target)) fun _ ↦ .pure _
  | setPredicate =>
    exact .bind h (carries_consumeEither h nofun nofun) fun _ ↦
      .bind h (carries_consumeEither h nofun nofun) fun _ ↦ .bind h (.expect h nofun) fun _ ↦
        .bind h (hs.nested _) fun _ ↦ .pure _
  | ternary =>
    exact .pass h <| .bind h (hs.nested _) fun _ ↦ .bind h (.expect h nofun) fun _ ↦
      .bind h (hs.nested _) fun _ ↦ .pure _

omit hs in
/-- Where nothing goes on, nothing is passed. -/
theorem continuation_none {least : Nat} {left : Phrase .expression} {session after : Session}
    (hrun : continuation scope least left session = .ok none after) : after = session := by
  rw [continuation, bind_look] at hrun
  cases hat : Continuation.at? session.cursor.toPlace with
  | none =>
    rw [hat] at hrun
    cases hrun
    rfl
  | some found =>
    rw [hat] at hrun
    by_cases hlevel : found.level < least
    · simp only [if_pos hlevel] at hrun
      cases hrun
      rfl
    · simp only [if_neg hlevel, map_eq_pure_bind] at hrun
      obtain ⟨phrase, between, -, hsome⟩ := bind_eq_ok hrun
      cases hsome

/-- Where the excerpt ends nothing goes on in it, and what goes on in the list is passed. -/
theorem carries_continuation (least : Nat) (left : Phrase .expression) :
    Carries short start shift length 1 (continuation scope least left)
      (continuation scope' least left) := by
  have h := hs.excerpt
  refine ⟨hs.onward (alike_continuation least left),
    fun session copy next? after hplaces hbase hrun hle ↦ ?_⟩
  have hposition := hplaces.position_eq
  rcases Nat.lt_or_ge copy.cursor.position length with hlt | hge
  · rw [continuation, bind_look] at hrun ⊢
    rw [h.at?_of_lt hplaces hlt hbase]
    cases hat : Continuation.at? session.cursor.toPlace with
    | none =>
      rw [hat] at hrun
      exact (Carries.pure none).copies session copy next? after hplaces hbase hrun hle
    | some found =>
      rw [hat] at hrun
      have hdraft : Carries short start shift length 1 _ _ := carries_draft hs left found
      have hphrase : Carries short start shift length 1
          (phraseFrom left.span.start (found.draft scope left))
          (phraseFrom left.span.start (found.draft scope' left)) :=
        ⟨hdraft.onward.phraseFrom _, .phraseFrom h (fun session draft after hbegins hpast hrun ↦
          Nat.lt_of_lt_of_le hpast
            (hdraft.onward session draft after (hbegins.closed h.closed) hrun).2) hdraft.copies⟩
      dsimp only at hrun ⊢
      split at hrun
      · next hlevel =>
        rw [if_pos hlevel]
        exact (Carries.pure none).copies session copy next? after hplaces hbase hrun hle
      · next hlevel =>
        rw [if_neg hlevel]
        exact (Carries.map h hphrase).copies session copy next? after hplaces hbase hrun hle
  · cases next? with
    | none =>
      cases continuation_none hrun
      refine ⟨copy, ?_, hplaces, rfl⟩
      rw [continuation, bind_look, h.at?_of_le hplaces hge]
      rfl
    | some next =>
      have hclosed := hplaces.begins_other.closed h.closed
      have hlt := (hs.onward (alike_continuation least left)).position_lt hclosed hrun
        (hs.progressive.loops (.expression least) hclosed hrun)
      omega

theorem carries_expression (least : Nat) :
    Carries short start shift length 0 (expression scope least) (expression scope' least) :=
  .bind_forward hs.excerpt (carries_operand hs) (hs.forward .operand alike_operand) fun operand ↦
    .iterate hs.excerpt (carries_continuation hs least) operand

/-! ### Loops -/

theorem carries_boundedRange :
    Carries short start shift length 0 (boundedRange scope) (boundedRange scope') := by
  have h := hs.excerpt
  exact .phrase h (hs.forward .boundedRange alike_boundedRange) <|
    .bind h (.expect h nofun) fun _ ↦ .bind h (hs.nested _) fun _ ↦
      .bind h (.expect h nofun) fun _ ↦ .bind h (hs.nested _) fun _ ↦
        .bind h (.expect h nofun) fun _ ↦ .pure _

omit hs in
theorem carries_parity? (h : short.Excerpt start shift length) :
    Carries short start shift length base parity? parity? :=
  .bind h (.consume h nofun) fun _ ↦ .ite (fun _ ↦ .pure _) fun _ ↦
    .bind h (.consume h nofun) fun _ ↦ .pure _

theorem carries_loopControl :
    Carries short start shift length 0 (loopControl scope) (loopControl scope') := by
  have h := hs.excerpt
  exact .phrase h (hs.forward .loopControl alike_loopControl) <|
    .bind h (carries_parity? h) fun _ ↦ .bind h (.behind h nofun (hs.nested _)) fun _ ↦
      .bind h (.behind h nofun (carries_boundedRange hs)) fun _ ↦
        .bind h (.behind h nofun (carries_boundedRange hs)) fun _ ↦
          .bind h (.behind h nofun (hs.nested _)) fun _ ↦
            .bind h (.expect h nofun) fun _ ↦ .pure _

theorem carries_counted :
    Carries short start shift length 0 (counted scope) (counted scope') := by
  have h := hs.excerpt
  exact .bind h (hs.nested _) fun _ ↦ .bind h (.expect h nofun) fun _ ↦
    .bind h (carries_variableName h) fun _ ↦ .pure _

theorem carries_counter :
    Carries short start shift length 0 (counter scope) (counter scope') :=
  .phrase hs.excerpt
    (hs.forward .counter (.phrase (alike_counted.bind fun _ ↦ .pure _)))
    (.bind hs.excerpt (carries_counted hs) fun _ ↦ .pure _)

theorem carries_counters :
    Carries short start shift length 0 (counters scope) (counters scope') := by
  have h := hs.excerpt
  exact .bind h (.consume h nofun) fun _ ↦ .ite
    (fun _ ↦ .separatedBy h nofun (carries_counter hs)) fun _ ↦ .pure _

theorem carries_loop : Carries short start shift length 0 (loop scope) (loop scope') := by
  have h := hs.excerpt
  exact .phrase h (hs.forward (.body .loop) alike_loop) <| .bind h (.expect h nofun) fun _ ↦
    .bind h (carries_counted hs) fun _ ↦ .bind h (carries_loopControl hs) fun _ ↦
      .bind h (carries_counters hs) fun _ ↦ .pure _

end Grammar

/-- Under every limit, and with less room than there is for the excerpt, expressions and loops
carry over to it. -/
theorem Rule.carried_inside (h : short.Excerpt start shift length) (limit limit' : Nat)
    {room room' : Nat} (hroom : room ≤ room') :
    (inside limit room).Carried short start shift length (inside limit' room') := by
  have hprogressive := Rule.progressive_inside limit
  have hkeeps (room : Nat) : ∀ rule total base, Ensures total Untraced (Place.Past base)
      ((inside limit room).nested rule) fun _ ↦ Place.Past base :=
    fun rule _ _ ↦ keeps_run
      (fun cursor hpast ↦ Nat.le_trans hpast (Cursor.position_le_advance cursor)) limit room rule
  induction room generalizing room' with
  | zero =>
    exact ⟨h, hprogressive 0, hkeeps 0, fun least ↦ .of_error fun _ _ _ hrun ↦ (by cases hrun),
      .of_error fun _ _ _ hrun ↦ (by cases hrun)⟩
  | succ room ih =>
    obtain ⟨room', rfl⟩ : ∃ room'', room' = room'' + 1 := ⟨room' - 1, by omega⟩
    have hs := ih (Nat.le_of_succ_le_succ hroom)
    exact ⟨h, hprogressive _, hkeeps _, fun least ↦ .enter (Grammar.carries_expression hs least),
      .enter (Grammar.carries_loop hs)⟩

end CorpusQuery
