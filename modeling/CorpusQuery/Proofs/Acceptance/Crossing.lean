import CorpusQuery.Proofs.Acceptance.Verge
import CorpusQuery.Proofs.Vocabulary.Start

/-!
Expressions that cross the verge. An expression crosses it if the token there is one of the kinds
with which expressions begin, except that a value type begins one only before a bracket
(`Verge.StartsExpression`). With any other token there it fails on the spot and lists the kinds that
it begins with (`Verge.Wants`). What has been read before the verge crosses it as well if it goes on
with tokens that reach so far, as the type of a cast and a set predicate do.

A scope is asked for the same of its rules (`Verge.Scopes`).
-/

set_option autoImplicit false
set_option relaxedAutoImplicit false

namespace CorpusQuery

open CorpusQuery.Parser CorpusQuery.Grammar

/-- Whatever is given up in a choice never came further than what is kept in its place. -/
structure Scope.Retreats (scope : Scope) : Prop where
  marker : Overtakes (leadingMarker scope) (nodeContent scope)
  constraint : Overtakes (leadingConstraint scope) (onlyChildren scope)
  selection : Overtakes (plainSelection scope) (structuralSelection scope)

theorem Rule.retreats_inside (limit room : Nat) : (inside limit room).Retreats :=
  ⟨overtakes_nodeContent limit room, overtakes_onlyChildren limit room,
    overtakes_structuralSelection limit room⟩

namespace Verge

/-- The kind of the token behind the verge. -/
def next (verge : Verge) : Kind := (verge.start.peek (verge.index + 1)).kind

theorem At.peekKind_one {verge : Verge} {place : Place} (h : verge.At place) :
    place.peekKind 1 = verge.next := Place.At.peekKind_eq h 1

/-- An expression begins at the verge. -/
structure StartsExpression (verge : Verge) : Prop where
  mem : expressionStart.contains verge.kind = true
  bracket : (KindSet.ofKeys valueTypes).contains verge.kind = true →
    verge.next = .symbol .leftBracket

theorem StartsExpression.kind_ne_end {verge : Verge} (h : verge.StartsExpression) :
    verge.kind ≠ .endOfInput := by
  intro hend
  have hmem := h.mem
  rw [hend] at hmem
  cases hmem

/-! ### Failures for want of something -/

/-- The parser fails for want of the kinds that are listed in the end. -/
def Wants {α : Type} (kinds : KindSet) (session : Session) (parser : Parser α) : Prop :=
  ∃ failure after, parser session = .error failure after ∧ failure.expected = kinds ∧
    after.cursor.expected = kinds

namespace Wants

variable {α β : Type} {kinds : KindSet} {session : Session} {parser : Parser α}

theorem bind (h : Wants kinds session parser) (next : α → Parser β) :
    Wants kinds session (parser >>= next) := by
  obtain ⟨failure, after, hrun, hexpected⟩ := h
  exact ⟨failure, after, bind_of_error hrun next, hexpected⟩

theorem phrase {category : Category} {body : Parser (Draft category)}
    (h : Wants kinds session body) : Wants kinds session (phrase body) := by
  obtain ⟨failure, after, hrun, hexpected⟩ := h
  exact ⟨failure, after, bind_of_error hrun _, hexpected⟩

theorem enter {title : String} {depth : Nat}
    (h : Wants kinds (entered title depth session) parser) :
    Wants kinds session (enter title depth parser) := by
  obtain ⟨failure, after, hrun, hexpected⟩ := h
  exact ⟨failure, _, enter_of_error hrun, hexpected⟩

end Wants

/-! ### Scopes -/

/-- A scope whose rules cross the verge with each kind that they begin with, and stay away behind
it. -/
structure Scopes (verge : Verge) (scope : Scope) : Prop where
  aloof : ∀ rule, Aloof verge.coupling (scope.nested rule)
  retreats : scope.Retreats
  expression : verge.StartsExpression → ∀ least, verge.Crosses (scope.expression least)
  loop : verge.kind = .keyword .foreach → verge.Crosses scope.loop
  node : nodeStart.contains verge.kind = true → verge.Crosses scope.node
  nodeStatement : nodeStatementStart.contains verge.kind = true → ∀ least,
    verge.Crosses (scope.nodeStatement least)
  structuralConstraint : structuralStart.contains verge.kind = true →
    verge.Crosses scope.structuralConstraint
  marker : markerStart.contains verge.kind = false → ∀ least place, verge.At place →
    Fails place (scope.marker least)
  /-- Where no expression begins, the kinds that one begins with are expected. -/
  refused : ¬ verge.StartsExpression → ∀ least session, verge.At session.cursor.toPlace →
    verge.coupling.Escapes (scope.expression least session) ∨
      Wants (session.cursor.expected ∪ expressionStart) session (scope.expression least)
  /-- An operand is due behind a negation, too. -/
  negated : ∀ least session, verge.start.Begins session.cursor.toPlace →
    session.cursor.position + 1 = verge.index →
      Continuation.isNegation session.cursor.kind = true →
        verge.coupling.Escapes (scope.expression least session) ∨
          Wants (∅ ∪ expressionStart) session (scope.expression least)
  /-- A group that was asked for behind the verge is found there again. -/
  grouping : ∀ session, verge.start.Begins session.cursor.toPlace →
    quantifierStart.contains session.cursor.kind = true →
      verge.coupling.Escapes (groupQuestion session) →
        verge.coupling.Escapes ((lookahead groupQuestion >>= groupedOrNot scope) session)

variable {verge : Verge} {scope : Scope} (hs : verge.Scopes scope)

include hs in
theorem Scopes.alike {α : Type} {parser : Parser α} (h : Alike scope scope parser parser) :
    Aloof verge.coupling parser :=
  h.aloof verge.lawful hs.aloof

/-! ### Names and numbers -/

section Atoms

variable {session : Session}

include hs

theorem crosses_numeral (h : digitKinds.contains verge.kind = true) : verge.Crosses numeral := by
  have hinteger : verge.Crosses integer := (Crosses.consumeAny h rfl).bind fun token? ↦ by
    cases token? with
    | none => exact .of_elementary verge.lawful (.fail _ rfl)
    | some token => exact .pure _
  refine .look fun place hat ↦ ?_
  split
  · refine (Crosses.advance fun hend ↦ ?_).bind fun _ ↦ hs.alike (.bind (.elementary .advance)
      fun _ ↦ .bind (.elementary .advance) fun _ ↦ .pure _)
    rw [hend] at h
    cases h
  · exact hinteger.map

end Atoms

/-! ### Operands -/

section Operands

include hs

theorem crosses_loop (h : verge.kind = .keyword .foreach) : verge.Crosses (loop scope) :=
  .phrase ((Crosses.expect h nofun).bind fun _ ↦ hs.alike (.bind alike_counted fun _ ↦
    .bind alike_loopControl fun _ ↦ .bind alike_counters fun _ ↦ .pure _))

theorem crosses_primary (h : verge.StartsExpression) (hunary : unaryOperator? verge.kind = none)
    (hparen : verge.kind ≠ .symbol .leftParen) (hforeach : verge.kind ≠ .keyword .foreach) :
    verge.Crosses (primary scope) := by
  have hmem := h.mem
  have hend := h.kind_ne_end
  have hadvance := Crosses.advance hend
  have hnumeral := crosses_numeral hs
  refine .look_kind (.look fun place hat ↦ ?_)
  rw [hat.peekKind_one]
  have hbracket := h.bracket
  generalize hkind : verge.kind = kind at *
  generalize verge.next = next at *
  have hitems : Alike scope scope (listItems scope) (listItems scope) := alike_listItems
  split
  · exact hadvance.bind fun _ ↦ .pure _
  · exact hadvance.bind fun _ ↦ .pure _
  · exact hadvance.bind fun _ ↦ .pure _
  · exact (hnumeral rfl).bind fun _ ↦ .pure _
  · exact (hnumeral rfl).bind fun _ ↦ .pure _
  · exact hadvance.bind fun _ ↦ .pure _
  · exact ((Crosses.expect hkind nofun).bind fun _ ↦
      hs.alike (alike_optionalExpressionsUntil _)).bind fun _ ↦ .pure _
  · exact (Crosses.expect hkind nofun).map.bind fun _ ↦ .pure _
  · exact (Crosses.expect hkind nofun).map.bind fun _ ↦ .pure _
  · refine hadvance.bind fun _ ↦ .ite (hs.alike ?_) (.pure _)
    exact .bind (.elementary .advance) fun _ ↦ .bind alike_identifier fun _ ↦ .pure _
  · rename_i hother
    change kind ∈ expressionStart at hmem
    rw [expressionStart, KindSet.mem_union] at hmem
    rcases hmem with hmem | htype
    · simp only [KindSet.mem_ofList, List.mem_cons, List.not_mem_nil, or_false] at hmem
      rcases hmem with rfl | rfl | rfl | rfl | rfl | rfl | rfl | rfl | rfl | rfl | rfl | rfl | rfl |
        rfl | rfl | rfl <;> simp_all [unaryOperator?]
    · rw [hbracket htype]
      change (KindSet.ofKeys valueTypes).contains kind = true at htype
      rw [KindSet.contains_ofKeys] at htype
      obtain ⟨type, htype⟩ := Option.isSome_iff_exists.mp htype
      rw [htype]
      exact hadvance.bind fun _ ↦ hs.alike (.bind (.elementary .advance) fun _ ↦
        .bind (.elementary (.expect _)) fun _ ↦ .bind hitems fun _ ↦ .pure _)

theorem crosses_operand (h : verge.StartsExpression) : verge.Crosses (operand scope) := by
  have hadvance := Crosses.advance h.kind_ne_end
  refine .phrase (.look fun place hat ↦ ?_)
  cases castAt? place with
  | some type =>
    exact hadvance.bind fun _ ↦ hs.alike (.bind (.elementary .advance) fun _ ↦
      .bind (.elementary .advance) fun _ ↦ .bind (.nested _) fun _ ↦ .pure _)
  | none =>
    refine .look_kind ?_
    cases hunary : unaryOperator? verge.kind with
    | some operator => exact hadvance.bind fun _ ↦ hs.alike (.bind (.nested _) fun _ ↦ .pure _)
    | none =>
      dsimp only
      split
      · exact hadvance.bind fun _ ↦ hs.alike (.bind (.nested _) fun _ ↦
          .bind (.elementary (.expect _)) fun _ ↦ .pure _)
      · rename_i hparen
        split
        · rename_i hforeach
          exact (hs.loop hforeach).bind fun _ ↦ .pure _
        · rename_i hforeach
          exact crosses_primary hs h hunary hparen hforeach

theorem crosses_expression (h : verge.StartsExpression) (least : Nat) :
    verge.Crosses (expression scope least) :=
  (crosses_operand hs h).bind fun first ↦
    .iterate (fun _ ↦ hs.alike (alike_continuation least _)) first

end Operands

/-! ### No operand -/

section Wanting

variable {session : Session}

/-- A kind that only an expression begins with is not there where none begins. -/
theorem kind_ne_of_not_starts (h : ¬ verge.StartsExpression) {kind : Kind}
    (hmem : expressionStart.contains kind = true)
    (htype : (KindSet.ofKeys valueTypes).contains kind = false) : verge.kind ≠ kind := by
  rintro rfl
  refine h ⟨hmem, fun hcontains ↦ ?_⟩
  rw [htype] at hcontains
  cases hcontains

theorem wants_primary (h : ¬ verge.StartsExpression) (hat : verge.At session.cursor.toPlace) :
    Wants (session.cursor.expected ∪ expressionStart) session (primary scope) := by
  have hne {kind : Kind} : expressionStart.contains kind = true →
      (KindSet.ofKeys valueTypes).contains kind = false → verge.kind ≠ kind :=
    kind_ne_of_not_starts h
  have htype (type : ValueType) (hlookup : valueTypes.lookup verge.kind = some type) :
      verge.next ≠ .symbol .leftBracket := by
    intro hbracket
    refine h ⟨KindSet.mem_union.mpr (.inr ?_), fun _ ↦ hbracket⟩
    rw [KindSet.mem_iff, KindSet.contains_ofKeys, hlookup]
    rfl
  rw [Wants, primary, bind_look, bind_look, hat.kind_eq, hat.peekKind_one, ← Wants]
  generalize verge.kind = kind at hne htype
  generalize verge.next = next at htype
  split
  case h_11 =>
    split
    · exact absurd rfl (htype _ ‹_›)
    · exact ⟨_, _, rfl, rfl, rfl⟩
  all_goals exact absurd rfl (hne (by decide) (by decide))

/-- Where no expression begins, an operand wants one. -/
theorem wants_operand (h : ¬ verge.StartsExpression) (hat : verge.At session.cursor.toPlace) :
    Wants (session.cursor.expected ∪ expressionStart) session (operand scope) := by
  have hparen : verge.kind ≠ .symbol .leftParen := kind_ne_of_not_starts h rfl rfl
  have hforeach : verge.kind ≠ .keyword .foreach := kind_ne_of_not_starts h rfl rfl
  have hcast : castAt? session.cursor.toPlace = none :=
    if_neg fun hopen ↦ hparen (hat.kind_eq.symm.trans hopen.1)
  have hunary : unaryOperator? verge.kind = none := by
    have hne {kind : Kind} : expressionStart.contains kind = true →
        (KindSet.ofKeys valueTypes).contains kind = false → verge.kind ≠ kind :=
      kind_ne_of_not_starts h
    generalize verge.kind = kind at hne
    unfold unaryOperator?
    split
    case h_5 => rfl
    all_goals exact absurd rfl (hne (by decide) (by decide))
  refine .phrase ?_
  rw [Wants, bind_look, hcast]
  dsimp only
  rw [bind_look, hat.kind_eq, hunary]
  dsimp only
  rw [if_neg hparen, if_neg hforeach]
  exact wants_primary h hat

theorem wants_expression (h : ¬ verge.StartsExpression) (least : Nat)
    (hat : verge.At session.cursor.toPlace) :
    Wants (session.cursor.expected ∪ expressionStart) session (expression scope least) :=
  (wants_operand h hat).bind _

end Wanting

/-! ### Behind a negation -/

section Negated

variable {session : Session}

/-- A token that is passed takes along what was tested there. -/
theorem expected_passed (hclosed : session.cursor.Closed)
    (hkind : session.cursor.kind ≠ .endOfInput) : session.passed.cursor.expected = ∅ := by
  refine Cursor.expected_advance_of_ne_nil fun hnil ↦ hkind ?_
  rw [Place.Closed, hnil] at hclosed
  exact hclosed

theorem phrase_congr {category : Category} {body body' : Parser (Draft category)}
    (h : body session = body' session) : phrase body session = phrase body' session := by
  rw [phrase, phrase, bind_look, bind_look, phraseFrom, phraseFrom]
  simp only [bind, EStateM.bind, h]

theorem operand_of_negation (scope : Scope)
    (h : Continuation.isNegation session.cursor.kind = true) :
    operand scope session = phrase (unary scope .not) session := by
  have hkind : session.cursor.kind = .keyword .not ∨ session.cursor.kind = .symbol .bang := by
    rwa [Continuation.isNegation, Bool.or_eq_true, beq_iff_eq, beq_iff_eq] at h
  have hcast : castAt? session.cursor.toPlace = none := by
    refine if_neg fun hopen ↦ ?_
    rcases hkind with hkind | hkind <;> cases hkind.symm.trans hopen.1
  have hunary : unaryOperator? session.cursor.kind = some .not := by
    rcases hkind with hkind | hkind <;> rw [hkind] <;> rfl
  refine phrase_congr ?_
  rw [bind_look, hcast]
  dsimp only
  rw [bind_look, hunary]

include hs in
theorem negated_expression (least : Nat) (hbegins : verge.start.Begins session.cursor.toPlace)
    (hposition : session.cursor.position + 1 = verge.index)
    (hnegation : Continuation.isNegation session.cursor.kind = true) :
    verge.coupling.Escapes (expression scope least session) ∨
      Wants (∅ ∪ expressionStart) session (expression scope least) := by
  have hclosed : session.cursor.Closed := hbegins.closed verge.closed
  have hend : session.cursor.kind ≠ .endOfInput := by
    intro hend
    rw [hend] at hnegation
    cases hnegation
  have hat : verge.At session.passed.cursor.toPlace := at_passed hbegins hposition hend
  -- The negation is a unary operator, and its operand is due at the verge.
  have hoperand : verge.coupling.Escapes (scope.expression unaryOperandLevel session.passed) ∨
      Wants (∅ ∪ expressionStart) session.passed (scope.expression unaryOperandLevel) := by
    by_cases hstarts : verge.StartsExpression
    · exact .inl (hs.expression hstarts _ _ hat)
    · rw [← expected_passed hclosed hend]
      exact hs.refused hstarts _ _ hat
  have hrest (first : Phrase .expression) :
      Aloof verge.coupling (iterate (continuation scope least) first) :=
    .iterate (fun _ ↦ hs.alike (alike_continuation least _)) first
  refine hoperand.imp (fun hescapes ↦ .bind ?_ hrest) fun hwants ↦ .bind ?_ _
  · have hunary : unary scope .not session = (scope.expression unaryOperandLevel >>= fun operand ↦
        pure ⟨.unary .not, .one operand .nil⟩) session.passed := rfl
    rw [operand_of_negation scope hnegation]
    exact .phraseFrom (hunary ▸ hescapes.bind fun _ ↦ .pure _)
  · rw [Wants, operand_of_negation scope hnegation, ← Wants]
    exact .phrase (hwants.bind _)

end Negated

/-! ### Continuations -/

section Continuations

variable {session : Session}

/-- The continuation that is read at a place above a level, if any. -/
def read? (least : Nat) (place : Place) : Option Continuation :=
  (Continuation.at? place).filter (least ≤ ·.level)

/-- Continues an expression with a continuation, if there is one. -/
def continued (scope : Scope) (left : Phrase .expression) :
    Option Continuation → Parser (Option (Phrase .expression))
  | none => pure none
  | some continuation => some <$> phraseFrom left.span.start (continuation.draft scope left)

theorem continuation_eq (scope : Scope) (least : Nat) (left : Phrase .expression) :
    continuation scope least left = look (read? least) >>= continued scope left := by
  funext session
  rw [continuation, bind_look, bind_look, read?]
  cases Continuation.at? session.cursor.toPlace with
  | none => rfl
  | some continuation =>
    by_cases hlevel : continuation.level < least
    · rw [Option.filter_some_neg (by simpa using hlevel)]
      exact congrFun (if_pos hlevel) session
    · rw [Option.filter_some_pos (by simpa using hlevel)]
      exact congrFun (if_neg hlevel) session

theorem at?_of_read? {least : Nat} {place : Place} {continuation : Continuation}
    (h : read? least place = some continuation) :
    Continuation.at? place = some continuation ∧ least ≤ continuation.level := by
  obtain ⟨hat, hlevel⟩ := Option.filter_eq_some_iff.mp h
  exact ⟨hat, of_decide_eq_true hlevel⟩

/-- The number of tokens before the `IN` of a set predicate. -/
def steps (place : Place) : Nat :=
  let count := (Continuation.isUniversal place.kind).toNat
  count + (Continuation.isNegation (place.peekKind count)).toNat

theorem atSetPredicate_iff {place : Place} :
    Continuation.atSetPredicate place = true ↔
      place.peekKind (steps place) = .keyword .inKw := by
  rw [Continuation.atSetPredicate, steps]
  cases Continuation.isUniversal place.kind with
  | false =>
    cases h : Continuation.isNegation (place.peekKind 0) <;> simp [h]
  | true =>
    cases h : Continuation.isNegation (place.peekKind 1) <;> simp [h]

/-- One of two kinds is passed if it is at hand. -/
theorem at_consumeEither {start : Place} (hclosed : start.Closed) {index : Nat}
    {first second : Kind} (hfirst : first ≠ .endOfInput) (hsecond : second ≠ .endOfInput)
    (hat : start.At index session.cursor.toPlace) :
    let found := session.cursor.kind == first || session.cursor.kind == second
    ∃ after, consumeEither first second session = .ok found after ∧
      start.At (index + found.toNat) after.cursor.toPlace := by
  have hpassed (cursor : Cursor) (hplace : cursor.toPlace = session.cursor.toPlace)
      (hkind : session.cursor.kind ≠ .endOfInput) :
      start.At (index + 1) cursor.advance.toPlace := by
    rw [← hplace] at hat hkind
    exact hat.advance (hat.1.closed hclosed) hkind
  dsimp only
  by_cases hkind : session.cursor.kind = first
  · rw [beq_iff_eq.mpr hkind]
    exact ⟨_, bind_of_ok (consume_of_kind hkind) _, hpassed _ rfl (hkind ▸ hfirst)⟩
  · rw [beq_eq_false_iff_ne.mpr hkind, Bool.false_or]
    have hrun : consumeEither first second session =
        consume second (session.tested (.single first)) := bind_of_ok (consume_of_ne hkind) _
    by_cases hkind' : session.cursor.kind = second
    · rw [beq_iff_eq.mpr hkind']
      exact ⟨_, hrun.trans (consume_of_kind hkind'), hpassed _ rfl (hkind' ▸ hsecond)⟩
    · rw [beq_eq_false_iff_ne.mpr hkind']
      exact ⟨_, hrun.trans (consume_of_ne hkind'), hat⟩

theorem atSetPredicate_of_at? {place : Place}
    (h : Continuation.at? place = some .setPredicate) :
    Continuation.atSetPredicate place = true := by
  unfold Continuation.at? at h
  split at h
  · assumption
  · split at h
    case h_7 =>
      obtain ⟨_, _, h⟩ := Option.map_eq_some_iff.mp h
      cases h
    all_goals first | cases h | split at h <;> cases h

include hs in
/-- A set predicate whose tokens reach the verge crosses it. -/
theorem escapes_setPredicate (left : Phrase .expression)
    (hbegins : verge.start.Begins session.cursor.toPlace)
    (hset : Continuation.atSetPredicate session.cursor.toPlace = true)
    (hreach : verge.index ≤ session.cursor.position + steps session.cursor.toPlace) :
    verge.coupling.Escapes (Continuation.draft scope left .setPredicate session) := by
  have huniversal : Kind.keyword .all ≠ .endOfInput ∧ Kind.symbol .star ≠ .endOfInput := by decide
  have hnegation : Kind.keyword .not ≠ .endOfInput ∧ Kind.symbol .bang ≠ .endOfInput := by decide
  obtain ⟨after, hrun, hafter⟩ :=
    at_consumeEither verge.closed huniversal.1 huniversal.2 ⟨hbegins, rfl⟩
  obtain ⟨last, hrun', hlast⟩ := at_consumeEither verge.closed hnegation.1 hnegation.2 hafter
  have hkind : after.cursor.kind =
      session.cursor.peekKind (Continuation.isUniversal session.cursor.kind).toNat :=
    hafter.kind_eq.trans (Place.At.peekKind_eq ⟨hbegins, rfl⟩ _).symm
  have hsteps : verge.start.At (session.cursor.position + steps session.cursor.toPlace)
      last.cursor.toPlace := by
    rw [hkind, Nat.add_assoc] at hlast
    exact hlast
  have hin : last.cursor.kind = .keyword .inKw := by
    refine hsteps.kind_eq.trans ?_
    rw [← Place.At.peekKind_eq ⟨hbegins, rfl⟩]
    exact atSetPredicate_iff.mp hset
  have hpast := past_tested (.single (.keyword .inKw)) hsteps.1 (hsteps.2.symm ▸ hreach)
    (show last.cursor.kind ≠ _ from hin ▸ nofun)
  rw [Continuation.draft, bind_of_ok hrun, bind_of_ok hrun', bind_of_ok (expect_of_kind hin)]
  exact (hs.alike (.bind (.nested (.expression _)) fun _ ↦ .pure _)).escapes (.inr hpast)

include hs in
/-- A continuation that follows at the verge crosses it. -/
theorem escapes_draft (left : Phrase .expression) {continuation : Continuation}
    (hat : verge.At session.cursor.toPlace)
    (h : Continuation.at? session.cursor.toPlace = some continuation) :
    verge.coupling.Escapes (continuation.draft scope left session) := by
  have hadvance (hset : continuation ≠ .setPredicate) : verge.Crosses advance :=
    .advance (hat.kind_eq ▸ kind_ne_end_of_at? h hset)
  have hexpression (least : Nat) := hs.alike (.nested (.expression least))
  cases continuation with
  | setPredicate =>
    refine escapes_setPredicate hs left hat.1 ?_ (hat.2 ▸ Nat.le_add_right _ _)
    exact atSetPredicate_of_at? h
  | path =>
    exact (hadvance nofun).bind (fun _ ↦ hs.alike (.bind alike_identifier fun _ ↦ .pure _)) _ hat
  | call =>
    exact (hadvance nofun).bind (fun _ ↦
      hs.alike (.bind (alike_optionalExpressionsUntil _) fun _ ↦ .pure _)) _ hat
  | listAccess =>
    exact (hadvance nofun).bind (fun _ ↦
      hs.alike (.bind (alike_expressionsUntil _) fun _ ↦ .pure _)) _ hat
  | annotationAccess =>
    exact (hadvance nofun).bind (fun _ ↦
      hs.alike (.bind (alike_expressionsUntil _) fun _ ↦ .pure _)) _ hat
  | binary operator =>
    exact (hadvance nofun).bind (fun _ ↦ (hexpression _).bind fun _ ↦ .pure _) _ hat
  | assignment =>
    exact (hadvance nofun).bind (fun _ ↦ hs.alike (.bind (.elementary (.consume _)) fun _ ↦
      .bind alike_target fun _ ↦ .pure _)) _ hat
  | ternary =>
    exact (hadvance nofun).bind (fun _ ↦ hs.alike (.bind (.nested (.expression 0)) fun _ ↦
      .bind (.elementary (.expect _)) fun _ ↦ .bind (.nested (.expression _)) fun _ ↦
        .pure _)) _ hat

include hs in
/-- A factor is due at the verge, or behind a negation before it. -/
theorem multiply_draft (left : Phrase .expression)
    (hbegins : verge.start.Begins session.cursor.toPlace)
    (hkind : session.cursor.kind = .symbol .star)
    (hdue : session.cursor.position + 1 = verge.index ∨ session.cursor.position + 2 = verge.index ∧
      Continuation.isNegation (session.cursor.peekKind 1) = true) :
    verge.coupling.Escapes (Continuation.draft scope left (.binary .multiply) session) ∨
      Wants (∅ ∪ expressionStart) session (Continuation.draft scope left (.binary .multiply)) := by
  have hclosed : session.cursor.Closed := hbegins.closed verge.closed
  have hend : session.cursor.kind ≠ .endOfInput := hkind ▸ nofun
  have hpassed : verge.start.At (session.cursor.position + 1) session.passed.cursor.toPlace :=
    Place.At.advance ⟨hbegins, rfl⟩ hclosed hend
  have hfactor : verge.coupling.Escapes
      (scope.expression (BinaryOperator.multiply.level + 1) session.passed) ∨
        Wants (∅ ∪ expressionStart) session.passed
          (scope.expression (BinaryOperator.multiply.level + 1)) := by
    rcases hdue with hindex | ⟨hindex, hnegation⟩
    · rw [hindex] at hpassed
      by_cases hstarts : verge.StartsExpression
      · exact .inl (hs.expression hstarts _ _ hpassed)
      · rw [← expected_passed hclosed hend]
        exact hs.refused hstarts _ _ hpassed
    · refine hs.negated _ _ hpassed.1 ?_ ?_
      · rw [show session.passed.cursor.position = _ from hpassed.2]
        exact hindex
      · rwa [Session.kind_passed]
  have hdraft : Continuation.draft scope left (.binary .multiply) session =
      (scope.expression (BinaryOperator.multiply.level + 1) >>= fun right ↦
        pure ⟨.binary .multiply, .one left (.one right .nil)⟩) session.passed := rfl
  rw [Wants, hdraft, ← Wants]
  exact hfactor.imp (fun hescapes ↦ hescapes.bind fun _ ↦ .pure _) fun hwants ↦ hwants.bind _

/-- What is read at a place that a set predicate follows at. -/
theorem read?_of_atSetPredicate {least : Nat} {place : Place}
    (h : Continuation.atSetPredicate place = true) :
    read? least place = if least ≤ 3 then some .setPredicate else none := by
  rw [read?, Continuation.at?, if_pos h]
  split
  · rename_i hle
    exact Option.filter_some_pos (decide_eq_true hle)
  · rename_i hle
    exact Option.filter_some_neg (decide_eq_false hle)

include hs in
/-- A set predicate that is read and reaches the verge crosses it. -/
theorem escapes_continuation_of_atSetPredicate {least : Nat} (hleast : least ≤ 3)
    (left : Phrase .expression) (hbegins : verge.start.Begins session.cursor.toPlace)
    (hset : Continuation.atSetPredicate session.cursor.toPlace = true)
    (hreach : verge.index ≤ session.cursor.position + steps session.cursor.toPlace) :
    verge.coupling.Escapes (continuation scope least left session) := by
  rw [continuation_eq, bind_look, read?_of_atSetPredicate hset, if_pos hleast]
  exact (escapes_setPredicate hs left hbegins hset hreach).phraseFrom.map

/-- A set predicate that is too loose is left where it is. -/
theorem continuation_of_atSetPredicate {least : Nat} (hleast : ¬ least ≤ 3)
    (left : Phrase .expression) (hset : Continuation.atSetPredicate session.cursor.toPlace = true) :
    continuation scope least left session = .ok none session := by
  rw [continuation_eq, bind_look, read?_of_atSetPredicate hset, if_neg hleast]
  rfl

end Continuations

/-! ### Before the verge -/

section Nearing

variable {session : Session}

include hs

/-- A cast whose type reaches the verge crosses it. -/
theorem escapes_castTo (hbegins : verge.start.Begins session.cursor.toPlace)
    (hlt : verge.index < session.cursor.position + 3) {type : ValueType}
    (h : castAt? session.cursor.toPlace = some type) :
    verge.coupling.Escapes (castTo scope type session) := by
  rw [castAt?] at h
  split at h
  · rename_i hopen
    have htype : session.cursor.peekKind 1 ≠ .endOfInput := fun hend ↦ by
      rw [show session.cursor.toPlace.peekKind 1 = _ from hend] at h
      cases h
    have hnears : verge.Nears 3 session.cursor.toPlace := .of_three hbegins hlt
      (hopen.1.trans_ne (by decide)) htype (hopen.2.trans_ne (by decide))
    refine hnears.escapes_advance
      fun _ _ hnears ↦ hnears.escapes_advance fun _ _ hnears ↦ hnears.escapes_advance
        fun _ _ hnears ↦ ?_
    exact (hs.alike (.bind (.nested (.expression _)) fun _ ↦ .pure _)).escapes (.inr hnears.past)
  · cases h

end Nearing

end Verge

end CorpusQuery
