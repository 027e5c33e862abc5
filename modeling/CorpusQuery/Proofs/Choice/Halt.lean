import CorpusQuery.Proofs.Choice.Window

/-!
Where markers and expressions come to a halt. A marker passes no brackets at all. An expression
passes an opening bracket only behind a name, a closing delimiter or the type of a list, and a
closing one only behind an opening one; so if nothing of that kind stands before the first bracket,
an expression does not get past it. `opening` collects what can stand there in a structural
constraint, and none of it lets an expression pass.
-/

set_option autoImplicit false
set_option relaxedAutoImplicit false

namespace CorpusQuery

open CorpusQuery.Parser

/-- The kinds of the tokens before which markers and expressions halt. -/
def Kind.halts : Kind → Bool
  | .symbol .leftBracket | .symbol .rightBracket | .keyword .lane => true
  | _ => false

theorem Kind.of_halts {kind : Kind} (h : kind.halts = true) :
    kind = .symbol .leftBracket ∨ kind = .symbol .rightBracket ∨ kind = .keyword .lane := by
  unfold halts at h
  split at h
  · exact .inl rfl
  · exact .inr (.inl rfl)
  · exact .inr (.inr rfl)
  · cases h

namespace Grammar

/-! ### Before the first bracket -/

/-- What can stand before the first bracket of a node statement: quantifiers, braces and
arrangements. -/
def statementOpening : KindSet :=
  .ofList [.keyword .not, .symbol .bang, .keyword .all, .symbol .star, .pureDigits, .symbol .less,
    .symbol .question, .symbol .plus, .symbol .doubleDot, .symbol .minus, .symbol .caret,
    .symbol .pipe, .symbol .greater, .symbol .leftBrace] ∪ .ofKeys arrangements

/-- What can stand before the first bracket of a structural constraint. -/
def opening : KindSet :=
  statementOpening ∪ .ofKeys matchFlags ∪ .ofList [.keyword .first, .keyword .hits]

/-- All tokens from a first index on to before a last one may stand before a bracket, and a parser
halts at the last one. -/
structure Halting (start : Place) (base last : Nat) : Prop where
  closed : start.Closed
  halts : (start.peek last).kind.halts = true
  opening : ∀ index, base ≤ index → index < last →
    opening.contains (start.peek index).kind = true

variable {start : Place} {base last : Nat} {given : Place → Prop} {scope : Scope}

theorem Halting.later (h : Halting start base last) : Halting start (base + 1) last :=
  ⟨h.closed, h.halts, fun index hle hlt ↦ h.opening index (Nat.le_of_succ_le hle) hlt⟩

/-- A token that no parser halts at may stand before a bracket. -/
theorem Halting.contains (h : Halting start base last) {place : Place}
    (hwithin : Place.Within start base last place) (hkind : place.kind.halts = false) :
    Grammar.opening.contains place.kind = true := by
  have hlt := hwithin.lt_last fun heq ↦ by rw [heq, h.halts] at hkind; cases hkind
  have hopening := h.opening _ hwithin.base_le hlt
  rwa [← hwithin.begins.here_eq] at hopening

section Halts

variable (hstop : (start.peek last).kind.halts = true)

include hstop

theorem ne_of_halts {kind : Kind} (h : kind.halts = false) : kind ≠ (start.peek last).kind := by
  rintro rfl
  rw [hstop] at h
  cases h

/-! ### Numbers -/

theorem contains_digitKinds_of_halts : digitKinds.contains (start.peek last).kind = false := by
  rcases Kind.of_halts hstop with h | h | h <;> rw [h] <;> rfl

theorem ne_of_digits {kind : Kind} (h : digitKinds.contains kind = true) :
    kind ≠ (start.peek last).kind := by
  rintro rfl
  rw [contains_digitKinds_of_halts hstop] at h
  cases h

theorem stays_integer : Stays start base last given integer fun _ ↦ Anywhere := by
  refine (Stays.consumeAny (contains_digitKinds_of_halts hstop)).bind fun token? ↦ ?_
  cases token? with
  | none => exact .fail
  | some token => exact .done

theorem stays_numeral : Stays start base last given numeral fun _ ↦ Anywhere := by
  refine Stays.look.bind fun isDecimal ↦ .ite (fun hdecimal ↦ ?_) fun _ ↦
    (stays_integer hstop).map
  -- The point and the digits behind it are seen before the first digits are passed.
  have hseen (place : Place) (hplace : given place ∧ atDecimal place = isDecimal) :
      digitKinds.contains place.kind = true ∧ place.peekKind 1 = .symbol .dot ∧
        digitKinds.contains (place.peekKind 2) = true := by
    have hat := hplace.2.trans hdecimal
    simp only [atDecimal, Bool.and_eq_true, beq_iff_eq] at hat
    exact ⟨hat.1.1.1.1, hat.1.1.1.2, hat.1.1.2⟩
  refine (Stays.advance_seen
    (fun place ↦ place.kind = .symbol .dot ∧ digitKinds.contains (place.peekKind 1) = true)
    (fun place hplace ↦ ne_of_digits hstop (hseen place hplace).1)
    fun place after hplace hkind hpeek ↦ ?_).bind fun _ ↦ ?_
  · rw [hkind, hpeek]
    exact (hseen place hplace).2
  refine (Stays.advance_seen (fun place ↦ digitKinds.contains place.kind = true)
    (fun place hplace ↦ hplace.1 ▸ ne_of_halts hstop rfl)
    fun place after hplace hkind _ ↦ hkind ▸ hplace.2).bind fun _ ↦ ?_
  exact (Stays.advance fun place ↦ ne_of_digits hstop).bind fun _ ↦ .done

theorem stays_signedNumeral : Stays start base last given signedNumeral fun _ ↦ Anywhere := by
  have hsigns : (KindSet.ofKeys signs).contains (start.peek last).kind = false := by
    rcases Kind.of_halts hstop with h | h | h <;> rw [h] <;> rfl
  refine (Stays.oneOf hsigns).bind fun sign? ↦ ?_
  cases sign? with
  | none => exact stays_numeral hstop
  | some sign =>
    exact Stays.look.bind fun _ ↦ .ite (fun _ ↦ (stays_numeral hstop).map) fun _ ↦
      Stays.expecting.bind fun _ ↦ .fail

/-! ### Markers -/

theorem stays_markerArguments : Stays start base last given markerArguments fun _ ↦ Anywhere :=
  (Stays.consume (ne_of_halts hstop rfl)).bind fun _ ↦ .ite
    (fun _ ↦ (Stays.separatedBy (ne_of_halts hstop rfl) (stays_signedNumeral hstop)).bind fun _ ↦
      (Stays.expect (ne_of_halts hstop rfl)).bind fun _ ↦ .done) fun _ ↦ .done

section Markers

variable (hs : ∀ least, Stays start base last Anywhere (scope.marker least) fun _ ↦ Anywhere)

include hs

theorem stays_markerOperand :
    Stays start base last given (markerOperand scope) fun _ ↦ Anywhere := by
  refine .phrase ((Stays.consume (ne_of_halts hstop rfl)).bind fun _ ↦ .ite (fun _ ↦ ?_) fun _ ↦ ?_)
  · exact (hs 0).bind fun _ ↦ (Stays.expect (ne_of_halts hstop rfl)).bind fun _ ↦ .done
  · refine Stays.check.bind fun isCall ↦ .ite (fun hcall ↦ ?_) fun _ ↦ .failMissing
    refine (Stays.advance fun place hplace ↦ ?_).bind fun _ ↦
      (stays_markerArguments hstop).bind fun _ ↦ .done
    rw [beq_iff_eq.mp (hplace.2.trans hcall)]
    exact ne_of_halts hstop rfl

theorem stays_markerContinuation (least : Nat) (left : Phrase .marker) :
    Stays start base last Anywhere (markerContinuation scope least left) fun _ ↦ Anywhere := by
  refine Stays.look.bind fun kind ↦ ?_
  cases hconnective : Connective.ofKind? kind with
  | none => exact .done
  | some connective =>
    refine .ite (fun _ ↦ .done) fun _ ↦
      Stays.map (.phraseFrom ((Stays.advance fun place hplace ↦ ?_).bind
      fun _ ↦ (hs _).anywhere.bind fun _ ↦ .done))
    rintro heq
    rw [← hplace.2, show place.kind = _ from heq] at hconnective
    rcases Kind.of_halts hstop with h | h | h <;> rw [h] at hconnective <;> cases hconnective

theorem stays_marker (least : Nat) :
    Stays start base last given (marker scope least) fun _ ↦ Anywhere :=
  (stays_markerOperand hstop hs).bind fun first ↦
    .iterate (stays_markerContinuation hstop hs least) first

end Markers

end Halts

/-! ### Expressions -/

/-- A token that a parser would pass, but that cannot stand before the first bracket. -/
theorem Halting.ne (h : Halting start base last) {place : Place} {kind : Kind}
    (hwithin : Place.Within start base last place) (hhalts : kind.halts = false)
    (hopening : Grammar.opening.contains kind = false) : place.kind ≠ kind := by
  rintro rfl
  rw [h.contains hwithin hhalts] at hopening
  cases hopening

/-- A token behind which a list could be accessed cannot stand before the first bracket. -/
theorem Halting.not_follows (h : Halting start base last) {place : Place}
    (hwithin : Place.Within start (base + 1) last place) :
    Continuation.follows place Continuation.listAccessible = false := by
  have hrows : ∀ kind ∈ [Kind.identifier, .variableName, .memberName, .symbol .rightParen,
      .symbol .rightBrace, .symbol .rightBracket], Grammar.opening.contains kind = false := by
    decide
  have hbase := hwithin.base_le
  have hlast := hwithin.le_last
  obtain ⟨previous, rest, hbehind⟩ := List.exists_cons_of_length_pos (Nat.zero_lt_of_lt hbase)
  have hprevious := h.opening (place.position - 1) (by omega) (by omega)
  rw [← hwithin.begins.previous_eq hbehind] at hprevious
  rw [Continuation.follows, Place.previousKind?, hbehind, List.head?_cons, Option.map_some,
    Option.any_some]
  refine Bool.eq_false_iff.mpr fun hcontains ↦ ?_
  rw [Continuation.listAccessible, Continuation.callable, KindSet.contains_union,
    KindSet.contains_ofList, KindSet.contains_ofList, Bool.or_eq_true, List.contains_iff_mem,
    List.contains_iff_mem, ← List.mem_append] at hcontains
  rw [hrows _ hcontains] at hprevious
  cases hprevious

/-- A continuation begins with a token that no parser halts at, unless it accesses a list, or is a
set predicate, which passes its tokens one by one. -/
theorem halts_of_at? {place : Place} {continuation : Continuation}
    (h : Continuation.at? place = some continuation) (hset : continuation ≠ .setPredicate) :
    place.kind.halts = false ∨ Continuation.follows place Continuation.listAccessible = true := by
  unfold Continuation.at? at h
  split at h
  · cases h
    exact absurd rfl hset
  · split at h
    · rename_i hkind
      exact .inl (by rw [hkind]; rfl)
    · rename_i hkind
      exact .inl (by rw [hkind]; rfl)
    · split at h
      · exact .inr ‹_›
      · cases h
    · rename_i hkind
      exact .inl (by rw [hkind]; rfl)
    · rename_i hkind
      exact .inl (by rw [hkind]; rfl)
    · rename_i hkind
      exact .inl (by rw [hkind]; rfl)
    · refine .inl (Bool.eq_false_iff.mpr fun hhalts ↦ ?_)
      rcases Kind.of_halts hhalts with hkind | hkind | hkind <;> rw [hkind] at h <;> cases h

theorem kind_of_listAccess {place : Place} (h : Continuation.at? place = some .listAccess) :
    place.kind = .symbol .leftBracket := by
  unfold Continuation.at? at h
  split at h
  · cases h
  · split at h <;> first | assumption | simp at h

section Expressions

variable (hs : ∀ base, Halting start base last → ∀ least,
  Stays start base last Anywhere (scope.expression least) fun _ ↦ Anywhere)
  (h : Halting start base last)

include hs h

theorem stays_expressionsUntil {close : Kind} (hclose : close.halts = false) :
    Stays start base last given (expressionsUntil scope close) fun _ ↦ Anywhere :=
  (Stays.separatedBy (ne_of_halts h.halts rfl) (hs base h 0)).bind fun _ ↦
    (Stays.expect (ne_of_halts h.halts hclose)).bind fun _ ↦ .done

theorem stays_optionalExpressionsUntil {close : Kind} (hclose : close.halts = false) :
    Stays start base last given (optionalExpressionsUntil scope close) fun _ ↦ Anywhere :=
  (Stays.consume (ne_of_halts h.halts hclose)).bind fun _ ↦
    .ite (fun _ ↦ .done) fun _ ↦ stays_expressionsUntil hs h hclose

theorem stays_listItems : Stays start base last given (listItems scope) fun _ ↦ Anywhere :=
  (Stays.expect (ne_of_halts h.halts rfl)).bind fun _ ↦ stays_optionalExpressionsUntil hs h rfl

theorem stays_primary : Stays start base last given (primary scope) fun _ ↦ Anywhere := by
  refine Stays.look.bind fun kind ↦ Stays.look.bind fun next ↦ ?_
  have hadvance (hkind : kind.halts = false) :
      Stays start base last
        (fun place ↦ (given place ∧ place.kind = kind) ∧ place.peekKind 1 = next) advance
        fun _ ↦ Anywhere :=
    .advance fun place hplace ↦ hplace.1.2 ▸ ne_of_halts h.halts hkind
  split
  · exact (hadvance rfl).bind fun _ ↦ .done
  · exact (hadvance rfl).bind fun _ ↦ .done
  · exact (hadvance rfl).bind fun _ ↦ .done
  · exact (stays_numeral h.halts).bind fun _ ↦ .done
  · exact (stays_numeral h.halts).bind fun _ ↦ .done
  · exact (hadvance rfl).bind fun _ ↦ .done
  · exact (stays_listItems hs h).bind fun _ ↦ .done
  · exact (Stays.map (.expect (ne_of_halts h.halts rfl))).bind fun _ ↦ .done
  · exact (Stays.map (.expect (ne_of_halts h.halts rfl))).bind fun _ ↦ .done
  · exact .absurd fun place hwithin hplace ↦ h.ne hwithin rfl rfl hplace.1.2
  · split
    · rename_i type hlookup
      have hrows : ∀ row ∈ valueTypes,
          row.1.halts = false ∧ Grammar.opening.contains row.1 = false := by decide
      obtain ⟨front, back, heq, -⟩ := List.lookup_eq_some_iff.mp hlookup
      obtain ⟨hhalts, hopening⟩ := hrows (kind, type)
        (heq ▸ List.mem_append_right _ List.mem_cons_self)
      exact .absurd fun place hwithin hplace ↦ h.ne hwithin hhalts hopening hplace.1.2
    · exact .failMissing

theorem stays_operand : Stays start base last given (operand scope) fun _ ↦ Anywhere := by
  refine .phrase (Stays.look.bind fun type? ↦ ?_)
  cases type? with
  | some type =>
    exact .absurd fun place hwithin hplace ↦ h.ne hwithin rfl rfl (kind_of_castAt? hplace.2)
  | none =>
    refine Stays.look.bind fun kind ↦ ?_
    cases hunary : unaryOperator? kind with
    | some operator =>
      refine (Stays.advance fun place hplace ↦ hplace.2 ▸ ne_of_halts h.halts ?_).bind fun _ ↦
        (hs base h _).bind fun _ ↦ .done
      refine Bool.eq_false_iff.mpr fun hhalts ↦ ?_
      rcases Kind.of_halts hhalts with hkind | hkind | hkind <;> rw [hkind] at hunary <;>
        cases hunary
    | none =>
      refine .ite (fun hparen ↦ ?_) fun _ ↦ .ite (fun hforeach ↦ ?_) fun _ ↦ stays_primary hs h
      · exact .absurd fun place hwithin hplace ↦ h.ne hwithin rfl rfl (hplace.2.trans hparen)
      · exact .absurd fun place hwithin hplace ↦ h.ne hwithin rfl rfl (hplace.2.trans hforeach)

omit hs in
theorem stays_target : Stays start base last given target fun _ ↦ Anywhere := by
  refine Stays.look.bind fun kind ↦ ?_
  split
  · exact .map (.map (.expect (ne_of_halts h.halts rfl)))
  · exact .map (.map (.expect (ne_of_halts h.halts rfl)))
  · exact .failMissing

omit hs in
theorem stays_consumeEither {first second : Kind} (hfirst : first.halts = false)
    (hsecond : second.halts = false) :
    Stays start base last given (consumeEither first second) fun _ ↦ Anywhere :=
  (Stays.consume (ne_of_halts h.halts hfirst)).bind fun _ ↦
    .ite (fun _ ↦ .done) fun _ ↦ .consume (ne_of_halts h.halts hsecond)

omit hs in
/-- Behind an operand no list can be accessed before the first bracket. -/
theorem not_halts_of_at? {place : Place} {continuation : Continuation}
    (hwithin : Place.Within start (base + 1) last place)
    (hat : Continuation.at? place = some continuation) (hset : continuation ≠ .setPredicate) :
    place.kind.halts = false := by
  refine (halts_of_at? hat hset).resolve_right fun hfollows ↦ ?_
  rw [h.not_follows hwithin] at hfollows
  cases hfollows

theorem stays_draft (left : Phrase .expression) (continuation : Continuation) :
    Stays start (base + 1) last (fun place ↦ Continuation.at? place = some continuation)
      (continuation.draft scope left) fun _ ↦ Anywhere := by
  have hlater := h.later
  have hexpression (least : Nat) := hs (base + 1) hlater least
  have hadvance (hset : continuation ≠ .setPredicate) :
      Stays start (base + 1) last (fun place ↦ Continuation.at? place = some continuation) advance
        fun _ ↦ Anywhere :=
    .inside (.advance fun _ hplace ↦
      ne_of_halts h.halts (not_halts_of_at? h hplace.1 hplace.2 hset))
  cases continuation with
  | path =>
    exact (hadvance nofun).bind fun _ ↦
      (Stays.map (.expect (ne_of_halts h.halts rfl))).bind fun _ ↦ .done
  | call =>
    exact (hadvance nofun).bind fun _ ↦
      (stays_optionalExpressionsUntil hs hlater rfl).bind fun _ ↦ .done
  | listAccess =>
    refine .absurd fun place hwithin hat ↦ ?_
    have hkind := not_halts_of_at? h hwithin hat nofun
    rw [kind_of_listAccess hat] at hkind
    cases hkind
  | annotationAccess =>
    exact (hadvance nofun).bind fun _ ↦ (stays_expressionsUntil hs hlater rfl).bind fun _ ↦ .done
  | binary operator =>
    exact (hadvance nofun).bind fun _ ↦ (hexpression _).bind fun _ ↦ .done
  | assignment =>
    exact (hadvance nofun).bind fun _ ↦ (Stays.consume (ne_of_halts h.halts rfl)).bind fun _ ↦
      (stays_target hlater).bind fun _ ↦ .done
  | setPredicate =>
    exact (stays_consumeEither hlater rfl rfl).bind fun _ ↦
      (stays_consumeEither hlater rfl rfl).bind fun _ ↦
        (Stays.expect (ne_of_halts h.halts rfl)).bind fun _ ↦ (hexpression _).bind fun _ ↦ .done
  | ternary =>
    exact (hadvance nofun).bind fun _ ↦ (hexpression _).bind fun _ ↦
      (Stays.expect (ne_of_halts h.halts rfl)).bind fun _ ↦ (hexpression _).bind fun _ ↦ .done

theorem stays_continuation (least : Nat) (left : Phrase .expression) :
    Stays start (base + 1) last Anywhere (continuation scope least left) fun _ ↦ Anywhere := by
  refine Stays.look.bind fun continuation? ↦ ?_
  cases continuation? with
  | none => exact .done
  | some continuation =>
    exact .ite (fun _ ↦ .done) fun _ ↦ .map (.phraseFrom
      ((stays_draft hs h left continuation).weaken (fun _ hplace ↦ hplace.2) fun _ _ h ↦ h))

theorem stays_expression (hprogressive : scope.Progressive) (least : Nat) :
    Stays start base last Anywhere (expression scope least) fun _ ↦ Anywhere := by
  have hoperand : Stays start base last Anywhere (operand scope)
      fun _ place ↦ base < place.position :=
    (stays_operand hs h).beyond_base
      (fun _ _ _ ↦ hprogressive.productions .operand) h.closed
  have hround (left : Phrase .expression) : Stays start base last
      (fun place ↦ base < place.position) (continuation scope least left)
      fun _ place ↦ base < place.position :=
    (stays_continuation hs h least left).later.weaken (fun _ hplace ↦ ⟨trivial, hplace⟩)
      fun _ _ hplace ↦ hplace
  exact hoperand.bind fun first ↦ (Stays.iterate hround first).weaken (fun _ hplace ↦ hplace)
    fun _ _ _ ↦ trivial

end Expressions

/-! ### Rules -/

theorem stays_run_marker (hstop : (start.peek last).kind.halts = true) (limit room least : Nat) :
    Stays start base last Anywhere ((Rule.marker least).run limit room) fun _ ↦ Anywhere := by
  induction room generalizing least with
  | zero => exact .exceed
  | succ room ih => exact .enter (stays_marker hstop ih least)

theorem stays_run_expression (h : Halting start base last) (limit room least : Nat) :
    Stays start base last Anywhere ((Rule.expression least).run limit room) fun _ ↦ Anywhere := by
  induction room generalizing base least with
  | zero => exact .exceed
  | succ room ih =>
    have hinside (base : Nat) (h : Halting start base last) (least : Nat) :
        Stays start base last Anywhere ((Rule.inside limit room).expression least)
          fun _ ↦ Anywhere :=
      ih h least
    exact .enter (stays_expression hinside h (Rule.progressive_inside limit room) least)

end Grammar

end CorpusQuery
