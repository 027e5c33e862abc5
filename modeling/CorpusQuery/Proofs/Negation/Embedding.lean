import CorpusQuery.Proofs.Standalone.Grammar

/-!
Excerpts before a negation. An excerpt ends with the end of the input where the list goes on with a
negation (`Place.Negated`). `Parser.Embeds` is the converse of `Parser.Carries`: whatever a parser
reads of the excerpt, it reads of the list as well. A negation could only be an operand, and where
the excerpt ends none is wanted, because nothing could stand in its place there.
-/

set_option autoImplicit false
set_option relaxedAutoImplicit false

namespace CorpusQuery

open CorpusQuery.Parser CorpusQuery.Grammar

/-- A negation is one of two kinds. -/
theorem Grammar.Continuation.isNegation_cases {kind : Kind} (h : isNegation kind = true) :
    kind = .keyword .not ∨ kind = .symbol .bang := by
  rwa [isNegation, Bool.or_eq_true, beq_iff_eq, beq_iff_eq] at h

/-- What both negations look like. -/
theorem Grammar.Continuation.view_of_isNegation {α : Type} {view : Kind → α} {seen : α}
    (hnot : view (.keyword .not) = seen) (hbang : view (.symbol .bang) = seen) {kind : Kind}
    (h : isNegation kind = true) : view kind = seen := by
  rcases isNegation_cases h with rfl | rfl
  · exact hnot
  · exact hbang

/-- An excerpt behind which the list goes on with a negation that begins no set predicate. -/
structure Place.Negated (short start : Place) (shift length : Nat) : Prop extends
    Place.Excerpt short start shift length where
  negation : Continuation.isNegation (start.peek (shift + length)).kind = true
  unpredicated : (start.peek (shift + length + 1)).kind ≠ .keyword .inKw

variable {short start copy place : Place} {shift length : Nat}

namespace Place.Negated

variable (h : short.Negated start shift length) (hplaces : Abreast short start shift copy place)

include h

omit hplaces in
/-- What no negation shares is not seen at the end of the excerpt. -/
theorem view_end {α : Type} (view : Kind → α) (seen : α) (hnot : view (.keyword .not) = seen)
    (hbang : view (.symbol .bang) = seen) : view (start.peek (shift + length)).kind = seen :=
  Continuation.view_of_isNegation hnot hbang h.negation

include hplaces

theorem position_le : copy.position ≤ length :=
  h.length_eq ▸ hplaces.begins.position_le

omit h in
/-- The negation, seen from a place in the excerpt. -/
theorem peek_end (count : Nat) (hend : copy.position + count = length) :
    place.peek count = start.peek (shift + length) := by
  rw [hplaces.begins_other.peek_eq, hplaces.position_eq,
    show copy.position + shift + count = shift + length by omega]

omit h in
theorem kind_end (hend : copy.position = length) :
    place.kind = (start.peek (shift + length)).kind := by
  have hpeek := peek_end hplaces 0 hend
  rw [peek, along_zero] at hpeek
  exact congrArg Token.kind hpeek

theorem atDecimal_eq : atDecimal copy = atDecimal place := by
  rcases Nat.lt_or_ge (copy.position + 2) length with hlt | hge
  · exact h.atDecimal_of_lt hplaces hlt
  rw [h.atDecimal_of_le hplaces hge]
  have hle := h.position_le hplaces
  -- The negation stands where the second digits, the point or the first ones would.
  rcases Nat.lt_trichotomy (copy.position + 1) length with hlt | hlast | hgt
  · have hdigits := h.view_end digitKinds.contains false rfl rfl
    rw [← peek_end hplaces 2 (by omega)] at hdigits
    rw [atDecimal, show digitKinds.contains (place.peekKind 2) = false from hdigits]
    simp
  · have hpoint := h.view_end (· == Kind.symbol .dot) false rfl rfl
    rw [← peek_end hplaces 1 hlast] at hpoint
    rw [atDecimal, show (place.peekKind 1 == .symbol .dot) = false from hpoint]
    simp
  · have hdigits := h.view_end digitKinds.contains false rfl rfl
    rw [← kind_end hplaces (by omega)] at hdigits
    rw [atDecimal, hdigits]
    rfl

theorem castAt?_eq : castAt? copy = castAt? place := by
  rcases Nat.lt_or_ge (copy.position + 2) length with hlt | hge
  · exact h.castAt?_of_lt hplaces hlt
  rw [h.castAt?_of_le hplaces hge, castAt?]
  have hle := h.position_le hplaces
  rcases Nat.lt_trichotomy (copy.position + 1) length with hlt | hlast | hgt
  · have hclose := h.view_end (· == Kind.symbol .rightParen) false rfl rfl
    rw [← peek_end hplaces 2 (by omega), beq_eq_false_iff_ne] at hclose
    exact (if_neg fun hboth ↦ hclose hboth.2).symm
  · have htype := h.view_end (valueTypes.lookup ·) none rfl rfl
    rw [← peek_end hplaces 1 hlast] at htype
    rw [show valueTypes.lookup (place.peekKind 1) = none from htype, ite_self]
  · have hopen := h.view_end (· == Kind.symbol .leftParen) false rfl rfl
    rw [← kind_end hplaces (by omega), beq_eq_false_iff_ne] at hopen
    exact (if_neg fun hboth ↦ hopen hboth.1).symm

/-- Nothing goes on behind the excerpt in the list either. -/
theorem at?_end (hend : copy.position = length) : Continuation.at? place = none := by
  have hkind := kind_end hplaces hend
  have hzero : place.peekKind 0 = place.kind := congrArg Token.kind (along_zero _ _)
  have hone : place.peekKind 1 = (start.peek (shift + length + 1)).kind := by
    rw [peekKind, hplaces.begins_other.peek_eq, hplaces.position_eq,
      show copy.position + shift + 1 = shift + length + 1 by omega]
  have huniversal := h.view_end Continuation.isUniversal false rfl rfl
  have hpredicate : Continuation.atSetPredicate place = false := by
    unfold Continuation.atSetPredicate
    rw [hkind, huniversal]
    simp only [Bool.false_eq_true, if_false, hzero, hkind, h.negation, if_true, Nat.zero_add, hone]
    exact beq_false_of_ne h.unpredicated
  rw [Continuation.at?, hpredicate, hkind]
  rcases Continuation.isNegation_cases h.negation with hcase | hcase <;> rw [hcase] <;> rfl

theorem at?_eq (hpos : 0 < copy.position) : Continuation.at? copy = Continuation.at? place := by
  rcases Nat.lt_or_ge copy.position length with hlt | hge
  · exact h.at?_of_lt hplaces hlt hpos
  · rw [h.at?_of_le hplaces hge, h.at?_end hplaces (Nat.le_antisymm (h.position_le hplaces) hge)]

/-- A kind that is no negation is there in both or in neither. -/
theorem kind_iff {kind : Kind} (hend : kind ≠ .endOfInput)
    (hkind : Continuation.isNegation kind = false) : copy.kind = kind ↔ place.kind = kind := by
  rcases Nat.lt_or_ge copy.position length with hlt | hge
  · rw [h.kind_of_lt hplaces hlt]
  · have hcopy : copy.kind = .endOfInput :=
      (congrArg Token.kind (along_zero _ _)).symm.trans (h.peekKind_of_le hplaces 0 hge)
    have hle := h.position_le hplaces
    refine iff_of_false (fun heq ↦ hend (heq.symm.trans hcopy)) fun heq ↦ ?_
    rw [kind_end hplaces (Nat.le_antisymm hle hge)] at heq
    exact Bool.false_ne_true (hkind.symm.trans (heq ▸ h.negation))

/-- Before the end of the excerpt the next token of another kind is there in both or in neither. -/
theorem next_iff {kind : Kind} (hlt : copy.position < length) (hend : kind ≠ .endOfInput)
    (hkind : Continuation.isNegation kind = false) :
    copy.peekKind 1 = kind ↔ place.peekKind 1 = kind := by
  rcases Nat.lt_or_ge (copy.position + 1) length with hnext | hge
  · rw [h.peekKind_of_lt hplaces 1 hnext]
  · refine iff_of_false (fun heq ↦ hend ?_) fun heq ↦ ?_
    · rw [← heq, h.peekKind_of_le hplaces 1 hge]
    · have hlast : copy.position + 1 = length := by omega
      rw [peekKind, peek_end hplaces 1 hlast] at heq
      exact Bool.false_ne_true (hkind.symm.trans (heq ▸ h.negation))

end Place.Negated

/-! ### The contract -/

namespace Parser

variable {α β : Type}

/-- From a place of the excerpt as given on, what the one parser reads of the excerpt, the other one
reads of the list. -/
def Embeds (short start : Place) (shift : Nat) (given : Place → Prop)
    (parser parser' : Parser α) : Prop :=
  ∀ copy session value after,
    Place.Abreast short start shift copy.cursor.toPlace session.cursor.toPlace →
      given copy.cursor.toPlace → parser copy = .ok value after →
        ∃ after', parser' session = .ok value after' ∧
          Place.Abreast short start shift after.cursor.toPlace after'.cursor.toPlace ∧
            copy.cursor.position ≤ after.cursor.position

/-- A parser that moves forward does not begin at the end of the excerpt. -/
theorem Forward.position_lt {parser : Parser α} (hforward : Forward parser)
    (honward : Onward parser) {start : Place} (hclosed : start.Closed) {session after : Session}
    {value : α} (hbegins : start.Begins session.cursor.toPlace)
    (hrun : parser session = .ok value after) : session.cursor.position < start.ahead.length := by
  have hsession := hbegins.closed hclosed
  have hlt := hforward session value after hsession hrun
  have htotal := (honward session value after hsession hrun).1.total_eq
  have hlength := hbegins.length_eq
  simp only [Place.total, Place.position] at htotal hlt hlength ⊢
  omega

namespace Embeds

variable {given : Place → Prop} {parser parser' : Parser α} {next next' : α → Parser β}

theorem pure (value : α) :
    Embeds short start shift given (Pure.pure value : Parser α) (Pure.pure value) := by
  intro copy session _ _ hplaces _ hrun
  cases hrun
  exact ⟨session, rfl, hplaces, Nat.le_refl _⟩

/-- A parser that never returns. -/
theorem of_error (h : ∀ session value after, parser session ≠ .ok value after) :
    Embeds short start shift given parser parser' :=
  fun copy _ value after _ _ hrun ↦ absurd hrun (h copy value after)

theorem when {given' : Place → Prop} (h : Embeds short start shift given parser parser')
    (hgiven : ∀ place, given' place → given place) :
    Embeds short start shift given' parser parser' :=
  fun copy session value after hplaces hplace ↦
    h copy session value after hplaces (hgiven _ hplace)

theorem anywhere (h : Embeds short start shift Anywhere parser parser') :
    Embeds short start shift given parser parser' :=
  h.when fun _ _ ↦ trivial

/-- The second parser may rely on where the first one ends. -/
theorem bind_to {between : α → Place → Prop} (h : Embeds short start shift given parser parser')
    (hbetween : ∀ (copy after : Session) value, short.Begins copy.cursor.toPlace →
      given copy.cursor.toPlace → parser copy = .ok value after →
        copy.cursor.position ≤ after.cursor.position → between value after.cursor.toPlace)
    (hnext : ∀ value, Embeds short start shift (between value) (next value) (next' value)) :
    Embeds short start shift given (parser >>= next) (parser' >>= next') := by
  intro copy session value after hplaces hplace hrun
  obtain ⟨first, middle, hfirst, hrest⟩ := bind_eq_ok hrun
  obtain ⟨middle', hfirst', hplaces', hle⟩ := h copy session first middle hplaces hplace hfirst
  obtain ⟨after', hrest', hplaces'', hle'⟩ := hnext first middle middle' value after hplaces'
    (hbetween copy middle first hplaces.begins hplace hfirst hle) hrest
  exact ⟨after', (bind_of_ok hfirst' _).trans hrest', hplaces'', hle.trans hle'⟩

theorem bind (h : Embeds short start shift given parser parser')
    (hnext : ∀ value, Embeds short start shift Anywhere (next value) (next' value)) :
    Embeds short start shift given (parser >>= next) (parser' >>= next') :=
  have hbetween : ∀ (copy after : Session) (value : α), short.Begins copy.cursor.toPlace →
      given copy.cursor.toPlace → parser copy = .ok value after →
        copy.cursor.position ≤ after.cursor.position → Anywhere after.cursor.toPlace :=
    fun _ _ _ _ _ _ _ ↦ trivial
  h.bind_to hbetween hnext

theorem map {f : α → β} (h : Embeds short start shift given parser parser') :
    Embeds short start shift given (f <$> parser) (f <$> parser') := by
  rw [map_eq_pure_bind, map_eq_pure_bind]
  exact h.bind fun _ ↦ .pure _

theorem ite {condition : Prop} [Decidable condition] {yes yes' no no' : Parser α}
    (hyes : condition → Embeds short start shift given yes yes')
    (hno : ¬ condition → Embeds short start shift given no no') :
    Embeds short start shift given (if condition then yes else no)
      (if condition then yes' else no') := by
  split
  · exact hyes ‹_›
  · exact hno ‹_›

theorem look {view : Place → α}
    (hview : ∀ copy place, Place.Abreast short start shift copy place → given copy →
      view copy = view place)
    (hnext : ∀ value, Embeds short start shift (fun place ↦ given place ∧ view place = value)
      (next value) (next' value)) :
    Embeds short start shift given (Parser.look view >>= next) (Parser.look view >>= next') := by
  intro copy session value after hplaces hplace hrun
  rw [bind_look] at hrun ⊢
  rw [← hview _ _ hplaces hplace]
  exact hnext _ copy session value after hplaces ⟨hplace, rfl⟩ hrun

/-! ### Tokens -/

variable (h : short.Negated start shift length) {kind : Kind} {kinds : KindSet}

include h

theorem expect (hend : kind ≠ .endOfInput) :
    Embeds short start shift given (Parser.expect kind) (Parser.expect kind) := by
  intro copy session value after hplaces _ hrun
  by_cases hkind : copy.cursor.kind = kind
  · rw [expect_of_kind hkind] at hrun
    cases hrun
    have hlt : copy.cursor.position < length := by
      refine Nat.lt_of_not_le fun hle ↦ hend ?_
      rw [← hkind, ← h.peekKind_of_le hplaces 0 hle]
      exact (congrArg Token.kind (Place.along_zero _ _)).symm
    have hhere := h.here_of_lt hplaces hlt
    have htested : Place.Abreast short start shift (copy.tested (.single kind)).cursor.toPlace
        (session.tested (.single kind)).cursor.toPlace := hplaces
    obtain ⟨hpassed, hposition⟩ := h.passed htested hlt
    refine ⟨_, ?_, hpassed, hposition ▸ Nat.le_succ _⟩
    rw [hhere]
    exact expect_of_kind ((congrArg Token.kind hhere).symm.trans hkind)
  · rw [expect_of_ne hkind] at hrun
    cases hrun

/-- A token that is there in both or in neither. -/
theorem consume_of_iff (hend : kind ≠ .endOfInput)
    (hiff : ∀ copy place, Place.Abreast short start shift copy place → given copy →
      (copy.kind = kind ↔ place.kind = kind)) :
    Embeds short start shift given (Parser.consume kind) (Parser.consume kind) := by
  intro copy session value after hplaces hplace hrun
  have hsame := hiff _ _ hplaces hplace
  by_cases hkind : copy.cursor.kind = kind
  · have hexpect : Embeds short start shift given (Parser.expect kind) (Parser.expect kind) :=
      expect h hend
    obtain ⟨after', hrun', hafter⟩ :=
      hexpect copy session _ _ hplaces hplace (expect_of_kind hkind)
    have hkind' := hsame.mp hkind
    rw [expect_of_kind hkind'] at hrun'
    rw [consume_of_kind hkind] at hrun
    cases hrun
    obtain ⟨-, rfl⟩ := EStateM.Result.ok.inj hrun'
    exact ⟨_, consume_of_kind hkind', hafter⟩
  · rw [consume_of_ne hkind] at hrun
    cases hrun
    exact ⟨_, consume_of_ne (mt hsame.mpr hkind), hplaces, Nat.le_refl _⟩

theorem consume (hend : kind ≠ .endOfInput) (hnegation : Continuation.isNegation kind = false) :
    Embeds short start shift given (Parser.consume kind) (Parser.consume kind) :=
  consume_of_iff h hend fun _ _ hplaces _ ↦ h.kind_iff hplaces hend hnegation

/-- Passing a token whose text does not matter. -/
theorem pass {rest rest' : Parser β} (hrest : Embeds short start shift Anywhere rest rest') :
    Embeds short start shift (fun place ↦ place.position < length)
      (Parser.advance >>= fun _ ↦ rest) (Parser.advance >>= fun _ ↦ rest') := by
  intro copy session value after hplaces hlt hrun
  have hadvance (session : Session) :
      Parser.advance session = .ok session.cursor.here session.passed := rfl
  rw [bind_of_ok (hadvance _)] at hrun ⊢
  obtain ⟨hpassed, hposition⟩ := h.passed hplaces hlt
  obtain ⟨after', hrun', hplaces', hle⟩ := hrest _ _ value after hpassed trivial hrun
  refine ⟨after', hrun', hplaces', ?_⟩
  omega

omit h in
theorem of_forward (h : short.Negated start shift length) (hforward : Forward parser)
    (honward : Onward parser)
    (hparser : Embeds short start shift (fun place ↦ place.position < length) parser parser') :
    Embeds short start shift given parser parser' := by
  intro copy session value after hplaces _ hrun
  refine hparser copy session value after hplaces ?_ hrun
  have hlt := hforward.position_lt honward h.closed_short hplaces.begins hrun
  rwa [h.length_eq] at hlt

/-! ### Phrases -/

/-- A phrase that does not end at the beginning of the excerpt ends alike. -/
theorem phraseFrom {category : Category} {begin : Nat} {body body' : Parser (Draft category)}
    (hpast : ∀ (copy after : Session) draft, short.Begins copy.cursor.toPlace →
      given copy.cursor.toPlace → body copy = .ok draft after →
        copy.cursor.position ≤ after.cursor.position → after.cursor.Past 1)
    (hbody : Embeds short start shift given body body') :
    Embeds short start shift given (phraseFrom begin body) (phraseFrom begin body') := by
  refine hbody.bind_to hpast fun draft ↦ ?_
  exact look (fun _ _ hplaces hpos ↦ h.previousStop_eq hplaces hpos) fun stop ↦ .pure _

theorem phrase {category : Category} {body body' : Parser (Draft category)}
    (hforward : Forward (Parser.phrase body)) (honward : Onward (Parser.phrase body))
    (hbody : Embeds short start shift (fun place ↦ place.position < length) body body') :
    Embeds short start shift given (Parser.phrase body) (Parser.phrase body') := by
  refine of_forward h hforward honward (look (fun _ _ hplaces hlt ↦ ?_) fun begin ↦ ?_)
  · rw [h.here_of_lt hplaces hlt]
  · refine phraseFrom h (fun copy after draft hbegins _ hrun _ ↦ ?_) (hbody.when fun _ h ↦ h.1)
    have hlt := hforward.of_phrase copy draft after (hbegins.closed h.closed_short) hrun
    exact Nat.succ_le_of_lt (Nat.zero_lt_of_lt hlt)

/-! ### Repetition -/

omit h in
theorem iterate {base : Nat} {step step' : α → Parser (Option α)}
    (hstep : ∀ value, Embeds short start shift (Place.Past base) (step value) (step' value))
    (value : α) :
    Embeds short start shift (Place.Past base) (iterate step value) (iterate step' value) := by
  intro copy
  induction value, copy using iterate_induction step with
  | h value copy ih =>
  intro session final after hplaces hbase hrun
  cases hround : step value copy with
  | error failure between =>
    rw [iterate_of_error hround] at hrun
    cases hrun
  | ok next? between =>
    obtain ⟨between', hround', hplaces', hle⟩ :=
      hstep value copy session next? between hplaces hbase hround
    cases next? with
    | none =>
      rw [iterate_of_none hround] at hrun
      cases hrun
      exact ⟨between', iterate_of_none hround', hplaces', hle⟩
    | some next =>
      -- The rounds of both loops come to corresponding places, so both loops go on or stop.
      have hcloser : between'.remaining < session.remaining ↔
          between.remaining < copy.remaining := by
        have hlength := hplaces.begins.length_eq
        have hlength' := hplaces.begins_other.length_eq
        have hcopied := hplaces'.begins.length_eq
        have hcopied' := hplaces'.begins_other.length_eq
        have hposition := hplaces.position_eq
        have hposition' := hplaces'.position_eq
        simp only [Session.remaining]
        omega
      by_cases hless : between.remaining < copy.remaining
      · rw [iterate_of_closer hround hless] at hrun
        obtain ⟨after', hrest, hplaces'', hle'⟩ := ih next between hround hless between' final after
          hplaces' (Nat.le_trans hbase hle) hrun
        rw [iterate_of_closer hround' (hcloser.mpr hless)]
        exact ⟨after', hrest, hplaces'', hle.trans hle'⟩
      · rw [iterate_of_not_closer hround hless] at hrun
        cases hrun
        exact ⟨between', iterate_of_not_closer hround' (mt hcloser.mp hless), hplaces', hle⟩

theorem behind (hend : kind ≠ .endOfInput) (hnegation : Continuation.isNegation kind = false)
    (hparser : Embeds short start shift Anywhere parser parser') :
    Embeds short start shift given (behind kind parser) (behind kind parser') :=
  (consume h hend hnegation).bind fun _ ↦ .ite (fun _ ↦ hparser.map) fun _ ↦ .pure _

theorem separatedBy {separator : Kind} (hend : separator ≠ .endOfInput)
    (hnegation : Continuation.isNegation separator = false)
    (hparser : Embeds short start shift Anywhere parser parser') :
    Embeds short start shift given (separatedBy separator parser)
      (separatedBy separator parser') := by
  have hstep (items : List α) : Embeds short start shift (Place.Past 0)
      (do return (← Parser.behind separator parser).map (· :: items))
      (do return (← Parser.behind separator parser').map (· :: items)) :=
    (behind h hend hnegation hparser).bind fun _ ↦ .pure _
  exact hparser.anywhere.bind fun _ ↦ .bind
    (.bind ((iterate hstep []).when fun _ _ ↦ Nat.zero_le _) fun _ ↦ .pure _) fun _ ↦ .pure _

omit h in
/-- Entering a rule and leaving it moves nothing. -/
theorem enter {title : String} {depth depth' : Nat}
    (hbody : Embeds short start shift given parser parser') :
    Embeds short start shift given (enter title depth parser) (enter title depth' parser') := by
  intro copy session value after hplaces hplace hrun
  obtain ⟨between, hfirst, rfl⟩ := enter_eq_ok hrun
  obtain ⟨after', hrun', hplaces', hle⟩ := hbody (entered title depth copy)
    (entered title depth' session) value between hplaces hplace hfirst
  exact ⟨left title depth' none after', enter_of_ok hrun', hplaces', hle⟩

end Embeds

end Parser

end CorpusQuery
