import CorpusQuery.Proofs.Choice.Overtake
import CorpusQuery.Proofs.Choice.Returns
import CorpusQuery.Proofs.Coupling.Aloof
import CorpusQuery.Proofs.Extent.Basic

/-!
The verge of a token list: an index behind which a parse has escaped. Whoever passes the token at
that index stays away, whether it then succeeds or fails, and so does whoever meets the nesting
limit (`Parser.Aloof`). A parser that does one or the other from the verge on crosses it
(`Verge.Crosses`). Which parsers do depends on the token at the verge, and crossing composes: it is
enough that the first part of a sequence crosses.

Token lists are known here by their offsets alone. Every token up to the verge starts before a
bound, and every token behind it starts at the bound or later.
-/

set_option autoImplicit false
set_option relaxedAutoImplicit false

namespace CorpusQuery

open CorpusQuery.Parser CorpusQuery.Grammar

/-! ### The verge -/

/-- An index of a token list, with a bound that tells the offsets behind it from those up to it. -/
structure Verge where
  /-- The place where the list begins. -/
  start : Place
  index : Nat
  bound : Nat
  closed : start.Closed
  index_le : index ≤ start.ahead.length
  start_lt : ∀ i ≤ index, (start.peek i).span.start < bound
  le_start : ∀ i ≤ start.ahead.length, index < i → bound ≤ (start.peek i).span.start

namespace Verge

variable (verge : Verge)

/-- The kind of the token at the verge. -/
def kind : Kind := (verge.start.peek verge.index).kind

/-- A parse escapes once it has met the nesting limit or passed the verge. No other parse is
compared with it. -/
def coupling : Coupling where
  blur := id
  sessions _ _ := False
  failures _ _ := False
  spent overflow := overflow ≠ none
  past place := ∀ token ∈ place.here :: place.ahead, verge.bound ≤ token.span.start
  beyond failure := verge.bound ≤ failure.token.span.start

theorem lawful : verge.coupling.Lawful where
  blur_max hfirst hsecond := congrArg₂ max hfirst hsecond
  sees := False.elim
  closed := False.elim
  tested _ := False.elim
  traced _ _ := False.elim
  passed := False.elim
  rewound _ _ _ := False.elim
  answered := False.elim
  fail _ := False.elim
  exhausted := False.elim
  past_passed _ hpast := Session.forall_passed hpast
  beyond_fail _ _ hpast := hpast _ List.mem_cons_self
  beyond_exhausted hbeyond := Failure.le_start_exhausted hbeyond

variable {verge} {α β γ : Type}

/-- A place with a greater index is behind the verge. -/
theorem past_of_lt {place : Place} (hbegins : verge.start.Begins place)
    (hlt : verge.index < place.position) : verge.coupling.past place := by
  intro token htoken
  obtain ⟨found, hle, hlength, rfl⟩ := hbegins.exists_index htoken
  exact verge.le_start found hlength (Nat.lt_of_lt_of_le hlt hle)

/-- Passing a token at the verge or behind it leads behind the verge. -/
theorem past_passed {session : Session} (hbegins : verge.start.Begins session.cursor.toPlace)
    (hle : verge.index ≤ session.cursor.position) (hkind : session.cursor.kind ≠ .endOfInput) :
    verge.coupling.past session.passed.cursor.toPlace :=
  past_of_lt hbegins.advance (Nat.lt_of_le_of_lt hle
    (Cursor.position_lt_advance (hbegins.closed verge.closed) hkind))

/-- A test does not move. -/
theorem past_tested {session : Session} (kinds : KindSet)
    (hbegins : verge.start.Begins session.cursor.toPlace)
    (hle : verge.index ≤ session.cursor.position) (hkind : session.cursor.kind ≠ .endOfInput) :
    verge.coupling.past (session.tested kinds).passed.cursor.toPlace :=
  past_passed (show verge.start.Begins (session.tested kinds).cursor.toPlace from hbegins) hle hkind

/-- A reading that is overtaken by the one kept in its place never came further than that one. -/
theorem past_of_overtakes {first : Parser α} {second : Parser β}
    (hovertakes : Overtakes first second)
    {session copy after last : Session} {failure : Failure} {value : β}
    (hbegins : verge.start.Begins session.cursor.toPlace)
    (hplace : copy.cursor.toPlace = session.cursor.toPlace)
    (hrun : first session = .error failure after) (hbeyond : verge.coupling.beyond failure)
    (hagain : second copy = .ok value last) : verge.coupling.past last.cursor.toPlace := by
  obtain ⟨hlast, found, hlt, htoken⟩ := hovertakes verge.start session copy failure after value
    last verge.closed hbegins hplace hrun hagain
  refine past_of_lt hlast (Nat.lt_of_not_le fun hle ↦ ?_)
  have hstart := verge.start_lt found (by omega)
  change verge.bound ≤ failure.token.span.start at hbeyond
  rw [htoken] at hbeyond
  omega

/-- The token at the verge is at hand. -/
abbrev At (verge : Verge) : Place → Prop := verge.start.At verge.index

namespace At

variable {place : Place}

theorem kind_eq (h : verge.At place) : place.kind = verge.kind := Place.At.kind_eq h

theorem past_passed {session : Session} (h : verge.At session.cursor.toPlace)
    (hkind : verge.kind ≠ .endOfInput) :
    verge.coupling.past session.passed.cursor.toPlace :=
  Verge.past_passed h.1 (Nat.le_of_eq h.2.symm)
    (show session.cursor.toPlace.kind ≠ _ from h.kind_eq ▸ hkind)

theorem past_tested {session : Session} (h : verge.At session.cursor.toPlace)
    (hkind : verge.kind ≠ .endOfInput) (kinds : KindSet) :
    verge.coupling.past (session.tested kinds).passed.cursor.toPlace :=
  past_passed (show verge.At (session.tested kinds).cursor.toPlace from h) hkind

end At

/-- The token before the verge leads to it. -/
theorem at_passed {session : Session} (hbegins : verge.start.Begins session.cursor.toPlace)
    (hindex : session.cursor.position + 1 = verge.index)
    (hkind : session.cursor.kind ≠ .endOfInput) : verge.At session.passed.cursor.toPlace := by
  have hpassed : verge.start.At (session.cursor.position + 1) session.passed.cursor.toPlace :=
    Place.At.advance ⟨hbegins, rfl⟩ (hbegins.closed verge.closed) hkind
  rwa [hindex] at hpassed

/-- So many tokens from the place on lead behind the verge, and none of them is the end. -/
structure Nears (verge : Verge) (count : Nat) (place : Place) : Prop where
  begins : verge.start.Begins place
  index_lt : verge.index < place.position + count
  kind_ne : ∀ i < count, place.peekKind i ≠ .endOfInput

namespace Nears

variable {count : Nat} {session : Session}

theorem past (h : verge.Nears 0 session.cursor.toPlace) :
    verge.coupling.past session.cursor.toPlace :=
  past_of_lt h.begins h.index_lt

theorem passed (h : verge.Nears (count + 1) session.cursor.toPlace) :
    verge.Nears count session.passed.cursor.toPlace := by
  have hkind : session.cursor.kind ≠ .endOfInput := by
    have hhere := h.kind_ne 0 (Nat.succ_pos _)
    rwa [Place.peekKind, Place.peek, Place.along_zero] at hhere
  have hlt : session.cursor.position < session.passed.cursor.position :=
    Cursor.position_lt_advance (h.begins.closed verge.closed) hkind
  refine ⟨h.begins.advance, ?_, fun i hi ↦ ?_⟩
  · have hindex := h.index_lt
    omega
  · rw [Session.peekKind_passed]
    exact h.kind_ne (i + 1) (Nat.succ_lt_succ hi)

variable {α : Type}

theorem of_two {place : Place} (hbegins : verge.start.Begins place)
    (hlt : verge.index < place.position + 2) (hhere : place.kind ≠ .endOfInput)
    (hnext : place.peekKind 1 ≠ .endOfInput) : verge.Nears 2 place := by
  refine ⟨hbegins, hlt, fun i hi ↦ ?_⟩
  match i with
  | 0 => rwa [Place.peekKind, Place.peek, Place.along_zero]
  | 1 => exact hnext

theorem of_three {place : Place} (hbegins : verge.start.Begins place)
    (hlt : verge.index < place.position + 3) (hhere : place.kind ≠ .endOfInput)
    (hnext : place.peekKind 1 ≠ .endOfInput) (hsecond : place.peekKind 2 ≠ .endOfInput) :
    verge.Nears 3 place := by
  refine ⟨hbegins, hlt, fun i hi ↦ ?_⟩
  match i with
  | 0 => rwa [Place.peekKind, Place.peek, Place.along_zero]
  | 1 => exact hnext
  | 2 => exact hsecond

theorem escapes_advance {next : Token → Parser α}
    (h : verge.Nears (count + 1) session.cursor.toPlace)
    (hnext : ∀ token after, verge.Nears count after.cursor.toPlace →
      verge.coupling.Escapes (next token after)) :
    verge.coupling.Escapes ((advance >>= next) session) :=
  hnext session.cursor.here session.passed h.passed

end Nears

/-! ### Choice -/

section Either

variable {title : String} {depth : Nat} {first : Parser α} {next : α → Parser γ}
  {second : Parser β} {rest : β → Parser γ} {session after : Session} {failure : Failure}

/-- What escapes in the second reading of a choice has escaped. -/
theorem escapes_either_of_second (hrun : first session = .error failure after)
    (h : verge.coupling.Escapes (second (rewound title depth session after)))
    (hrest : ∀ value, Aloof verge.coupling (rest value)) :
    verge.coupling.Escapes (either title depth first next second rest session) := by
  cases hagain : second (rewound title depth session after) with
  | ok value last =>
    rw [hagain] at h
    rw [either_of_error_ok hrun hagain]
    exact (hrest value).escapes h
  | error other last =>
    rw [hagain] at h
    rw [either_of_error_error hrun hagain]
    exact h.imp_right fun hbeyond ↦ verge.lawful.beyond_exhausted (.inr hbeyond)

/-- What escapes in the first reading of a choice has escaped, since the second one, if it is kept
in its place, comes as far. -/
theorem escapes_either_of_first (hovertakes : Overtakes first second)
    (hnext : ∀ value, Aloof verge.coupling (next value)) (hsecond : Aloof verge.coupling second)
    (hrest : ∀ value, Aloof verge.coupling (rest value))
    (hbegins : verge.start.Begins session.cursor.toPlace)
    (h : verge.coupling.Escapes (first session)) :
    verge.coupling.Escapes (either title depth first next second rest session) := by
  cases hrun : first session with
  | ok value after =>
    rw [hrun] at h
    rw [either_of_ok hrun]
    exact (hnext value).escapes h
  | error failure after =>
    rw [hrun] at h
    rcases h with hspent | hbeyond
    · exact escapes_either_of_second hrun (.inl (hsecond.sticky _ hspent)) hrest
    · have hplace : (rewound title depth session after).cursor.toPlace = session.cursor.toPlace :=
        rfl
      cases hagain : second (rewound title depth session after) with
      | ok value last =>
        rw [either_of_error_ok hrun hagain]
        exact (hrest value).escapes
          (.inr (past_of_overtakes hovertakes hbegins hplace hrun hbeyond hagain))
      | error other last =>
        rw [either_of_error_error hrun hagain]
        exact .inr (verge.lawful.beyond_exhausted (.inl hbeyond))

end Either

/-! ### Crossing -/

/-- From the verge on the parser escapes. -/
def Crosses (verge : Verge) (parser : Parser α) : Prop :=
  ∀ session, verge.At session.cursor.toPlace → verge.coupling.Escapes (parser session)

namespace Crosses

variable {parser : Parser α} {next : α → Parser β} {kind : Kind} {kinds : KindSet}

theorem bind (h : verge.Crosses parser) (hnext : ∀ value, Aloof verge.coupling (next value)) :
    verge.Crosses (parser >>= next) :=
  fun session hat ↦ (h session hat).bind hnext

theorem map {f : α → β} (h : verge.Crosses parser) : verge.Crosses (f <$> parser) :=
  fun session hat ↦ (h session hat).map

theorem phraseFrom {category : Category} {start : Nat} {body : Parser (Draft category)}
    (h : verge.Crosses body) : verge.Crosses (phraseFrom start body) :=
  fun session hat ↦ (h session hat).phraseFrom

theorem phrase {category : Category} {body : Parser (Draft category)} (h : verge.Crosses body) :
    verge.Crosses (phrase body) :=
  fun session hat ↦ (h session hat).phraseFrom

theorem enter {title : String} {depth : Nat} (h : verge.Crosses parser) :
    verge.Crosses (enter title depth parser) :=
  fun session hat ↦ (h (entered title depth session) hat).enter

theorem look {view : Place → α}
    (h : ∀ place, verge.At place → verge.Crosses (next (view place))) :
    verge.Crosses (look view >>= next) :=
  fun session hat ↦ h session.cursor.toPlace hat session hat

theorem look_kind {next : Kind → Parser β} (h : verge.Crosses (next verge.kind)) :
    verge.Crosses (Parser.look Place.kind >>= next) :=
  .look fun _ hat ↦ hat.kind_eq ▸ h

theorem checkAny {next : Bool → Parser β} (h : verge.Crosses (next (kinds.contains verge.kind))) :
    verge.Crosses (checkAny kinds >>= next) := by
  intro session hat
  have hchecked : Parser.checkAny kinds session =
      .ok (kinds.contains verge.kind) (session.tested kinds) := by
    rw [← hat.kind_eq]
    rfl
  rw [bind_of_ok hchecked]
  exact h _ hat

theorem check {next : Bool → Parser β} (h : verge.Crosses (next (verge.kind == kind))) :
    verge.Crosses (check kind >>= next) := by
  intro session hat
  have hchecked : Parser.check kind session =
      .ok (verge.kind == kind) (session.tested (.single kind)) := by
    rw [← hat.kind_eq]
    rfl
  rw [bind_of_ok hchecked]
  exact h _ hat

theorem advance (hkind : verge.kind ≠ .endOfInput) : verge.Crosses advance :=
  fun _ hat ↦ .inr (hat.past_passed hkind)

theorem expect (hkind : verge.kind = kind) (hend : kind ≠ .endOfInput) :
    verge.Crosses (expect kind) := by
  intro session hat
  rw [expect_of_kind (hat.kind_eq.trans hkind)]
  exact .inr (hat.past_tested (hkind ▸ hend) _)

theorem consume (hkind : verge.kind = kind) (hend : kind ≠ .endOfInput) :
    verge.Crosses (consume kind) := by
  intro session hat
  rw [consume_of_kind (hat.kind_eq.trans hkind)]
  exact .inr (hat.past_tested (hkind ▸ hend) _)

/-- What stays at the verge with a known value leaves it to the rest to cross. -/
theorem behind_here {value : α}
    (h : ∀ place, verge.At place →
      Returns place parser fun found after ↦ found = value ∧ after = place)
    (hnext : verge.Crosses (next value)) : verge.Crosses (parser >>= next) := by
  intro session hat
  obtain ⟨found, after, hrun, rfl, hafter⟩ := h _ hat session rfl
  rw [bind_of_ok hrun]
  exact hnext after (hafter.symm ▸ hat)

/-- What stays at the verge leaves it to the rest to cross. -/
theorem behind_any (h : ∀ place, verge.At place → Returns place parser fun _ after ↦ after = place)
    (hnext : ∀ value, verge.Crosses (next value)) : verge.Crosses (parser >>= next) := by
  intro session hat
  obtain ⟨value, after, hrun, hafter⟩ := h _ hat session rfl
  rw [bind_of_ok hrun]
  exact hnext value after (hafter.symm ▸ hat)

theorem consumeAny (hkind : kinds.contains verge.kind = true)
    (hend : kinds.contains .endOfInput = false) : verge.Crosses (consumeAny kinds) := by
  intro session hat
  rw [consumeAny_of_contains (hat.kind_eq ▸ hkind)]
  refine .inr (At.past_tested hat ?_ _)
  intro heq
  rw [heq, hend] at hkind
  cases hkind

theorem oneOf {table : List (Kind × α)} (hkind : (KindSet.ofKeys table).contains verge.kind = true)
    (hend : (KindSet.ofKeys table).contains .endOfInput = false) :
    verge.Crosses (oneOf table) :=
  (consumeAny hkind hend).bind fun token? ↦ by cases token? <;> exact .pure _

theorem iterate {step : α → Parser (Option α)} {value : α} (h : verge.Crosses (step value))
    (hstep : ∀ value, Aloof verge.coupling (step value)) : verge.Crosses (iterate step value) :=
  fun session hat ↦ (h session hat).iterate hstep

theorem many {item : Parser (Option α)} (h : verge.Crosses item)
    (hitem : Aloof verge.coupling item) : verge.Crosses (many item) :=
  (iterate (h.bind fun _ ↦ .pure _) fun _ ↦ hitem.bind fun _ ↦ .pure _).bind fun _ ↦ .pure _

theorem separatedBy {separator : Kind} (h : verge.Crosses parser)
    (hparser : Aloof verge.coupling parser) : verge.Crosses (separatedBy separator parser) := by
  have hseparator : Aloof verge.coupling (Parser.consume separator) :=
    .of_elementary verge.lawful (.consume separator)
  refine h.bind fun _ ↦ .bind (.bind (.iterate (fun _ ↦ ?_) []) fun _ ↦ .pure _) fun _ ↦ .pure _
  exact (hseparator.bind fun _ ↦ .ite (hparser.map _) (.pure _)).bind fun _ ↦ .pure _

/-- The question goes back to the verge, so what follows has to cross it. -/
theorem lookahead {question : Parser Bool} {next : Bool → Parser β}
    (h : ∀ answer, verge.Crosses (next answer)) :
    verge.Crosses (Parser.lookahead question >>= next) := by
  intro session hat
  cases hrun : question session with
  | ok answer after =>
    rw [bind_of_ok (lookahead_of_ok hrun)]
    exact h answer (answered session after) hat
  | error failure after =>
    rw [bind_of_ok (lookahead_of_error hrun)]
    exact h false (answered session after) hat

/-- A choice crosses if its first reading fails and its second one crosses. -/
theorem either_second {title : String} {depth : Nat} {first : Parser α} {next : α → Parser γ}
    {second : Parser β} {rest : β → Parser γ}
    (hfails : ∀ place, verge.At place → Fails place first) (h : verge.Crosses second)
    (hrest : ∀ value, Aloof verge.coupling (rest value)) :
    verge.Crosses (either title depth first next second rest) := by
  intro session hat
  obtain ⟨failure, after, hrun⟩ := hfails _ hat session rfl
  exact escapes_either_of_second hrun (h (rewound title depth session after) hat) hrest

end Crosses

end Verge

end CorpusQuery
