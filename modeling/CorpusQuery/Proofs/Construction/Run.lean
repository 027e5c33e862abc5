import CorpusQuery.Proofs.Construction.Basic

/-!
How the combinators run: for each of them, what it does when the parsers it is made of return or
fail. These are the facts through which every induction on a construction looks at a run.
-/

set_option autoImplicit false
set_option relaxedAutoImplicit false

namespace CorpusQuery

namespace KindSet

theorem contains_ofList (kinds : List Kind) (kind : Kind) :
    (ofList kinds).contains kind = kinds.contains kind := by
  have hfold (set : KindSet) :
      (kinds.foldl (fun set kind ↦ set ∪ single kind) set).contains kind =
        (set.contains kind || kinds.contains kind) := by
    induction kinds generalizing set with
    | nil => simp
    | cons first rest ih =>
      rw [List.foldl_cons, ih, contains_union, contains_single, List.contains_cons, Bool.or_assoc]
      rfl
  rw [ofList, hfold, contains_empty, Bool.false_or]

/-- The keys of a table are the kinds that are looked up in it with success. -/
theorem contains_ofKeys {α : Type} (table : List (Kind × α)) (kind : Kind) :
    (ofKeys table).contains kind = (table.lookup kind).isSome := by
  rw [ofKeys, contains_ofList]
  induction table with
  | nil => rfl
  | cons entry rest ih =>
    obtain ⟨key, value⟩ := entry
    rw [List.map_cons, List.contains_cons, ih, List.lookup_cons]
    cases hkey : kind == key with
    | false => rfl
    | true => rfl

end KindSet

theorem Place.along_zero (here : Token) (ahead : List Token) : along here ahead 0 = here := by
  cases ahead <;> rfl

namespace Cursor

variable {cursor : Cursor}

theorem advance_of_nil (h : cursor.ahead = []) : cursor.advance = cursor := by
  simp only [advance, Place.next?, h]

theorem advance_of_cons {next : Token} {rest : List Token} (h : cursor.ahead = next :: rest) :
    cursor.advance = ⟨⟨cursor.here :: cursor.behind, next, rest⟩, ∅⟩ := by
  simp only [advance, Place.next?, h]

end Cursor

namespace Session

/-- The session in which kinds have been noted as acceptable. -/
def tested (session : Session) (kinds : KindSet) : Session :=
  { session with cursor := session.cursor.expecting kinds }

/-- The session in which the token at hand has been passed. -/
def passed (session : Session) : Session := { session with cursor := session.cursor.advance }

/-- Looking ahead from behind a token is looking further ahead from before it. -/
theorem peekKind_passed (session : Session) (count : Nat) :
    session.passed.cursor.peekKind count = session.cursor.peekKind (count + 1) := by
  unfold Place.peekKind Place.peek
  cases hahead : session.cursor.ahead with
  | nil => rw [passed, Cursor.advance_of_nil hahead, hahead, Place.along, Place.along]
  | cons next rest => rw [passed, Cursor.advance_of_cons hahead, Place.along]

theorem kind_passed (session : Session) :
    session.passed.cursor.kind = session.cursor.peekKind 1 := by
  rw [← peekKind_passed, Place.peekKind, Place.peek, Place.along_zero]
  rfl

end Session

namespace Parser

variable {α β γ : Type}

/-! ### Tokens -/

section Tokens

variable {kind : Kind} {kinds : KindSet} {session : Session}

theorem consume_of_kind (h : session.cursor.kind = kind) :
    consume kind session = .ok true (session.tested (.single kind)).passed := by
  simp [consume, onCursor, Cursor.consume, Cursor.check, h, Session.passed, Session.tested]

theorem consume_of_ne (h : session.cursor.kind ≠ kind) :
    consume kind session = .ok false (session.tested (.single kind)) := by
  simp [consume, onCursor, Cursor.consume, Cursor.check, h, Session.tested]

theorem consumeAny_of_contains (h : kinds.contains session.cursor.kind = true) :
    consumeAny kinds session = .ok (some session.cursor.here) (session.tested kinds).passed := by
  simp [consumeAny, onCursor, Cursor.consumeAny, Cursor.checkAny, h, Session.passed,
    Session.tested]

theorem consumeAny_of_not_contains (h : kinds.contains session.cursor.kind = false) :
    consumeAny kinds session = .ok none (session.tested kinds) := by
  simp [consumeAny, onCursor, Cursor.consumeAny, Cursor.checkAny, h, Session.tested]

theorem expect_of_kind (h : session.cursor.kind = kind) :
    expect kind session = .ok session.cursor.here (session.tested (.single kind)).passed := by
  simp [expect, orFail, Cursor.expect, Cursor.check, h, Session.passed, Session.tested]

theorem expect_of_ne (h : session.cursor.kind ≠ kind) :
    expect kind session =
      .error ((session.tested (.single kind)).cursor.failure .unexpected)
        (session.tested (.single kind)) := by
  simp [expect, orFail, Cursor.expect, Cursor.check, h, Session.tested]

theorem oneOf_of_lookup {table : List (Kind × α)} {value : α}
    (h : table.lookup session.cursor.kind = some value) :
    oneOf table session = .ok (some value) (session.tested (.ofKeys table)).passed := by
  have hcontains : (KindSet.ofKeys table).contains session.cursor.kind = true := by
    rw [KindSet.contains_ofKeys, h]
    rfl
  have hlookup : table.lookup session.cursor.here.kind = some value := h
  simp only [oneOf, bind, EStateM.bind, consumeAny_of_contains hcontains, hlookup]
  rfl

theorem oneOf_of_lookup_none {table : List (Kind × α)}
    (h : table.lookup session.cursor.kind = none) :
    oneOf table session = .ok none (session.tested (.ofKeys table)) := by
  have hcontains : (KindSet.ofKeys table).contains session.cursor.kind = false := by
    rw [KindSet.contains_ofKeys, h]
    rfl
  simp only [oneOf, bind, EStateM.bind, consumeAny_of_not_contains hcontains]
  rfl

end Tokens

/-! ### Sequence -/

/-- The session that a parser leaves behind, whether it returns or fails. -/
def leave (parser : Parser α) (session : Session) : Session :=
  match parser session with
  | .ok _ after => after
  | .error _ after => after

theorem leave_of_ok {parser : Parser α} {session after : Session} {value : α}
    (h : parser session = .ok value after) : leave parser session = after := by
  rw [leave, h]

theorem leave_of_error {parser : Parser α} {session after : Session} {failure : Failure}
    (h : parser session = .error failure after) : leave parser session = after := by
  rw [leave, h]

theorem bind_of_ok {parser : Parser α} {session after : Session} {value : α}
    (h : parser session = .ok value after) (next : α → Parser β) :
    (parser >>= next) session = next value after := by
  simp only [bind, EStateM.bind, h]

theorem bind_of_error {parser : Parser α} {session after : Session} {failure : Failure}
    (h : parser session = .error failure after) (next : α → Parser β) :
    (parser >>= next) session = .error failure after := by
  simp only [bind, EStateM.bind, h]

/-- What two parsers return together, the second one returns behind the first one. -/
theorem bind_eq_ok {parser : Parser α} {next : α → Parser β} {session after : Session} {value : β}
    (h : (parser >>= next) session = .ok value after) :
    ∃ first between, parser session = .ok first between ∧ next first between = .ok value after := by
  cases hfirst : parser session with
  | error failure between =>
    rw [bind_of_error hfirst] at h
    cases h
  | ok first between =>
    rw [bind_of_ok hfirst] at h
    exact ⟨first, between, rfl, h⟩

/-- A look at the place moves nothing. -/
theorem bind_look (view : Place → α) (next : α → Parser β) (session : Session) :
    (look view >>= next) session = next (view session.cursor.toPlace) session := rfl

/-- A test notes the kinds that it asks for. -/
theorem bind_expecting (kinds : KindSet) (next : Unit → Parser β) (session : Session) :
    (expecting kinds >>= next) session = next () (session.tested kinds) := rfl

theorem bind_check (kind : Kind) (next : Bool → Parser β) (session : Session) :
    (check kind >>= next) session =
      next (session.cursor.kind == kind) (session.tested (.single kind)) := rfl

theorem bind_checkAny (kinds : KindSet) (next : Bool → Parser β) (session : Session) :
    (checkAny kinds >>= next) session =
      next (kinds.contains session.cursor.kind) (session.tested kinds) := rfl

/-! ### Choice -/

/-- The session in which a failed attempt is taken back. -/
def rewound (title : String) (depth : Nat) (session after : Session) : Session :=
  { after with
    cursor := after.cursor.rewind session.cursor.toPlace
    events := .rewound title depth session.cursor.here :: after.events }

theorem attempt_of_ok {parser : Parser α} {session after : Session} {value : α}
    (h : parser session = .ok value after) (title : String) (depth : Nat) :
    attempt title depth parser session = .ok value after := by
  rw [attempt, h]

theorem attempt_of_error {parser : Parser α} {session after : Session} {failure : Failure}
    (h : parser session = .error failure after) (title : String) (depth : Nat) :
    attempt title depth parser session = .error failure (rewound title depth session after) := by
  rw [attempt, h]
  rfl

section Either

variable {title : String} {depth : Nat} {first : Parser α} {next : α → Parser γ}
  {second : Parser β} {rest : β → Parser γ} {session after last : Session} {failure : Failure}

theorem either_of_ok {value : α} (h : first session = .ok value after) :
    either title depth first next second rest session = next value after := by
  simp only [either, bind, EStateM.bind, outcome, attempt, h]

theorem either_of_error_ok {value : β} (h : first session = .error failure after)
    (hsecond : second (rewound title depth session after) = .ok value last) :
    either title depth first next second rest session = rest value last := by
  rw [rewound] at hsecond
  simp only [either, bind, EStateM.bind, outcome, attempt, h, lastAlternative, hsecond]

theorem either_of_error_error {other : Failure} (h : first session = .error failure after)
    (hsecond : second (rewound title depth session after) = .error other last) :
    either title depth first next second rest session =
      .error (other.exhausted [failure]) last := by
  rw [rewound] at hsecond
  simp only [either, bind, EStateM.bind, outcome, attempt, h, lastAlternative, hsecond]

end Either

/-! ### Repetition -/

section Iterate

variable {step : α → Parser (Option α)} {value next : α} {session after : Session}

theorem iterate_of_error {failure : Failure} (h : step value session = .error failure after) :
    iterate step value session = .error failure after := by
  rw [iterate, h]

theorem iterate_of_none (h : step value session = .ok none after) :
    iterate step value session = .ok value after := by
  rw [iterate, h]

theorem iterate_of_closer (h : step value session = .ok (some next) after)
    (hcloser : after.remaining < session.remaining) :
    iterate step value session = iterate step next after := by
  rw [iterate, h]
  exact if_pos hcloser

theorem iterate_of_not_closer (h : step value session = .ok (some next) after)
    (hcloser : ¬ after.remaining < session.remaining) :
    iterate step value session = .ok next after := by
  rw [iterate, h]
  exact if_neg hcloser

/-- What holds of a loop if it holds as soon as it holds of the rounds still to come. -/
theorem iterate_induction (step : α → Parser (Option α)) {motive : α → Session → Prop}
    (h : ∀ value session, (∀ next after, step value session = .ok (some next) after →
      after.remaining < session.remaining → motive next after) → motive value session)
    (value : α) (session : Session) : motive value session := by
  induction hremaining : session.remaining using Nat.strongRecOn generalizing value session with
  | ind remaining ih =>
    refine h value session fun next after _ hcloser ↦ ?_
    exact ih after.remaining (hremaining ▸ hcloser) next after rfl

end Iterate

/-! ### Questions and rules -/

/-- The session in which a question has been answered. -/
def answered (session after : Session) : Session :=
  { after with
    cursor := (after.cursor.rewind session.cursor.toPlace).expecting session.cursor.expected }

theorem lookahead_of_ok {question : Parser Bool} {session after : Session} {answer : Bool}
    (h : question session = .ok answer after) :
    lookahead question session = .ok answer (answered session after) := by
  rw [lookahead, h]
  rfl

theorem lookahead_of_error {question : Parser Bool} {session after : Session} {failure : Failure}
    (h : question session = .error failure after) :
    lookahead question session = .ok false (answered session after) := by
  rw [lookahead, h]
  rfl

/-- The session in which the body of a rule is read. -/
def entered (title : String) (depth : Nat) (session : Session) : Session :=
  { session with events := .entered title depth session.cursor.here :: session.events }

/-- The session in which a rule has been left. -/
def left (title : String) (depth : Nat) (failure? : Option Failure) (session : Session) : Session :=
  { session with events := .left title depth failure? :: session.events }

theorem enter_of_ok {body : Parser α} {session after : Session} {value : α} {title : String}
    {depth : Nat} (h : body (entered title depth session) = .ok value after) :
    enter title depth body session = .ok value (left title depth none after) := by
  rw [entered] at h
  simp only [enter, h, left]

theorem enter_of_error {body : Parser α} {session after : Session} {failure : Failure}
    {title : String} {depth : Nat} (h : body (entered title depth session) = .error failure after) :
    enter title depth body session =
      .error failure (left title depth (some failure) after) := by
  rw [entered] at h
  simp only [enter, h, left]

theorem enter_eq_ok {body : Parser α} {session after : Session} {value : α} {title : String}
    {depth : Nat} (h : enter title depth body session = .ok value after) :
    ∃ between, body (entered title depth session) = .ok value between ∧
      after = left title depth none between := by
  cases hbody : body (entered title depth session) with
  | error failure between =>
    rw [enter_of_error hbody] at h
    cases h
  | ok found between =>
    rw [enter_of_ok hbody] at h
    cases h
    exact ⟨between, rfl, rfl⟩

end Parser

end CorpusQuery
