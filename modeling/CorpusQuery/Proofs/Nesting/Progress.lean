import CorpusQuery.Proofs.Construction.Run

/-!
What a parser ensures about the place it leaves the cursor at. `Parser.Ensures` is a contract: from
a place with one property, the parser returns a value at a place with another one, and on the way
the session keeps what it has to keep, also when the parser fails. Contracts compose along the
constructions of the grammar. Most of them say how far the cursor has come (`Place.Past`); a token
that is not the end of the input always has another one behind it, so passing it is a step forward.
-/

set_option autoImplicit false
set_option relaxedAutoImplicit false

namespace CorpusQuery

namespace Place

/-- The token list ends with the end of the input. -/
def Closed (place : Place) : Prop := (place.ahead.getLastD place.here).kind = .endOfInput

/-- The number of tokens before the last one. -/
def total (place : Place) : Nat := place.behind.length + place.ahead.length

/-- At least so many tokens have been passed. -/
def Past (count : Nat) (place : Place) : Prop := count ≤ place.position

theorem Past.mono {count least : Nat} {place : Place} (h : place.Past count)
    (hle : least ≤ count) : place.Past least :=
  Nat.le_trans hle h

end Place

namespace Cursor

theorem closed_advance {cursor : Cursor} (h : cursor.Closed) : cursor.advance.Closed := by
  cases hahead : cursor.ahead with
  | nil => rwa [advance_of_nil hahead]
  | cons next rest =>
    rw [Place.Closed, hahead, List.getLastD_cons] at h
    rwa [advance_of_cons hahead]

theorem total_advance (cursor : Cursor) : cursor.advance.total = cursor.total := by
  cases hahead : cursor.ahead with
  | nil => rw [advance_of_nil hahead]
  | cons next rest =>
    simp only [advance_of_cons hahead, Place.total, hahead, List.length_cons]
    omega

theorem position_le_advance (cursor : Cursor) : cursor.position ≤ cursor.advance.position := by
  cases hahead : cursor.ahead with
  | nil => exact Nat.le_of_eq (by rw [advance_of_nil hahead])
  | cons next rest => simp [advance_of_cons hahead, Place.position]

/-- Passing a token that is not the end of the input is a step forward. -/
theorem position_lt_advance {cursor : Cursor} (h : cursor.Closed)
    (hkind : cursor.kind ≠ .endOfInput) : cursor.position < cursor.advance.position := by
  cases hahead : cursor.ahead with
  | nil =>
    rw [Place.Closed, hahead] at h
    exact absurd h hkind
  | cons next rest => simp [advance_of_cons hahead, Place.position]

end Cursor

namespace Parser

open CorpusQuery.Place

variable {α β γ : Type}

/-- What every session of a parse has: a token list of the same length, closed by the end of the
input, and events and a failure at the limit as they have to be kept. -/
structure Fit (total : Nat) (kept : List Event → Option Failure → Prop) (session : Session) :
    Prop where
  closed : session.cursor.Closed
  total_eq : session.cursor.total = total
  kept : kept session.events session.overflow

/-- Nothing is asked of events and of the failure at the limit. -/
abbrev Untraced (_ : List Event) (_ : Option Failure) : Prop := True

/-- From a place as given the parser ends at a place as promised, if it returns at all. -/
def Ensures (total : Nat) (kept : List Event → Option Failure → Prop) (given : Place → Prop)
    (parser : Parser α) (promised : α → Place → Prop) : Prop :=
  ∀ session, Fit total kept session → given session.cursor.toPlace →
    match parser session with
    | .ok value after => Fit total kept after ∧ promised value after.cursor.toPlace
    | .error _ after => Fit total kept after

namespace Ensures

variable {total : Nat} {kept : List Event → Option Failure → Prop} {given : Place → Prop}
  {base : Nat}

theorem ok {parser : Parser α} {promised : α → Place → Prop}
    (h : Ensures total kept given parser promised) {session after : Session} {value : α}
    (hfit : Fit total kept session) (hgiven : given session.cursor.toPlace)
    (hrun : parser session = .ok value after) :
    Fit total kept after ∧ promised value after.cursor.toPlace := by
  have hresult := h session hfit hgiven
  rwa [hrun] at hresult

theorem error {parser : Parser α} {promised : α → Place → Prop}
    (h : Ensures total kept given parser promised) {session after : Session} {failure : Failure}
    (hfit : Fit total kept session) (hgiven : given session.cursor.toPlace)
    (hrun : parser session = .error failure after) : Fit total kept after := by
  have hresult := h session hfit hgiven
  rwa [hrun] at hresult

theorem of_runs {parser : Parser α} {promised : α → Place → Prop}
    (hok : ∀ session value after, Fit total kept session → given session.cursor.toPlace →
      parser session = .ok value after → Fit total kept after ∧ promised value after.cursor.toPlace)
    (herror : ∀ session failure after, Fit total kept session → given session.cursor.toPlace →
      parser session = .error failure after → Fit total kept after) :
    Ensures total kept given parser promised := by
  intro session hfit hgiven
  cases hrun : parser session with
  | ok value after => exact hok session value after hfit hgiven hrun
  | error failure after => exact herror session failure after hfit hgiven hrun

theorem weaken {given' : Place → Prop} {parser : Parser α} {promised promised' : α → Place → Prop}
    (h : Ensures total kept given parser promised) (hgiven : ∀ place, given' place → given place)
    (hpromised : ∀ value place, promised value place → promised' value place) :
    Ensures total kept given' parser promised' :=
  of_runs
    (fun _ _ _ hfit hstart hrun ↦
      (h.ok hfit (hgiven _ hstart) hrun).imp_right (hpromised _ _))
    fun _ _ _ hfit hstart hrun ↦ h.error hfit (hgiven _ hstart) hrun

/-- A contract may ask for more than it needs. -/
theorem when {given' : Place → Prop} {parser : Parser α} {promised : α → Place → Prop}
    (h : Ensures total kept given parser promised) (hgiven : ∀ place, given' place → given place) :
    Ensures total kept given' parser promised :=
  h.weaken hgiven fun _ _ h ↦ h

/-- What is the case wherever the contract applies may be used to prove it. -/
theorem known {parser : Parser α} {promised : α → Place → Prop} {fact : Prop}
    (hfact : ∀ place, given place → fact)
    (h : fact → Ensures total kept given parser promised) :
    Ensures total kept given parser promised :=
  fun session hfit hgiven ↦ h (hfact _ hgiven) session hfit hgiven

/-- A contract may promise less than it has. -/
theorem least {parser : Parser α} {less more : Nat}
    (h : Ensures total kept given parser fun _ ↦ Past more) (hle : less ≤ more) :
    Ensures total kept given parser fun _ ↦ Past less :=
  h.weaken (fun _ h ↦ h) fun _ _ h ↦ h.mono hle

/-! ### Sequence -/

theorem pure {promised : α → Place → Prop} {value : α}
    (h : ∀ place, given place → promised value place) :
    Ensures total kept given (pure value) promised :=
  fun _ hfit hgiven ↦ ⟨hfit, h _ hgiven⟩

theorem bind {parser : Parser α} {next : α → Parser β} {between : α → Place → Prop}
    {promised : β → Place → Prop} (h : Ensures total kept given parser between)
    (hnext : ∀ value, Ensures total kept (between value) (next value) promised) :
    Ensures total kept given (parser >>= next) promised := by
  intro session hfit hgiven
  cases hrun : parser session with
  | error failure after =>
    rw [bind_of_error hrun]
    exact h.error hfit hgiven hrun
  | ok value after =>
    rw [bind_of_ok hrun]
    obtain ⟨hafter, hbetween⟩ := h.ok hfit hgiven hrun
    exact hnext value after hafter hbetween

theorem pure_bind {value : α} {next : α → Parser β} {promised : β → Place → Prop}
    (h : Ensures total kept given (next value) promised) :
    Ensures total kept given (Pure.pure value >>= next) promised := h

theorem map {f : α → β} {parser : Parser α} {promised : β → Place → Prop}
    (h : Ensures total kept given parser fun value ↦ promised (f value)) :
    Ensures total kept given (f <$> parser) promised := by
  rw [map_eq_pure_bind]
  exact h.bind fun _ ↦ .pure fun _ h ↦ h

theorem ite {condition : Prop} [Decidable condition] {yes no : Parser α}
    {promised : α → Place → Prop} (hyes : condition → Ensures total kept given yes promised)
    (hno : ¬ condition → Ensures total kept given no promised) :
    Ensures total kept given (if condition then yes else no) promised := by
  split
  · exact hyes ‹_›
  · exact hno ‹_›

/-! ### Tokens -/

theorem look (view : Place → α) :
    Ensures total kept given (look view) fun value place ↦ given place ∧ view place = value :=
  fun _ hfit hgiven ↦ ⟨hfit, hgiven, rfl⟩

theorem check (kind : Kind) :
    Ensures total kept given (check kind) fun found place ↦
      given place ∧ (place.kind == kind) = found :=
  fun _ hfit hgiven ↦ ⟨⟨hfit.closed, hfit.total_eq, hfit.kept⟩, hgiven, rfl⟩

theorem checkAny (kinds : KindSet) :
    Ensures total kept given (checkAny kinds) fun found place ↦
      given place ∧ kinds.contains place.kind = found :=
  fun _ hfit hgiven ↦ ⟨⟨hfit.closed, hfit.total_eq, hfit.kept⟩, hgiven, rfl⟩

theorem expecting (kinds : KindSet) :
    Ensures total kept given (expecting kinds) fun _ ↦ given :=
  fun _ hfit hgiven ↦ ⟨⟨hfit.closed, hfit.total_eq, hfit.kept⟩, hgiven⟩

end Ensures

theorem Fit.tested {total : Nat} {kept : List Event → Option Failure → Prop} {session : Session}
    (h : Fit total kept session) (kinds : KindSet) : Fit total kept (session.tested kinds) :=
  ⟨h.closed, h.total_eq, h.kept⟩

theorem Fit.passed {total : Nat} {kept : List Event → Option Failure → Prop} {session : Session}
    (h : Fit total kept session) : Fit total kept session.passed :=
  ⟨Cursor.closed_advance h.closed, (Cursor.total_advance _).trans h.total_eq, h.kept⟩

/-- Passing a token that is not the end of the input is a step forward. -/
theorem Fit.past_passed {total base : Nat} {kept : List Event → Option Failure → Prop}
    {session : Session} (h : Fit total kept session) (hpast : session.cursor.Past base)
    (hkind : session.cursor.kind ≠ .endOfInput) : session.passed.cursor.Past (base + 1) :=
  Nat.lt_of_le_of_lt hpast (Cursor.position_lt_advance h.closed hkind)

namespace Ensures

variable {total : Nat} {kept : List Event → Option Failure → Prop} {given : Place → Prop}
  {base : Nat} {kind : Kind} {kinds : KindSet}

theorem advance (hgiven : ∀ place, given place → place.Past base ∧ place.kind ≠ .endOfInput) :
    Ensures total kept given advance fun _ ↦ Past (base + 1) := by
  intro session hfit hplace
  obtain ⟨hbase, hkind⟩ := hgiven _ hplace
  exact ⟨hfit.passed, hfit.past_passed hbase hkind⟩

/-- Passing whatever token is at hand never goes back. -/
theorem advance_any : Ensures total kept (Past base) Parser.advance fun _ ↦ Past base :=
  fun _ hfit hplace ↦ ⟨hfit.passed, Nat.le_trans hplace (Cursor.position_le_advance _)⟩

theorem consume (hkind : kind ≠ .endOfInput) :
    Ensures total kept (Past base) (consume kind) fun found ↦ Past (base + found.toNat) := by
  intro session hfit hplace
  by_cases h : session.cursor.kind = kind
  · rw [consume_of_kind h]
    have htested := hfit.tested (.single kind)
    exact ⟨htested.passed, htested.past_passed hplace fun heq ↦ hkind (h.symm.trans heq)⟩
  · rw [consume_of_ne h]
    exact ⟨hfit.tested _, hplace⟩

theorem consumeAny (hkinds : kinds.contains .endOfInput = false) :
    Ensures total kept (Past base) (consumeAny kinds) fun token? ↦
      Past (base + token?.isSome.toNat) := by
  intro session hfit hplace
  cases h : kinds.contains session.cursor.kind with
  | true =>
    rw [consumeAny_of_contains h]
    have htested := hfit.tested kinds
    refine ⟨htested.passed, htested.past_passed hplace fun heq ↦ ?_⟩
    rw [show session.cursor.kind = .endOfInput from heq, hkinds] at h
    cases h
  | false =>
    rw [consumeAny_of_not_contains h]
    exact ⟨hfit.tested _, hplace⟩

theorem oneOf {table : List (Kind × α)}
    (htable : (KindSet.ofKeys table).contains .endOfInput = false) :
    Ensures total kept (Past base) (oneOf table) fun entry? ↦
      Past (base + entry?.isSome.toNat) := by
  refine .bind (.consumeAny htable) fun token? ↦ ?_
  cases token? with
  | none => exact .pure fun _ h ↦ h
  | some token => exact .pure fun _ h ↦ h.mono (Nat.add_le_add_left (Bool.toNat_le _) _)

/-- At a token of the table an entry is found. -/
theorem oneOf_found {table : List (Kind × α)}
    (htable : (KindSet.ofKeys table).contains .endOfInput = false) :
    Ensures total kept
      (fun place ↦ place.Past base ∧ (KindSet.ofKeys table).contains place.kind = true)
      (Parser.oneOf table) fun entry? place ↦ entry?.isSome = true ∧ place.Past (base + 1) := by
  intro session hfit hplace
  have hfound := hplace.2
  rw [KindSet.contains_ofKeys] at hfound
  obtain ⟨value, hvalue⟩ := Option.isSome_iff_exists.mp hfound
  rw [oneOf_of_lookup hvalue]
  have htested := hfit.tested (.ofKeys table)
  refine ⟨htested.passed, rfl, htested.past_passed hplace.1 fun hend ↦ ?_⟩
  have hcontains := hplace.2
  rw [show session.cursor.kind = .endOfInput from hend, htable] at hcontains
  cases hcontains

theorem expect (hkind : kind ≠ .endOfInput) :
    Ensures total kept (Past base) (expect kind) fun _ ↦ Past (base + 1) := by
  intro session hfit hplace
  by_cases h : session.cursor.kind = kind
  · rw [expect_of_kind h]
    have htested := hfit.tested (.single kind)
    exact ⟨htested.passed, htested.past_passed hplace fun heq ↦ hkind (h.symm.trans heq)⟩
  · rw [expect_of_ne h]
    exact hfit.tested _

/-- The end of the input may be passed on the spot. -/
theorem expect_end :
    Ensures total kept (Past base) (Parser.expect .endOfInput) fun _ ↦ Past base := by
  intro session hfit hplace
  by_cases h : session.cursor.kind = .endOfInput
  · rw [expect_of_kind h]
    have hle := Cursor.position_le_advance (session.cursor.expecting (.single .endOfInput))
    exact ⟨(hfit.tested _).passed, Nat.le_trans hplace hle⟩
  · rw [expect_of_ne h]
    exact hfit.tested _

theorem fail {promised : α → Place → Prop} (cause : Cause) :
    Ensures total kept given (fail cause) promised :=
  fun _ hfit _ ↦ ⟨hfit.closed, hfit.total_eq, hfit.kept⟩

theorem failMissing {promised : α → Place → Prop} (what : String) (kinds : KindSet) :
    Ensures total kept given (failMissing what kinds) promised :=
  fun _ hfit _ ↦ ⟨hfit.closed, hfit.total_eq, hfit.kept⟩

/-! ### Phrases -/

theorem phraseFrom_to {category : Category} {promised : Place → Prop} (start : Nat)
    {body : Parser (Draft category)} (h : Ensures total kept given body fun _ ↦ promised) :
    Ensures total kept given (phraseFrom start body) fun _ ↦ promised :=
  h.bind fun _ ↦ (look _).bind fun _ ↦ .pure fun _ h ↦ h.1

theorem phrase_to {category : Category} {promised : Place → Prop} {body : Parser (Draft category)}
    (h : Ensures total kept given body fun _ ↦ promised) :
    Ensures total kept given (phrase body) fun _ ↦ promised :=
  (look _).bind fun start ↦ phraseFrom_to start (h.weaken (fun _ h ↦ h.1) fun _ _ h ↦ h)

theorem phraseFrom {category : Category} (start : Nat) {body : Parser (Draft category)}
    {least : Nat} (h : Ensures total kept given body fun _ ↦ Past least) :
    Ensures total kept given (phraseFrom start body) fun _ ↦ Past least :=
  phraseFrom_to start h

theorem phrase {category : Category} {body : Parser (Draft category)}
    {least : Nat} (h : Ensures total kept given body fun _ ↦ Past least) :
    Ensures total kept given (phrase body) fun _ ↦ Past least :=
  phrase_to h

theorem behind (hkind : kind ≠ .endOfInput) {body : Parser α}
    (h : Ensures total kept (Past (base + 1)) body fun _ ↦ Past (base + 1)) :
    Ensures total kept (Past base) (behind kind body) fun value? ↦
      Past (base + value?.isSome.toNat) := by
  refine .bind (.consume hkind) fun found ↦ ?_
  cases found with
  | false => exact .pure fun _ h ↦ h
  | true => exact .map h

/-! ### Repetition -/

/-- A loop goes on from where its last step came to. -/
theorem iterate {step : α → Parser (Option α)}
    (hstep : ∀ value count, base ≤ count → Ensures total kept (Past count) (step value)
      fun next? ↦ Past (count + next?.isSome.toNat)) (value : α) :
    Ensures total kept (Past base) (iterate step value) fun _ ↦ Past base := by
  intro session
  induction value, session using iterate_induction step with
  | h value session ih =>
  intro hfit hplace
  have hround := hstep value base (Nat.le_refl _)
  cases hrun : step value session with
  | error failure after =>
    rw [iterate_of_error hrun]
    exact hround.error hfit hplace hrun
  | ok next? after =>
    obtain ⟨hafter, hpast⟩ := hround.ok hfit hplace hrun
    have hbase : after.cursor.Past base := Past.mono hpast (Nat.le_add_right _ _)
    cases next? with
    | none =>
      rw [iterate_of_none hrun]
      exact ⟨hafter, hbase⟩
    | some next =>
      by_cases hcloser : after.remaining < session.remaining
      · rw [iterate_of_closer hrun hcloser]
        exact ih next after hrun hcloser hafter hbase
      · rw [iterate_of_not_closer hrun hcloser]
        exact ⟨hafter, hbase⟩

/-- A loop whose first step goes on ends behind that step. -/
theorem iterate_first {step : α → Parser (Option α)} {value : α}
    (hfirst : Ensures total kept given (step value) fun next? place ↦
      next?.isSome = true ∧ place.Past base)
    (hstep : ∀ value count, base ≤ count → Ensures total kept (Past count) (step value)
      fun next? ↦ Past (count + next?.isSome.toNat)) :
    Ensures total kept given (Parser.iterate step value) fun _ ↦ Past base := by
  intro session hfit hplace
  cases hrun : step value session with
  | error failure after =>
    rw [iterate_of_error hrun]
    exact hfirst.error hfit hplace hrun
  | ok next? after =>
    obtain ⟨hafter, hsome, hpast⟩ := hfirst.ok hfit hplace hrun
    obtain ⟨next, rfl⟩ := Option.isSome_iff_exists.mp hsome
    by_cases hcloser : after.remaining < session.remaining
    · rw [iterate_of_closer hrun hcloser]
      exact iterate hstep next after hafter hpast
    · rw [iterate_of_not_closer hrun hcloser]
      exact ⟨hafter, hpast⟩

theorem many {item : Parser (Option α)}
    (hitem : ∀ count, base ≤ count → Ensures total kept (Past count) item
      fun value? ↦ Past (count + value?.isSome.toNat)) :
    Ensures total kept (Past base) (many item) fun _ ↦ Past base := by
  refine .bind (.iterate (fun items count hle ↦ ?_) []) fun _ ↦ .pure fun _ h ↦ h
  refine .bind (hitem count hle) fun value? ↦ .pure fun _ h ↦ ?_
  cases value? with
  | none => exact h
  | some value => exact h

theorem separatedBy (hkind : kind ≠ .endOfInput) {item : Parser α}
    (hitem : ∀ count, base ≤ count →
      Ensures total kept (Past count) item fun _ ↦ Past (count + 1)) :
    Ensures total kept (Past base) (separatedBy kind item) fun _ ↦ Past (base + 1) := by
  refine .bind (hitem base (Nat.le_refl _)) fun _ ↦ .bind (.many fun count hle ↦ ?_) fun _ ↦
    .pure fun _ h ↦ h
  refine .behind hkind ((hitem (count + 1) (by omega)).weaken (fun _ h ↦ h) fun _ _ h ↦ ?_)
  exact h.mono (Nat.le_succ _)

/-! ### Choice -/

/-- Notes of rewinding may be added to what is kept. -/
def Forgiving (kept : List Event → Option Failure → Prop) (depth : Nat) : Prop :=
  ∀ title token events overflow, kept events overflow →
    kept (.rewound title depth token :: events) overflow

theorem fit_rewound {depth : Nat} (hkept : Forgiving kept depth) {session after : Session}
    (hfit : Fit total kept session) (hafter : Fit total kept after) (title : String) :
    Fit total kept (rewound title depth session after) :=
  ⟨hfit.closed, hfit.total_eq, hkept _ _ _ _ hafter.kept⟩

theorem attempt {depth : Nat} (hkept : Forgiving kept depth) (title : String)
    {parser : Parser α} {promised : α → Place → Prop}
    (h : Ensures total kept given parser promised) :
    Ensures total kept given (attempt title depth parser) promised := by
  intro session hfit hplace
  cases hrun : parser session with
  | ok value after =>
    rw [attempt_of_ok hrun]
    exact h.ok hfit hplace hrun
  | error failure after =>
    rw [attempt_of_error hrun]
    exact fit_rewound hkept hfit (h.error hfit hplace hrun) title

theorem lookahead {question : Parser Bool} {promised : Bool → Place → Prop}
    (h : Ensures total kept given question promised) :
    Ensures total kept given (lookahead question) fun _ ↦ given := by
  intro session hfit hplace
  cases hrun : question session with
  | ok answer after =>
    rw [lookahead_of_ok hrun]
    exact ⟨⟨hfit.closed, hfit.total_eq, (h.ok hfit hplace hrun).1.kept⟩, hplace⟩
  | error failure after =>
    rw [lookahead_of_error hrun]
    exact ⟨⟨hfit.closed, hfit.total_eq, (h.error hfit hplace hrun).kept⟩, hplace⟩

theorem either {depth : Nat} (hkept : Forgiving kept depth) (title : String) {first : Parser α}
    {next : α → Parser γ} {second : Parser β} {rest : β → Parser γ}
    {between : α → Place → Prop} {between' : β → Place → Prop} {promised : γ → Place → Prop}
    (hfirst : Ensures total kept given first between)
    (hnext : ∀ value, Ensures total kept (between value) (next value) promised)
    (hsecond : Ensures total kept given second between')
    (hrest : ∀ value, Ensures total kept (between' value) (rest value) promised) :
    Ensures total kept given (either title depth first next second rest) promised := by
  intro session hfit hplace
  cases hrun : first session with
  | ok value after =>
    obtain ⟨hafter, hbetween⟩ := hfirst.ok hfit hplace hrun
    rw [either_of_ok hrun]
    exact hnext value after hafter hbetween
  | error failure after =>
    have hback := fit_rewound hkept hfit (hfirst.error hfit hplace hrun) title
    cases hagain : second (rewound title depth session after) with
    | ok value last =>
      obtain ⟨hlast, hbetween⟩ := hsecond.ok hback hplace hagain
      rw [either_of_error_ok hrun hagain]
      exact hrest value last hlast hbetween
    | error other last =>
      rw [either_of_error_error hrun hagain]
      exact hsecond.error hback hplace hagain

/-! ### Nesting -/

/-- A rule keeps a contract if its body keeps it under what holds inside the rule. -/
theorem enter {inner : List Event → Option Failure → Prop} {title : String} {depth : Nat}
    {body : Parser α} {promised : α → Place → Prop}
    (henter : ∀ session, Fit total kept session → given session.cursor.toPlace →
      inner (.entered title depth session.cursor.here :: session.events) session.overflow)
    (hleave : ∀ failure? events overflow, inner events overflow →
      kept (.left title depth failure? :: events) overflow)
    (h : Ensures total inner given body promised) :
    Ensures total kept given (enter title depth body) promised := by
  intro session hfit hplace
  have hinner : Fit total inner (entered title depth session) :=
    ⟨hfit.closed, hfit.total_eq, henter session hfit hplace⟩
  cases hrun : body (entered title depth session) with
  | ok value after =>
    obtain ⟨hafter, hpromised⟩ := h.ok hinner hplace hrun
    rw [enter_of_ok hrun]
    exact ⟨⟨hafter.closed, hafter.total_eq, hleave none _ _ hafter.kept⟩, hpromised⟩
  | error failure after =>
    have hafter := h.error hinner hplace hrun
    rw [enter_of_error hrun]
    exact ⟨hafter.closed, hafter.total_eq, hleave (some failure) _ _ hafter.kept⟩

/-! ### Properties of places -/

variable {promised : Place → Prop}

theorem advance_to (h : ∀ cursor : Cursor, cursor.Closed → given cursor.toPlace →
      promised cursor.advance.toPlace) :
    Ensures total kept given Parser.advance fun _ ↦ promised :=
  fun _ hfit hplace ↦ ⟨hfit.passed, h _ hfit.closed hplace⟩

theorem expect_to (h : ∀ cursor : Cursor, cursor.Closed → cursor.kind = kind →
      given cursor.toPlace → promised cursor.advance.toPlace) :
    Ensures total kept given (Parser.expect kind) fun _ ↦ promised := by
  intro session hfit hplace
  have htested := hfit.tested (.single kind)
  by_cases hkind : session.cursor.kind = kind
  · rw [expect_of_kind hkind]
    exact ⟨htested.passed, h _ htested.closed hkind hplace⟩
  · rw [expect_of_ne hkind]
    exact htested

theorem consume_to {promised : Bool → Place → Prop}
    (hyes : ∀ cursor : Cursor, cursor.Closed → cursor.kind = kind → given cursor.toPlace →
      promised true cursor.advance.toPlace)
    (hno : ∀ place, place.kind ≠ kind → given place → promised false place) :
    Ensures total kept given (Parser.consume kind) promised := by
  intro session hfit hplace
  have htested := hfit.tested (.single kind)
  by_cases hkind : session.cursor.kind = kind
  · rw [consume_of_kind hkind]
    exact ⟨htested.passed, hyes _ htested.closed hkind hplace⟩
  · rw [consume_of_ne hkind]
    exact ⟨htested, hno _ hkind hplace⟩

theorem consumeAny_to {promised : Option Token → Place → Prop}
    (hyes : ∀ cursor : Cursor, cursor.Closed → kinds.contains cursor.kind = true →
      given cursor.toPlace → promised (some cursor.here) cursor.advance.toPlace)
    (hno : ∀ place, kinds.contains place.kind = false → given place → promised none place) :
    Ensures total kept given (Parser.consumeAny kinds) promised := by
  intro session hfit hplace
  have htested := hfit.tested kinds
  cases hkind : kinds.contains session.cursor.kind with
  | true =>
    rw [consumeAny_of_contains hkind]
    exact ⟨htested.passed, hyes _ htested.closed hkind hplace⟩
  | false =>
    rw [consumeAny_of_not_contains hkind]
    exact ⟨htested, hno _ hkind hplace⟩

theorem iterate_keeps {step : α → Parser (Option α)}
    (hstep : ∀ value, Ensures total kept given (step value) fun _ ↦ given) (value : α) :
    Ensures total kept given (Parser.iterate step value) fun _ ↦ given := by
  intro session
  induction value, session using iterate_induction step with
  | h value session ih =>
  intro hfit hplace
  cases hrun : step value session with
  | error failure after =>
    rw [iterate_of_error hrun]
    exact (hstep value).error hfit hplace hrun
  | ok next? after =>
    obtain ⟨hafter, hgiven⟩ := (hstep value).ok hfit hplace hrun
    cases next? with
    | none =>
      rw [iterate_of_none hrun]
      exact ⟨hafter, hgiven⟩
    | some next =>
      by_cases hcloser : after.remaining < session.remaining
      · rw [iterate_of_closer hrun hcloser]
        exact ih next after hrun hcloser hafter hgiven
      · rw [iterate_of_not_closer hrun hcloser]
        exact ⟨hafter, hgiven⟩

/-- A loop that never stands still goes on until its step gives nothing. -/
theorem iterate_until {step : α → Parser (Option α)} {holds : α → Place → Prop}
    (hcloser : ∀ value next session after, session.cursor.Closed →
      step value session = .ok (some next) after → after.remaining < session.remaining)
    (hstep : ∀ value, Ensures total kept (holds value) (step value) fun next? place ↦
      next?.elim (holds value place ∧ promised place) (holds · place)) (value : α) :
    Ensures total kept (holds value) (Parser.iterate step value) fun final place ↦
      holds final place ∧ promised place := by
  intro session
  induction value, session using iterate_induction step with
  | h value session ih =>
  intro hfit hplace
  cases hrun : step value session with
  | error failure after =>
    rw [iterate_of_error hrun]
    exact (hstep value).error hfit hplace hrun
  | ok next? after =>
    obtain ⟨hafter, hround⟩ := (hstep value).ok hfit hplace hrun
    cases next? with
    | none =>
      rw [iterate_of_none hrun]
      exact ⟨hafter, hround⟩
    | some next =>
      have hless := hcloser value next session after hfit.closed hrun
      rw [iterate_of_closer hrun hless]
      exact ih next after hrun hless hafter hround

theorem many_keeps {item : Parser (Option α)}
    (h : Ensures total kept given item fun _ ↦ given) :
    Ensures total kept given (Parser.many item) fun _ ↦ given :=
  (iterate_keeps (fun _ ↦ h.bind fun _ ↦ .pure fun _ h ↦ h) []).bind fun _ ↦ .pure fun _ h ↦ h

theorem separatedBy_keeps {item : Parser α} (h : Ensures total kept given item fun _ ↦ given)
    (hkind : Ensures total kept given (Parser.consume kind) fun _ ↦ given) :
    Ensures total kept given (Parser.separatedBy kind item) fun _ ↦ given :=
  h.bind fun _ ↦ (many_keeps (hkind.bind fun _ ↦ .ite (fun _ ↦ h.map) fun _ ↦
    .pure fun _ h ↦ h)).bind fun _ ↦ .pure fun _ h ↦ h

end Ensures

/-- What passing a token keeps, every parser keeps. -/
theorem Alike.ensures {total : Nat} {kept : List Event → Option Failure → Prop}
    {given : Place → Prop} {scope other : Scope} (hkept : Ensures.Forgiving kept scope.depth)
    (hadvance : ∀ cursor : Cursor, given cursor.toPlace → given cursor.advance.toPlace)
    (hscope : ∀ rule, Ensures total kept given (scope.nested rule) fun _ ↦ given)
    {parser parser' : Parser α} (h : Alike scope other parser parser') :
    Ensures total kept given parser fun _ ↦ given := by
  induction h with
  | elementary h =>
    cases h with
    | look view => exact (Ensures.look view).weaken (fun _ h ↦ h) fun _ _ h ↦ h.1
    | advance => exact .advance_to fun cursor _ ↦ hadvance cursor
    | check kind => exact (Ensures.check kind).weaken (fun _ h ↦ h) fun _ _ h ↦ h.1
    | checkAny kinds => exact (Ensures.checkAny kinds).weaken (fun _ h ↦ h) fun _ _ h ↦ h.1
    | consume kind => exact .consume_to (fun cursor _ _ ↦ hadvance cursor) fun _ _ h ↦ h
    | consumeAny kinds => exact .consumeAny_to (fun cursor _ _ ↦ hadvance cursor) fun _ _ h ↦ h
    | expecting kinds => exact .expecting kinds
    | expect kind => exact .expect_to fun cursor _ _ ↦ hadvance cursor
    | fail cause _ => exact .fail cause
    | failMissing what kinds => exact .failMissing what kinds
  | pure value => exact .pure fun _ h ↦ h
  | bind _ _ ih ihnext => exact ih.bind ihnext
  | iterate _ _ value ih => exact .iterate_keeps ih value
  | attempt title _ ih => exact .attempt hkept title ih
  | lookahead _ ih => exact .lookahead ih
  | either title _ _ _ _ ih ihnext ihsecond ihrest =>
    exact .either hkept title ih ihnext ihsecond ihrest
  | nested rule => exact hscope rule

end Parser

end CorpusQuery
