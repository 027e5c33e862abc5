import CorpusQuery.Proofs.Coupling.Index

/-!
Parsers that never pass a token. A parser `Stays` in a window of a token list if from a place in the
window it ends in the window and fails, if it fails, at a token no further than the last one of the
window. A parser stays as long as it never passes the last token, and for most operations that is
clear from the kind of that token alone.
-/

set_option autoImplicit false
set_option relaxedAutoImplicit false

namespace CorpusQuery

open CorpusQuery.Grammar

/-- A place in a window of the token list that begins at another one. -/
structure Place.Within (start : Place) (base last : Nat) (place : Place) : Prop where
  begins : start.Begins place
  base_le : base ≤ place.position
  le_last : place.position ≤ last

namespace Place.Within

variable {start place : Place} {base last : Nat}

/-- At a token of another kind than the last one of the window, the window goes on. -/
theorem lt_last (h : Within start base last place) (hkind : place.kind ≠ (start.peek last).kind) :
    place.position < last := by
  refine Nat.lt_of_le_of_ne h.le_last fun hlast ↦ hkind ?_
  rw [← hlast, ← h.begins.here_eq]
  rfl

theorem advance (cursor : Cursor) (h : Within start base last cursor.toPlace)
    (hlt : cursor.position < last) : Within start base last cursor.advance.toPlace := by
  refine ⟨h.begins.advance, Nat.le_trans h.base_le (Cursor.position_le_advance cursor), ?_⟩
  by_cases hahead : cursor.ahead = []
  · rw [Cursor.position_advance_of_nil hahead]
    exact h.le_last
  · rw [Cursor.position_advance_of_ne_nil hahead]
    exact hlt

end Place.Within

namespace Parser

variable {α β : Type}

/-- From a place of the window as given, the parser ends at one as promised or fails at a token no
further than the last one of the window. -/
def Stays (start : Place) (base last : Nat) (given : Place → Prop) (parser : Parser α)
    (promised : α → Place → Prop) : Prop :=
  ∀ session, Place.Within start base last session.cursor.toPlace → given session.cursor.toPlace →
    match parser session with
    | .ok value after =>
      Place.Within start base last after.cursor.toPlace ∧ promised value after.cursor.toPlace
    | .error failure _ => ∃ index ≤ last, failure.token = start.peek index

namespace Stays

variable {start : Place} {base last : Nat} {given : Place → Prop}

theorem ok {parser : Parser α} {promised : α → Place → Prop}
    (h : Stays start base last given parser promised) {session after : Session} {value : α}
    (hwithin : Place.Within start base last session.cursor.toPlace)
    (hgiven : given session.cursor.toPlace) (hrun : parser session = .ok value after) :
    Place.Within start base last after.cursor.toPlace ∧ promised value after.cursor.toPlace := by
  have hresult := h session hwithin hgiven
  rwa [hrun] at hresult

theorem error {parser : Parser α} {promised : α → Place → Prop}
    (h : Stays start base last given parser promised) {session after : Session} {failure : Failure}
    (hwithin : Place.Within start base last session.cursor.toPlace)
    (hgiven : given session.cursor.toPlace) (hrun : parser session = .error failure after) :
    ∃ index ≤ last, failure.token = start.peek index := by
  have hresult := h session hwithin hgiven
  rwa [hrun] at hresult

/-- The token at hand is one of the window. -/
theorem token_here {place : Place} (h : Place.Within start base last place) :
    ∃ index ≤ last, place.here = start.peek index :=
  ⟨_, h.le_last, h.begins.here_eq⟩

theorem weaken {given' : Place → Prop} {parser : Parser α} {promised promised' : α → Place → Prop}
    (h : Stays start base last given parser promised) (hgiven : ∀ place, given' place → given place)
    (hpromised : ∀ value place, promised value place → promised' value place) :
    Stays start base last given' parser promised' := by
  intro session hwithin hplace
  cases hrun : parser session with
  | ok value after => exact (h.ok hwithin (hgiven _ hplace) hrun).imp_right (hpromised _ _)
  | error failure after => exact h.error hwithin (hgiven _ hplace) hrun

/-- A parser that stays anywhere in the window stays where something is given. -/
theorem anywhere {parser : Parser α} (h : Stays start base last Anywhere parser fun _ ↦ Anywhere) :
    Stays start base last given parser fun _ ↦ Anywhere :=
  h.weaken (fun _ _ ↦ trivial) fun _ _ _ ↦ trivial

/-- That a place stands in the window is always given. -/
theorem inside {parser : Parser α} {promised : α → Place → Prop}
    (h : Stays start base last (fun place ↦ Place.Within start base last place ∧ given place) parser
      promised) : Stays start base last given parser promised :=
  fun session hwithin hplace ↦ h session hwithin ⟨hwithin, hplace⟩

/-- Where nothing stands as given, every parser stays. -/
theorem absurd {parser : Parser α} {promised : α → Place → Prop}
    (h : ∀ place, Place.Within start base last place → ¬ given place) :
    Stays start base last given parser promised :=
  fun _ hwithin hplace ↦ (h _ hwithin hplace).elim

/-! ### Sequence -/

theorem pure {promised : α → Place → Prop} {value : α}
    (h : ∀ place, given place → promised value place) :
    Stays start base last given (pure value) promised :=
  fun _ hwithin hplace ↦ ⟨hwithin, h _ hplace⟩

theorem done {value : α} : Stays start base last given (Pure.pure value) fun _ ↦ Anywhere :=
  .pure fun _ _ ↦ trivial

theorem bind {parser : Parser α} {next : α → Parser β} {between : α → Place → Prop}
    {promised : β → Place → Prop} (h : Stays start base last given parser between)
    (hnext : ∀ value, Stays start base last (between value) (next value) promised) :
    Stays start base last given (parser >>= next) promised := by
  intro session hwithin hplace
  cases hrun : parser session with
  | error failure after =>
    rw [bind_of_error hrun]
    exact h.error hwithin hplace hrun
  | ok value after =>
    rw [bind_of_ok hrun]
    obtain ⟨hafter, hbetween⟩ := h.ok hwithin hplace hrun
    exact hnext value after hafter hbetween

theorem map {f : α → β} {parser : Parser α}
    (h : Stays start base last given parser fun _ ↦ Anywhere) :
    Stays start base last given (f <$> parser) fun _ ↦ Anywhere := by
  rw [map_eq_pure_bind]
  exact h.bind fun _ ↦ .done

theorem ite {condition : Prop} [Decidable condition] {yes no : Parser α}
    {promised : α → Place → Prop} (hyes : condition → Stays start base last given yes promised)
    (hno : ¬ condition → Stays start base last given no promised) :
    Stays start base last given (if condition then yes else no) promised := by
  split
  · exact hyes ‹_›
  · exact hno ‹_›

/-! ### Tokens -/

theorem look {see : Place → α} :
    Stays start base last given (look see) fun value place ↦ given place ∧ see place = value :=
  fun _ hwithin hplace ↦ ⟨hwithin, hplace, rfl⟩

theorem check {kind : Kind} :
    Stays start base last given (check kind) fun found place ↦
      given place ∧ (place.kind == kind) = found :=
  fun _ hwithin hplace ↦ ⟨⟨hwithin.begins, hwithin.base_le, hwithin.le_last⟩, hplace, rfl⟩

theorem checkAny {kinds : KindSet} :
    Stays start base last given (checkAny kinds) fun _ ↦ Anywhere :=
  fun _ hwithin _ ↦ ⟨⟨hwithin.begins, hwithin.base_le, hwithin.le_last⟩, trivial⟩

theorem expecting {kinds : KindSet} :
    Stays start base last given (expecting kinds) fun _ ↦ given :=
  fun _ hwithin hplace ↦ ⟨⟨hwithin.begins, hwithin.base_le, hwithin.le_last⟩, hplace⟩

/-- A token of another kind than the last one of the window is passed. Behind it the kinds ahead are
seen one token further on. -/
theorem advance_seen (promised : Place → Prop)
    (hgiven : ∀ place, given place → place.kind ≠ (start.peek last).kind)
    (hpromised : ∀ place after, given place → after.kind = place.peekKind 1 →
      (∀ count, after.peekKind count = place.peekKind (count + 1)) → promised after) :
    Stays start base last given advance fun _ ↦ promised := by
  intro session hwithin hplace
  have hlt := hwithin.lt_last (hgiven _ hplace)
  exact ⟨hwithin.advance _ hlt, hpromised _ _ hplace session.kind_passed session.peekKind_passed⟩

theorem advance (hgiven : ∀ place, given place → place.kind ≠ (start.peek last).kind) :
    Stays start base last given advance fun _ ↦ Anywhere :=
  advance_seen _ hgiven fun _ _ _ _ _ ↦ trivial

theorem consume {kind : Kind} (hkind : kind ≠ (start.peek last).kind) :
    Stays start base last given (consume kind) fun _ ↦ Anywhere := by
  intro session hwithin hplace
  by_cases h : session.cursor.kind = kind
  · rw [consume_of_kind h]
    have hlt := hwithin.lt_last (h.symm ▸ hkind)
    exact ⟨hwithin.advance (session.tested (.single kind)).cursor hlt, trivial⟩
  · rw [consume_of_ne h]
    exact ⟨hwithin, trivial⟩

theorem consumeAny {kinds : KindSet} (hkinds : kinds.contains (start.peek last).kind = false) :
    Stays start base last given (consumeAny kinds) fun _ ↦ Anywhere := by
  intro session hwithin hplace
  cases h : kinds.contains session.cursor.kind with
  | true =>
    rw [consumeAny_of_contains h]
    have hlt : session.cursor.position < last := by
      refine hwithin.lt_last fun heq ↦ ?_
      rw [heq, hkinds] at h
      cases h
    exact ⟨hwithin.advance (session.tested kinds).cursor hlt, trivial⟩
  | false =>
    rw [consumeAny_of_not_contains h]
    exact ⟨hwithin, trivial⟩

theorem oneOf {table : List (Kind × α)}
    (htable : (KindSet.ofKeys table).contains (start.peek last).kind = false) :
    Stays start base last given (oneOf table) fun _ ↦ Anywhere := by
  refine (consumeAny htable).bind fun token? ↦ ?_
  cases token? <;> exact .done

theorem fail {promised : α → Place → Prop} {cause : Cause} :
    Stays start base last given (fail cause) promised :=
  fun _ hwithin _ ↦ token_here hwithin

theorem failMissing {promised : α → Place → Prop} {what : String} {kinds : KindSet} :
    Stays start base last given (failMissing what kinds) promised :=
  fun _ hwithin _ ↦ token_here hwithin

theorem expect {kind : Kind} (hkind : kind ≠ (start.peek last).kind) :
    Stays start base last given (expect kind) fun _ ↦ Anywhere := by
  intro session hwithin hplace
  by_cases h : session.cursor.kind = kind
  · rw [expect_of_kind h]
    have hlt := hwithin.lt_last (h.symm ▸ hkind)
    exact ⟨hwithin.advance (session.tested (.single kind)).cursor hlt, trivial⟩
  · rw [expect_of_ne h]
    exact token_here hwithin

/-! ### Phrases and repetition -/

theorem phraseFrom {category : Category} {from_ : Nat} {body : Parser (Draft category)}
    (h : Stays start base last given body fun _ ↦ Anywhere) :
    Stays start base last given (phraseFrom from_ body) fun _ ↦ Anywhere :=
  h.bind fun _ ↦ look.bind fun _ ↦ .done

theorem phrase {category : Category} {body : Parser (Draft category)}
    (h : Stays start base last given body fun _ ↦ Anywhere) :
    Stays start base last given (phrase body) fun _ ↦ Anywhere :=
  look.bind fun _ ↦ phraseFrom (h.weaken (fun _ h ↦ h.1) fun _ _ h ↦ h)

theorem behind {kind : Kind} (hkind : kind ≠ (start.peek last).kind) {body : Parser α}
    (h : Stays start base last Anywhere body fun _ ↦ Anywhere) :
    Stays start base last given (behind kind body) fun _ ↦ Anywhere :=
  (consume hkind).bind fun _ ↦ .ite (fun _ ↦ h.map) fun _ ↦ .done

theorem iterate {step : α → Parser (Option α)}
    (hstep : ∀ value, Stays start base last given (step value) fun _ ↦ given) (value : α) :
    Stays start base last given (iterate step value) fun _ ↦ given := by
  intro session
  induction value, session using iterate_induction step with
  | h value session ih =>
  intro hwithin hplace
  cases hrun : step value session with
  | error failure after =>
    rw [iterate_of_error hrun]
    exact (hstep value).error hwithin hplace hrun
  | ok next? after =>
    obtain ⟨hafter, hgiven⟩ := (hstep value).ok hwithin hplace hrun
    cases next? with
    | none =>
      rw [iterate_of_none hrun]
      exact ⟨hafter, hgiven⟩
    | some next =>
      by_cases hcloser : after.remaining < session.remaining
      · rw [iterate_of_closer hrun hcloser]
        exact ih next after hrun hcloser hafter hgiven
      · rw [iterate_of_not_closer hrun hcloser]
        exact ⟨hafter, hgiven⟩

theorem many {item : Parser (Option α)}
    (h : Stays start base last Anywhere item fun _ ↦ Anywhere) :
    Stays start base last given (many item) fun _ ↦ Anywhere := by
  refine ((iterate (fun items ↦ ?_) []).anywhere).bind fun _ ↦ .done
  exact h.bind fun _ ↦ .done

theorem separatedBy {kind : Kind} (hkind : kind ≠ (start.peek last).kind) {item : Parser α}
    (h : Stays start base last Anywhere item fun _ ↦ Anywhere) :
    Stays start base last given (separatedBy kind item) fun _ ↦ Anywhere :=
  h.anywhere.bind fun _ ↦ (many (behind hkind h)).bind fun _ ↦ .done

/-! ### Rules -/

theorem enter {title : String} {depth : Nat} {body : Parser α}
    (h : Stays start base last given body fun _ ↦ Anywhere) :
    Stays start base last given (enter title depth body) fun _ ↦ Anywhere := by
  intro session hwithin hplace
  have hentered : Place.Within start base last (entered title depth session).cursor.toPlace :=
    hwithin
  cases hrun : body (entered title depth session) with
  | ok value after =>
    rw [enter_of_ok hrun]
    exact ⟨(h.ok hentered hplace hrun).1, trivial⟩
  | error failure after =>
    rw [enter_of_error hrun]
    exact h.error hentered hplace hrun

theorem exceed {limit : Nat} :
    Stays start base last given (exceed limit : Parser α) fun _ ↦ Anywhere :=
  fun _ hwithin _ ↦ token_here hwithin

/-- A parser that moves forward has left the first place of the window behind. -/
theorem beyond_base {parser : Parser α}
    (hcloser : ∀ session value after, session.cursor.Closed → parser session = .ok value after →
      after.remaining < session.remaining) (hclosed : start.Closed)
    (h : Stays start base last given parser fun _ ↦ Anywhere) :
    Stays start base last given parser fun _ place ↦ base < place.position := by
  intro session hwithin hplace
  cases hrun : parser session with
  | error failure after => exact h.error hwithin hplace hrun
  | ok value after =>
    obtain ⟨hafter, -⟩ := h.ok hwithin hplace hrun
    have hlt := hcloser session value after (hwithin.begins.closed hclosed) hrun
    have hlength := hwithin.begins.length_eq
    have hlength' := hafter.begins.length_eq
    have hbase := hwithin.base_le
    rw [Session.remaining, Session.remaining] at hlt
    exact ⟨hafter, by omega⟩

/-- A window may begin later if the parser does. -/
theorem later {parser : Parser α} (h : Stays start (base + 1) last given parser fun _ ↦ Anywhere) :
    Stays start base last (fun place ↦ given place ∧ base < place.position) parser
      fun _ place ↦ base < place.position := by
  intro session hwithin hplace
  have hlater : Place.Within start (base + 1) last session.cursor.toPlace :=
    ⟨hwithin.begins, hplace.2, hwithin.le_last⟩
  cases hrun : parser session with
  | error failure after => exact h.error hlater hplace.1 hrun
  | ok value after =>
    obtain ⟨hafter, -⟩ := h.ok hlater hplace.1 hrun
    have hbase := hafter.base_le
    exact ⟨⟨hafter.begins, Nat.le_of_succ_le hbase, hafter.le_last⟩, hbase⟩

end Stays

end Parser

end CorpusQuery
