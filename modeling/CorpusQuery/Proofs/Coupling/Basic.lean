import CorpusQuery.Proofs.Nesting.Limit
import CorpusQuery.Proofs.Spelling.Wording

/-!
Two parses side by side. A `Coupling` says when two sessions stand at corresponding places and when
two failures correspond, and how much of an offset is told apart. `Parser.Coupled` says of two
parsers that from corresponding sessions on they return corresponding values or fail with
corresponding failures, unless the first parse escapes: it meets the nesting limit, or it goes past
a horizon, behind which the second parse may differ. Escapes are final. Coupled parsers compose
along the constructions of the grammar, so a coupling of the places is all that a comparison of two
parses needs.

What the grammar sees of a place is fixed once and for all (`Place.SeenAs`): the token at hand, the
kinds of the next two tokens, whether these touch, and what the token just passed allows.
-/

set_option autoImplicit false
set_option relaxedAutoImplicit false

namespace CorpusQuery

open CorpusQuery.Grammar

/-! ### Offsets told apart -/

/-- A span in which only so much is left of the offsets as a function tells apart. -/
def Span.blurred (blur : Nat → Nat) (span : Span) : Span := ⟨blur span.start, blur span.stop⟩

namespace Tree

variable {blur : Nat → Nat}

/-- Blurs the spans of every phrase of a tree. -/
def blurred (blur : Nat → Nat) : {role : Role} → Tree role → Tree role
  | _, .phrase form span parts => .phrase form (span.blurred blur) (parts.blurred blur)
  | _, .nil => .nil
  | _, .one part rest => .one (part.blurred blur) (rest.blurred blur)
  | _, .absent rest => .absent (rest.blurred blur)
  | _, .present part rest => .present (part.blurred blur) (rest.blurred blur)
  | _, .done rest => .done (rest.blurred blur)
  | _, .more part rest => .more (part.blurred blur) (rest.blurred blur)

theorem blurred_zero {role : Role} (tree : Tree role) : tree.blurred (fun _ ↦ 0) = tree.bare := by
  induction tree with
  | phrase form span parts ih =>
    rw [blurred, bare, ih]
    rfl
  | nil => rfl
  | one part rest ihpart ihrest => rw [blurred, bare, ihpart, ihrest]
  | absent rest ih => rw [blurred, bare, ih]
  | present part rest ihpart ihrest => rw [blurred, bare, ihpart, ihrest]
  | done rest ih => rw [blurred, bare, ih]
  | more part rest ihpart ihrest => rw [blurred, bare, ihpart, ihrest]

section

variable {field : String} {category : Category} {slots : List Slot}

theorem blurred_optional (part? : Option (Phrase category)) (rest : Parts slots) :
    (optional part? rest : Parts (.optional field category :: slots)).blurred blur =
      optional (part?.map (blurred blur)) (rest.blurred blur) := by
  cases part? <;> rfl

theorem blurred_many (parts : List (Phrase category)) (rest : Parts slots) :
    (many parts rest : Parts (.many field category :: slots)).blurred blur =
      many (parts.map (blurred blur)) (rest.blurred blur) := by
  induction parts with
  | nil => rfl
  | cons part parts ih => exact congrArg (Tree.more _) ih

/-- Blurred phrases start where the same is left of their starts. -/
theorem start_eq_of_blurred_eq {phrase other : Phrase category}
    (h : phrase.blurred blur = other.blurred blur) :
    blur phrase.span.start = blur other.span.start := by
  have hspan := congrArg Phrase.span h
  cases phrase
  cases other
  exact congrArg Span.start hspan

theorem form_eq_of_blurred_eq {phrase other : Phrase category}
    (h : phrase.blurred blur = other.blurred blur) : phrase.form = other.form := by
  have hform := congrArg Phrase.form h
  cases phrase
  cases other
  exact hform

end

end Tree

/-- Blurs the spans of the parts of a draft. -/
def Draft.blurred (blur : Nat → Nat) {category : Category} (draft : Draft category) :
    Draft category :=
  ⟨draft.form, draft.parts.blurred blur⟩

/-! ### What is seen of a place -/

/-- Two places that look the same to the grammar. Of the token at hand it sees the kind, and the
text if the kind has texts; of the next two tokens it sees the kinds, and whether they touch the
token before them. Whether the token at hand touches the one before it is only asked behind a token
that was passed. -/
structure Place.SeenAs (blur : Nat → Nat) (place other : Place) : Prop where
  kind : place.kind = other.kind
  text : place.kind.hasText = true → place.here.text = other.here.text
  next : place.peekKind 1 = other.peekKind 1
  second : place.peekKind 2 = other.peekKind 2
  touches : place.behind ≠ [] → place.touches 0 = other.touches 0
  touches_next : place.peekKind 1 ≠ .endOfInput → place.touches 1 = other.touches 1
  touches_second : place.peekKind 2 ≠ .endOfInput → place.touches 2 = other.touches 2
  follows : ∀ kinds : KindSet, kinds.contains (.keyword .find) = false →
    Continuation.follows place kinds = Continuation.follows other kinds
  start : blur place.here.span.start = blur other.here.span.start
  stop : blur place.previousStop = blur other.previousStop

namespace Place.SeenAs

variable {blur : Nat → Nat} {place other : Place}

theorem castAt?_eq (h : place.SeenAs blur other) : castAt? place = castAt? other := by
  rw [castAt?, castAt?, h.kind, h.next, h.second]

theorem dummyAt?_eq (h : place.SeenAs blur other) : dummyAt? place = dummyAt? other := by
  rw [dummyAt?, dummyAt?, h.kind, h.next, h.second]

theorem atEdgeEnd_eq (h : place.SeenAs blur other) : atEdgeEnd place = atEdgeEnd other := by
  have htouches := h.touches_next
  rw [atEdgeEnd, atEdgeEnd, h.kind]
  rw [h.next] at htouches ⊢
  cases hminus : other.peekKind 1 == .symbol .minus with
  | false => simp only [Bool.and_false, Bool.false_and]
  | true => rw [htouches (beq_iff_eq.mp hminus ▸ nofun)]

theorem atDecimal_eq (h : place.SeenAs blur other) : atDecimal place = atDecimal other := by
  have hnext := h.touches_next
  have hsecond := h.touches_second
  rw [atDecimal, atDecimal, h.kind]
  rw [h.next] at hnext ⊢
  rw [h.second] at hsecond ⊢
  cases hdot : other.peekKind 1 == .symbol .dot with
  | false => simp only [Bool.and_false, Bool.false_and]
  | true =>
    rw [hnext fun hend ↦ by cases (beq_iff_eq.mp hdot).symm.trans hend]
    cases hdigits : digitKinds.contains (other.peekKind 2) with
    | false => simp only [Bool.and_false, Bool.false_and]
    | true =>
      rw [hsecond]
      intro hend
      rw [hend] at hdigits
      cases hdigits

theorem at?_eq (h : place.SeenAs blur other) : Continuation.at? place = Continuation.at? other := by
  have hpredicate : Continuation.atSetPredicate place = Continuation.atSetPredicate other := by
    have hpeek : ∀ count, count ≤ 2 → place.peekKind count = other.peekKind count := by
      intro count hcount
      match count, hcount with
      | 0, _ =>
        have hkind (place : Place) : place.peekKind 0 = place.kind :=
          congrArg Token.kind (along_zero _ _)
        rw [hkind, hkind, h.kind]
      | 1, _ => exact h.next
      | 2, _ => exact h.second
    simp only [Continuation.atSetPredicate, h.kind]
    split
    · rw [hpeek 1 (by omega)]
      split
      · rw [hpeek 2 (by omega)]
      · rw [hpeek 1 (by omega)]
    · rw [hpeek 0 (by omega)]
      split
      · rw [hpeek 1 (by omega)]
      · rw [hpeek 0 (by omega)]
  rw [Continuation.at?, Continuation.at?, hpredicate, h.kind, h.follows _ rfl, h.follows _ rfl,
    h.follows _ rfl]

end Place.SeenAs

/-! ### Couplings -/

/-- How two parses correspond. -/
structure Coupling where
  /-- What is told apart of an offset. -/
  blur : Nat → Nat
  sessions : Session → Session → Prop
  failures : Failure → Failure → Prop
  /-- The first parse has met the nesting limit, and it is no longer followed. -/
  spent : Option Failure → Prop
  /-- The place is behind the horizon of the first parse. -/
  past : Place → Prop
  /-- The failure is about a token behind the horizon. -/
  beyond : Failure → Prop

namespace Coupling

variable (c : Coupling) {α β : Type}

/-- What a coupling has to keep. -/
structure Lawful : Prop where
  blur_max : ∀ {first first' second second'}, c.blur first = c.blur first' →
    c.blur second = c.blur second' → c.blur (max first second) = c.blur (max first' second')
  sees : ∀ {session copy}, c.sessions session copy →
    session.cursor.toPlace.SeenAs c.blur copy.cursor.toPlace
  closed : ∀ {session copy}, c.sessions session copy → session.cursor.Closed ∧ copy.cursor.Closed
  tested : ∀ {session copy} kinds, c.sessions session copy →
    c.sessions (session.tested kinds) (copy.tested kinds)
  traced : ∀ {session copy : Session} events events', c.sessions session copy →
    c.sessions { session with events := events } { copy with events := events' }
  passed : ∀ {session copy}, c.sessions session copy →
    c.past session.passed.cursor.toPlace ∨ c.sessions session.passed copy.passed
  rewound : ∀ {session copy after after'} title depth depth', c.sessions session copy →
    c.sessions after after' →
      c.sessions (Parser.rewound title depth session after)
        (Parser.rewound title depth' copy after')
  answered : ∀ {session copy after after'}, c.sessions session copy → c.sessions after after' →
    c.sessions (Parser.answered session after) (Parser.answered copy after')
  fail : ∀ {session copy} cause, c.sessions session copy →
    c.failures (session.cursor.failure cause) (copy.cursor.failure cause)
  exhausted : ∀ {failure failure' other other'}, c.failures failure failure' →
    c.failures other other' → c.failures (other.exhausted [failure]) (other'.exhausted [failure'])
  past_passed : ∀ session : Session, c.past session.cursor.toPlace →
    c.past session.passed.cursor.toPlace
  beyond_fail : ∀ (session : Session) cause, c.past session.cursor.toPlace →
    c.beyond (session.cursor.failure cause)
  beyond_exhausted : ∀ {failure other : Failure}, c.beyond failure ∨ c.beyond other →
    c.beyond (other.exhausted [failure])

/-- A run that ends behind the horizon. -/
def Ahead : EStateM.Result Failure Session α → Prop
  | .ok _ after => c.past after.cursor.toPlace
  | .error failure _ => c.beyond failure

/-- The session in which a run ends. -/
def final : EStateM.Result Failure Session α → Session
  | .ok _ after => after
  | .error _ after => after

/-- A run that is not followed to its end. -/
def Escapes (result : EStateM.Result Failure Session α) : Prop :=
  c.spent (final result).overflow ∨ c.Ahead result

/-- Two runs that end alike. -/
inductive Agrees (view : α → β) :
    EStateM.Result Failure Session α → EStateM.Result Failure Session α → Prop
  | ok {value value' : α} {after after' : Session} (hvalue : view value = view value')
      (hafter : c.sessions after after') : Agrees view (.ok value after) (.ok value' after')
  | error {failure failure' : Failure} {after after' : Session}
      (hfailure : c.failures failure failure') (hafter : c.sessions after after') :
      Agrees view (.error failure after) (.error failure' after')

end Coupling

/-- Behind a token that is not the end there is a token that was passed. -/
theorem Session.behind_passed_ne_nil {session : Session}
    (hclosed : session.cursor.Closed) (hkind : session.cursor.kind ≠ .endOfInput) :
    session.passed.cursor.behind ≠ [] := by
  have hlt : session.cursor.behind.length < session.passed.cursor.behind.length :=
    Cursor.position_lt_advance hclosed hkind
  exact List.ne_nil_of_length_pos (Nat.zero_lt_of_lt hlt)

namespace Parser

variable {α β γ δ ε : Type} {c : Coupling}

/-- From corresponding sessions on, of which the first stands at a place as given, the parsers end
alike, unless the first one escapes. Once it has escaped, it stays away. -/
structure Coupled (c : Coupling) (given : Place → Prop) (view : α → δ) (parser parser' : Parser α) :
    Prop where
  sticky : ∀ session, c.spent session.overflow → c.spent (Coupling.final (parser session)).overflow
  forward : ∀ session, c.past session.cursor.toPlace → c.Ahead (parser session)
  follows : ∀ session copy, c.sessions session copy → given session.cursor.toPlace →
    c.Escapes (parser session) ∨ c.Agrees view (parser session) (parser' copy)

/-- Every place will do. -/
abbrev Anywhere (_ : Place) : Prop := True

namespace Coupled

variable {given : Place → Prop} {view : α → δ} {view' : β → ε}

/-- A parser that has escaped before another one is run escapes with it. -/
theorem escapes {parser parser' : Parser α} (h : Coupled c given view parser parser')
    {session : Session} (hescaped : c.spent session.overflow ∨ c.past session.cursor.toPlace) :
    c.Escapes (parser session) :=
  hescaped.imp (h.sticky session) (h.forward session)

theorem when {given' : Place → Prop} {parser parser' : Parser α}
    (h : Coupled c given view parser parser') (hgiven : ∀ place, given' place → given place) :
    Coupled c given' view parser parser' :=
  ⟨h.sticky, h.forward, fun session copy hsessions hplace ↦
    h.follows session copy hsessions (hgiven _ hplace)⟩

/-- A parser that is coupled anywhere is coupled where something is given. -/
theorem anywhere {parser parser' : Parser α} (h : Coupled c Anywhere view parser parser') :
    Coupled c given view parser parser' :=
  h.when fun _ _ ↦ trivial

theorem weaken (view : α → δ) {view' : α → ε} {parser parser' : Parser α}
    (h : Coupled c given view parser parser')
    (hview : ∀ value value', view value = view value' → view' value = view' value') :
    Coupled c given view' parser parser' := by
  refine ⟨h.sticky, h.forward, fun session copy hsessions hplace ↦ ?_⟩
  refine (h.follows session copy hsessions hplace).imp_right fun hagrees ↦ ?_
  generalize parser session = result, parser' copy = result' at hagrees
  cases hagrees with
  | ok hvalue hafter => exact .ok (hview _ _ hvalue) hafter
  | error hfailure hafter => exact .error hfailure hafter

/-! ### Sequence -/

theorem pure {value value' : α} (hview : view value = view value') :
    Coupled c given view (pure value) (pure value') where
  sticky _ hspent := hspent
  forward _ hpast := hpast
  follows _ _ hsessions _ := .inr (.ok hview hsessions)

/-- What follows a run that escapes, or that ends alike in both parses. -/
theorem bind_of_run {parser parser' : Parser α} {next next' : α → Parser β}
    {session copy : Session} {given' : α → Place → Prop}
    (hnext : ∀ value value', view value = view value' →
      Coupled c (given' value) view' (next value) (next' value'))
    (hgiven : ∀ value after, parser session = .ok value after → given' value after.cursor.toPlace)
    (h : c.Escapes (parser session) ∨ c.Agrees view (parser session) (parser' copy)) :
    c.Escapes ((parser >>= next) session) ∨
      c.Agrees view' ((parser >>= next) session) ((parser' >>= next') copy) := by
  cases hrun : parser session with
  | ok value after =>
    rw [bind_of_ok hrun]
    rw [hrun] at h
    rcases h with hescapes | hagrees
    · exact .inl ((hnext value value rfl).escapes hescapes)
    · cases hrun' : parser' copy with
      | ok value' after' =>
        rw [hrun'] at hagrees
        rw [bind_of_ok hrun']
        cases hagrees with
        | ok hvalue hafter =>
          exact (hnext value value' hvalue).follows after after' hafter (hgiven value after hrun)
      | error failure' after' =>
        rw [hrun'] at hagrees
        cases hagrees
  | error failure after =>
    rw [bind_of_error hrun]
    rw [hrun] at h
    rcases h with hescapes | hagrees
    · exact .inl hescapes
    · cases hrun' : parser' copy with
      | ok value' after' =>
        rw [hrun'] at hagrees
        cases hagrees
      | error failure' after' =>
        rw [hrun'] at hagrees
        rw [bind_of_error hrun']
        cases hagrees with
        | error hfailure hafter => exact .inr (.error hfailure hafter)

theorem bind_keeps {parser : Parser α} {next : α → Parser β} {session : Session}
    (kept : Session → Prop) (kept' : EStateM.Result Failure Session β → Prop)
    (hok : ∀ value after, parser session = .ok value after → kept after)
    (herror : ∀ failure after, parser session = .error failure after → kept' (.error failure after))
    (hnext : ∀ value after, kept after → kept' (next value after)) :
    kept' ((parser >>= next) session) := by
  cases hrun : parser session with
  | ok value after =>
    rw [bind_of_ok hrun]
    exact hnext value after (hok value after hrun)
  | error failure after =>
    rw [bind_of_error hrun]
    exact herror failure after hrun

/-- A parser and what follows it, where something is known of the place between them. -/
theorem bind_given {parser parser' : Parser α} {next next' : α → Parser β}
    (h : Coupled c given view parser parser') (given' : α → Place → Prop)
    (hgiven : ∀ session copy value after, c.sessions session copy → given session.cursor.toPlace →
      parser session = .ok value after → given' value after.cursor.toPlace)
    (hnext : ∀ value value', view value = view value' →
      Coupled c (given' value) view' (next value) (next' value')) :
    Coupled c given view' (parser >>= next) (parser' >>= next') where
  sticky session hspent := by
    have hsticky := h.sticky session hspent
    refine bind_keeps (fun after ↦ c.spent after.overflow)
      (fun result ↦ c.spent (Coupling.final result).overflow) (fun value after hrun ↦ ?_)
      (fun failure after hrun ↦ ?_)
      fun value after hspent ↦ (hnext value value rfl).sticky after hspent
    all_goals
      rw [hrun] at hsticky
      exact hsticky
  forward session hpast := by
    have hforward := h.forward session hpast
    refine bind_keeps (fun after ↦ c.past after.cursor.toPlace) c.Ahead
      (fun value after hrun ↦ ?_) (fun failure after hrun ↦ ?_)
      fun value after hpast ↦ (hnext value value rfl).forward after hpast
    all_goals
      rw [hrun] at hforward
      exact hforward
  follows session copy hsessions hplace :=
    bind_of_run hnext (fun value after ↦ hgiven session copy value after hsessions hplace)
      (h.follows session copy hsessions hplace)

theorem bind {parser parser' : Parser α} {next next' : α → Parser β}
    (h : Coupled c given view parser parser')
    (hnext : ∀ value value', view value = view value' →
      Coupled c Anywhere view' (next value) (next' value')) :
    Coupled c given view' (parser >>= next) (parser' >>= next') :=
  h.bind_given (fun _ ↦ Anywhere) (fun _ _ _ _ _ _ _ ↦ trivial) hnext

/-- A value that is the same in both parses. -/
theorem bind_same {parser parser' : Parser α} {next next' : α → Parser β}
    (h : Coupled c given id parser parser')
    (hnext : ∀ value, Coupled c Anywhere view' (next value) (next' value)) :
    Coupled c given view' (parser >>= next) (parser' >>= next') :=
  h.bind fun value value' (hvalue : value = value') ↦ hvalue ▸ hnext value

theorem map {f : α → β} {parser parser' : Parser α} (view : α → δ)
    (h : Coupled c given view parser parser')
    (hview : ∀ value value', view value = view value' → view' (f value) = view' (f value')) :
    Coupled c given view' (f <$> parser) (f <$> parser') := by
  rw [map_eq_pure_bind, map_eq_pure_bind]
  exact h.bind fun value value' hvalue ↦ .pure (hview value value' hvalue)

theorem ite {condition : Prop} [Decidable condition] {yes yes' no no' : Parser α}
    (hyes : Coupled c given view yes yes') (hno : Coupled c given view no no') :
    Coupled c given view (if condition then yes else no) (if condition then yes' else no') := by
  split
  · exact hyes
  · exact hno

/-! ### Looking -/

section Looking

variable (hc : c.Lawful) {kind : Kind} {kinds : KindSet}

include hc

theorem look (view : α → δ) {see : Place → α}
    (hsee : ∀ place other : Place, given place → place.SeenAs c.blur other →
      view (see place) = view (see other)) :
    Coupled c given view (Parser.look see) (Parser.look see) where
  sticky _ hspent := hspent
  forward _ hpast := hpast
  follows _ _ hsessions hplace := .inr (.ok (hsee _ _ hplace (hc.sees hsessions)) hsessions)

/-- What is seen of the place is known behind the look. -/
theorem look_then {see : Place → α}
    (hsee : ∀ place other : Place, given place → place.SeenAs c.blur other → see place = see other)
    {next next' : α → Parser β}
    (hnext : ∀ value, Coupled c (fun place ↦ given place ∧ see place = value) view' (next value)
      (next' value)) :
    Coupled c given view' (Parser.look see >>= next) (Parser.look see >>= next') := by
  refine (look hc id hsee).bind_given
    (fun value place ↦ given place ∧ see place = value) ?_ ?_
  · intro session copy value after _ hplace hrun
    cases hrun
    exact ⟨hplace, rfl⟩
  · rintro value _ rfl
    exact hnext value

theorem check : Coupled c given id (Parser.check kind) (Parser.check kind) where
  sticky _ hspent := hspent
  forward _ hpast := hpast
  follows session copy hsessions _ := by
    have hkind : (session.cursor.kind == kind) = (copy.cursor.kind == kind) := by
      rw [(hc.sees hsessions).kind]
    exact .inr (.ok hkind (hc.tested (.single kind) hsessions))

theorem checkAny : Coupled c given id (Parser.checkAny kinds) (Parser.checkAny kinds) where
  sticky _ hspent := hspent
  forward _ hpast := hpast
  follows session copy hsessions _ := by
    have hkind : kinds.contains session.cursor.kind = kinds.contains copy.cursor.kind := by
      rw [(hc.sees hsessions).kind]
    exact .inr (.ok hkind (hc.tested kinds hsessions))

/-- What was tested is known behind the test. -/
theorem check_then {next next' : Bool → Parser β}
    (hnext : ∀ found, Coupled c (fun place ↦ given place ∧ (place.kind == kind) = found) view'
      (next found) (next' found)) :
    Coupled c given view' (Parser.check kind >>= next) (Parser.check kind >>= next') := by
  refine (check hc).bind_given
    (fun found place ↦ given place ∧ (place.kind == kind) = found) ?_ ?_
  · intro session copy found after _ hplace hrun
    cases hrun
    exact ⟨hplace, rfl⟩
  · rintro found _ rfl
    exact hnext found

theorem checkAny_then {next next' : Bool → Parser β}
    (hnext : ∀ found, Coupled c (fun place ↦ given place ∧ kinds.contains place.kind = found) view'
      (next found) (next' found)) :
    Coupled c given view' (Parser.checkAny kinds >>= next) (Parser.checkAny kinds >>= next') := by
  refine (checkAny hc).bind_given
    (fun found place ↦ given place ∧ kinds.contains place.kind = found) ?_ ?_
  · intro session copy found after _ hplace hrun
    cases hrun
    exact ⟨hplace, rfl⟩
  · rintro found _ rfl
    exact hnext found

theorem expecting_then {next next' : Parser β} (hnext : Coupled c given view' next next') :
    Coupled c given view' (Parser.expecting kinds >>= fun _ ↦ next)
      (Parser.expecting kinds >>= fun _ ↦ next') where
  sticky session hspent := hnext.sticky (session.tested kinds) hspent
  forward session hpast := hnext.forward (session.tested kinds) hpast
  follows _ _ hsessions hplace := hnext.follows _ _ (hc.tested kinds hsessions) hplace

/-! ### Passing tokens -/

/-- A token of a kind that has texts is passed, and its text is the same in both parses. -/
theorem advance_text (hgiven : ∀ place, given place → place.kind.hasText = true) :
    Coupled c given Token.text Parser.advance Parser.advance where
  sticky _ hspent := hspent
  forward session hpast := hc.past_passed session hpast
  follows _ _ hsessions hplace :=
    (hc.passed hsessions).imp .inr (.ok ((hc.sees hsessions).text (hgiven _ hplace)))

theorem advance : Coupled c given (fun _ ↦ ()) Parser.advance Parser.advance where
  sticky _ hspent := hspent
  forward session hpast := hc.past_passed session hpast
  follows _ _ hsessions _ := (hc.passed hsessions).imp .inr (.ok rfl)

theorem consume : Coupled c given id (Parser.consume kind) (Parser.consume kind) where
  sticky session hspent := by
    by_cases hkind : session.cursor.kind = kind
    · rwa [consume_of_kind hkind]
    · rwa [consume_of_ne hkind]
  forward session hpast := by
    by_cases hkind : session.cursor.kind = kind
    · rw [consume_of_kind hkind]
      exact hc.past_passed (session.tested (.single kind)) hpast
    · rwa [consume_of_ne hkind]
  follows session copy hsessions _ := by
    have htested := hc.tested (.single kind) hsessions
    have hsame := (hc.sees hsessions).kind
    by_cases hkind : session.cursor.kind = kind
    · rw [consume_of_kind hkind, consume_of_kind (hsame.symm.trans hkind)]
      exact (hc.passed htested).imp .inr (.ok rfl)
    · rw [consume_of_ne hkind, consume_of_ne (fun h ↦ hkind (hsame.trans h))]
      exact .inr (.ok rfl htested)

theorem consumeAny (hkinds : ∀ kind, kinds.contains kind = true → kind.hasText = true) :
    Coupled c given (Option.map Token.text) (Parser.consumeAny kinds)
      (Parser.consumeAny kinds) where
  sticky session hspent := by
    cases hkind : kinds.contains session.cursor.kind with
    | true => rwa [consumeAny_of_contains hkind]
    | false => rwa [consumeAny_of_not_contains hkind]
  forward session hpast := by
    cases hkind : kinds.contains session.cursor.kind with
    | true =>
      rw [consumeAny_of_contains hkind]
      exact hc.past_passed (session.tested kinds) hpast
    | false => rwa [consumeAny_of_not_contains hkind]
  follows session copy hsessions _ := by
    have htested := hc.tested kinds hsessions
    have hsees := hc.sees hsessions
    cases hkind : kinds.contains session.cursor.kind with
    | true =>
      rw [consumeAny_of_contains hkind, consumeAny_of_contains (hsees.kind ▸ hkind)]
      exact (hc.passed htested).imp .inr (.ok (congrArg some (hsees.text (hkinds _ hkind))))
    | false =>
      rw [consumeAny_of_not_contains hkind, consumeAny_of_not_contains (hsees.kind ▸ hkind)]
      exact .inr (.ok rfl htested)

theorem oneOf {table : List (Kind × α)} : Coupled c given id (Parser.oneOf table)
    (Parser.oneOf table) where
  sticky session hspent := by
    cases hlookup : table.lookup session.cursor.kind with
    | some value => rwa [oneOf_of_lookup hlookup]
    | none => rwa [oneOf_of_lookup_none hlookup]
  forward session hpast := by
    cases hlookup : table.lookup session.cursor.kind with
    | some value =>
      rw [oneOf_of_lookup hlookup]
      exact hc.past_passed (session.tested _) hpast
    | none => rwa [oneOf_of_lookup_none hlookup]
  follows session copy hsessions _ := by
    have htested := hc.tested (.ofKeys table) hsessions
    have hsame := (hc.sees hsessions).kind
    cases hlookup : table.lookup session.cursor.kind with
    | some value =>
      rw [oneOf_of_lookup hlookup, oneOf_of_lookup (hsame ▸ hlookup)]
      exact (hc.passed htested).imp .inr (.ok rfl)
    | none =>
      rw [oneOf_of_lookup_none hlookup, oneOf_of_lookup_none (hsame ▸ hlookup)]
      exact .inr (.ok rfl htested)

/-- A token is demanded, and its text is the same in both parses if the kind has texts. -/
theorem expect_any : Coupled c given (fun token : Token ↦ if kind.hasText then token.text else "")
    (Parser.expect kind) (Parser.expect kind) where
  sticky session hspent := by
    by_cases hkind : session.cursor.kind = kind
    · rwa [expect_of_kind hkind]
    · rwa [expect_of_ne hkind]
  forward session hpast := by
    by_cases hkind : session.cursor.kind = kind
    · rw [expect_of_kind hkind]
      exact hc.past_passed (session.tested (.single kind)) hpast
    · rw [expect_of_ne hkind]
      exact hc.beyond_fail (session.tested (.single kind)) _ hpast
  follows session copy hsessions _ := by
    have htested := hc.tested (.single kind) hsessions
    have hsees := hc.sees hsessions
    by_cases hkind : session.cursor.kind = kind
    · rw [expect_of_kind hkind, expect_of_kind (hsees.kind.symm.trans hkind)]
      refine (hc.passed htested).imp .inr (.ok ?_)
      cases htext : kind.hasText with
      | true => simpa using hsees.text (hkind ▸ htext)
      | false => simp
    · rw [expect_of_ne hkind, expect_of_ne (fun h ↦ hkind (hsees.kind.trans h))]
      exact .inr (.error (hc.fail .unexpected htested) htested)

theorem expect_text (hkind : kind.hasText = true) :
    Coupled c given Token.text (Parser.expect kind) (Parser.expect kind) :=
  (expect_any hc).weaken _ fun _ _ h ↦ by rwa [if_pos hkind, if_pos hkind] at h

theorem expect : Coupled c given (fun _ ↦ ()) (Parser.expect kind) (Parser.expect kind) :=
  (expect_any hc).weaken _ fun _ _ _ ↦ rfl

theorem fail {cause : Cause} :
    Coupled c given view (Parser.fail cause) (Parser.fail cause) where
  sticky _ hspent := hspent
  forward session hpast := hc.beyond_fail session cause hpast
  follows _ _ hsessions _ := .inr (.error (hc.fail cause hsessions) hsessions)

theorem failMissing {what : String} :
    Coupled c given view (Parser.failMissing what kinds) (Parser.failMissing what kinds) where
  sticky _ hspent := hspent
  forward session hpast := hc.beyond_fail (session.tested kinds) _ hpast
  follows _ _ hsessions _ := by
    have htested := hc.tested kinds hsessions
    exact .inr (.error (hc.fail (.missing what) htested) htested)

/-- A token is demanded, and behind it there is a token that was passed. -/
theorem expect_then (hkind : kind ≠ .endOfInput) {next next' : Token → Parser β}
    (hnext : ∀ token token', Coupled c (fun place ↦ place.behind ≠ []) view' (next token)
      (next' token')) :
    Coupled c given view' (Parser.expect kind >>= next) (Parser.expect kind >>= next') := by
  refine (expect hc).bind_given (fun _ place ↦ place.behind ≠ []) ?_
    fun token token' _ ↦ hnext token token'
  intro session copy token after hsessions _ hrun
  by_cases h : session.cursor.kind = kind
  · rw [expect_of_kind h] at hrun
    cases hrun
    have hclosed : (session.tested (.single kind)).cursor.Closed := (hc.closed hsessions).1
    exact Session.behind_passed_ne_nil hclosed fun heq ↦ hkind (h.symm.trans heq)
  · rw [expect_of_ne h] at hrun
    cases hrun

/-- A token may be passed for which a table has an entry, and then there is a token that was
passed. -/
theorem oneOf_then {table : List (Kind × α)}
    (htable : (KindSet.ofKeys table).contains .endOfInput = false)
    {next next' : Option α → Parser β}
    (hnone : Coupled c Anywhere view' (next none) (next' none))
    (hsome : ∀ value, Coupled c (fun place ↦ place.behind ≠ []) view' (next (some value))
      (next' (some value))) :
    Coupled c given view' (Parser.oneOf table >>= next) (Parser.oneOf table >>= next') := by
  refine (oneOf hc).bind_given
    (fun value? place ↦ value?.isSome = true → place.behind ≠ []) ?_ ?_
  · intro session copy value? after hsessions _ hrun hsome
    cases hlookup : table.lookup session.cursor.kind with
    | some value =>
      rw [oneOf_of_lookup hlookup] at hrun
      cases hrun
      have hclosed : (session.tested (.ofKeys table)).cursor.Closed := (hc.closed hsessions).1
      refine Session.behind_passed_ne_nil hclosed fun hend ↦ ?_
      have hcontains := KindSet.contains_ofKeys table session.cursor.kind
      rw [hlookup, show session.cursor.kind = .endOfInput from hend, htable] at hcontains
      cases hcontains
    | none =>
      rw [oneOf_of_lookup_none hlookup] at hrun
      cases hrun
      cases hsome
  · rintro value? _ rfl
    cases value? with
    | none => exact hnone.anywhere
    | some value => exact (hsome value).when fun _ h ↦ h rfl

end Looking

end Coupled

end Parser

end CorpusQuery
