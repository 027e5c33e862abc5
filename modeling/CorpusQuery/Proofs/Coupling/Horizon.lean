import CorpusQuery.Proofs.Choice.Overtake
import CorpusQuery.Proofs.Coupling.Aloof

/-!
Failures come early. A parse that fails at a token, and not at its limit, has seen no more than the
two tokens behind that one: over every other list that agrees so far it fails in the same way
(`Entry.bounded_lookahead`). The horizon is the offending token. Up to it both lists look the same,
and what happens in the one parse behind it can only lead to a failure behind it, because a reading
that is given up never came further than the one kept in its place.
-/

set_option autoImplicit false
set_option relaxedAutoImplicit false

namespace CorpusQuery

open CorpusQuery.Parser CorpusQuery.Grammar

/-! ### Lists that agree up to a horizon -/

/-- Two token lists that agree up to the second token behind an index of the first one. -/
structure Token.Akin (tokens tokens' : List Token) (index : Nat) : Prop where
  stream : Stream tokens
  stream' : Stream tokens'
  index_le : index ≤ (Place.ofTokens tokens).ahead.length
  peek_eq : ∀ i ≤ index + 2, (Place.ofTokens tokens).peek i = (Place.ofTokens tokens').peek i

namespace Token.Akin

variable {tokens tokens' : List Token} {index : Nat} (h : Token.Akin tokens tokens' index)

include h

theorem agree {position : Nat} (hposition : position ≤ index) :
    Place.Abreast.Agree id (Place.ofTokens tokens) (Place.ofTokens tokens') 0 position where
  lexeme i hi := by rw [Nat.add_zero, h.peek_eq i (by omega)]
  touches i hi _ := by
    rw [h.peek_eq i (by omega), h.peek_eq (i + 1) (by omega)]
    rfl
  blurred i hi := by
    rw [Nat.add_zero, h.peek_eq i (by omega)]
    exact ⟨rfl, rfl⟩
  before _ hlt := absurd hlt (Nat.not_lt_zero _)

/-- Up to the horizon the two lists end together. -/
theorem ahead_nil_iff {place other : Place}
    (hplaces : Place.Abreast (.ofTokens tokens) (.ofTokens tokens') 0 place other)
    (hposition : place.position ≤ index) : place.ahead = [] ↔ other.ahead = [] := by
  have hend : ((Place.ofTokens tokens).peek place.position).kind = .endOfInput ↔ _ :=
    h.stream.kind_peek_iff
  have hend' : ((Place.ofTokens tokens').peek place.position).kind = .endOfInput ↔ _ :=
    h.stream'.kind_peek_iff
  rw [← h.peek_eq place.position (by omega), hend] at hend'
  have hlength := hplaces.begins.length_eq
  have hlength' := hplaces.begins_other.length_eq
  have hsame := hplaces.position_eq
  rw [← List.length_eq_zero_iff, ← List.length_eq_zero_iff]
  omega

end Token.Akin

/-! ### The coupling -/

namespace Coupling

/-- Sessions at the same index up to the horizon, and the same failures. -/
def horizon (start start' : Place) (index : Nat) : Coupling where
  blur := id
  sessions session copy := Session.Abreast start start' session copy ∧
    session.cursor.position ≤ index ∧ session.overflow = copy.overflow
  failures failure failure' := failure = failure'
  spent overflow := overflow ≠ none
  past place := ∀ token ∈ place.here :: place.ahead,
    (start.peek index).span.start < token.span.start
  beyond failure := (start.peek index).span.start < failure.token.span.start

variable {tokens tokens' : List Token} {index : Nat}

/-- A place with a greater index is behind the horizon. -/
theorem past_of_lt (hstream : Token.Stream tokens) {start' place : Place}
    (hbegins : (Place.ofTokens tokens).Begins place) (hlt : index < place.position) :
    (horizon (.ofTokens tokens) start' index).past place := by
  intro token htoken
  obtain ⟨found, hle, hlength, rfl⟩ := hbegins.exists_index htoken
  exact hstream.increasing.lt hstream.closed (Nat.lt_of_lt_of_le hlt hle) hlength

theorem lawful_horizon (h : Token.Akin tokens tokens' index) :
    (horizon (.ofTokens tokens) (.ofTokens tokens') index).Lawful where
  blur_max hfirst hsecond := congrArg₂ max hfirst hsecond
  sees hsessions := hsessions.1.place.seenAs (Place.ofTokens_closed _) (h.agree hsessions.2.1)
  closed hsessions := ⟨hsessions.1.place.begins.closed (Place.ofTokens_closed _),
    hsessions.1.place.begins_other.closed (Place.ofTokens_closed _)⟩
  tested kinds hsessions := ⟨hsessions.1.tested kinds, hsessions.2⟩
  traced _ _ hsessions := ⟨⟨hsessions.1.place, hsessions.1.expected_eq⟩, hsessions.2⟩
  passed {session copy} hsessions := by
    obtain ⟨habreast, hposition, hoverflow⟩ := hsessions
    by_cases hlt : index < session.passed.cursor.position
    · exact .inl (past_of_lt h.stream habreast.place.begins.advance hlt)
    · exact .inr ⟨habreast.passed (h.ahead_nil_iff habreast.place hposition),
        Nat.le_of_not_lt hlt, hoverflow⟩
  rewound title depth depth' hsessions hafter :=
    ⟨hsessions.1.rewound hafter.1 title depth depth', hsessions.2.1, hafter.2.2⟩
  answered hsessions hafter :=
    ⟨hsessions.1.answered hafter.1, hsessions.2.1, hafter.2.2⟩
  fail {session copy} cause hsessions := by
    obtain ⟨habreast, hposition, -⟩ := hsessions
    have hhere := habreast.place.begins.here_eq
    have hhere' := habreast.place.begins_other.here_eq
    rw [habreast.position_eq, ← h.peek_eq _ (by omega), ← hhere] at hhere'
    change (⟨_, _, _⟩ : Failure) = ⟨_, _, _⟩
    rw [hhere', habreast.expected_eq]
  exhausted hfailure hother := by
    change _ = _ at hfailure hother
    rw [hfailure, hother]
    rfl
  past_passed _ hpast := Session.forall_passed hpast
  beyond_fail _ _ hpast := hpast _ List.mem_cons_self
  beyond_exhausted hbeyond := Failure.le_start_exhausted hbeyond

/-! ### What is given up -/

/-- A reading that is overtaken by the one kept in its place never came further than that one. -/
theorem drops_of_overtakes (h : Token.Akin tokens tokens' index) {α β : Type} {first : Parser α}
    {second : Parser β} (hovertakes : Overtakes first second) :
    (horizon (.ofTokens tokens) (.ofTokens tokens') index).Drops first second := by
  intro title depth session copy failure after value last hsessions hrun hbeyond hagain
  obtain ⟨hbegins, found, hlt, htoken⟩ := hovertakes (.ofTokens tokens) session
    (rewound title depth session after) failure after value
    last (Place.ofTokens_closed _) hsessions.1.place.begins rfl hrun hagain
  refine past_of_lt h.stream hbegins (Nat.lt_of_not_le fun hle ↦ ?_)
  -- The token that the first reading failed at starts behind the horizon.
  have hindex : found < index := Nat.lt_of_lt_of_le hlt hle
  have hstart := h.stream.increasing.lt h.stream.closed hindex h.index_le
  change _ < failure.token.span.start at hbeyond
  rw [htoken] at hbeyond
  exact Nat.lt_asymm hstart hbeyond

theorem retreats_horizon (h : Token.Akin tokens tokens' index) (limit room : Nat) :
    (horizon (.ofTokens tokens) (.ofTokens tokens') index).Retreats (Rule.inside limit room) where
  marker := drops_of_overtakes h (overtakes_nodeContent limit room)
  constraint := drops_of_overtakes h (overtakes_onlyChildren limit room).attempt
  selection := drops_of_overtakes h (overtakes_structuralSelection limit room).attempt
  grouping _ _ hsessions hkind hahead :=
    escapes_grouping (lawful_horizon h) (fun _ ↦ .rfl)
      (fun failure failure' htoken hbeyond ↦ by
        change _ < failure'.token.span.start
        rwa [htoken]) limit room (Place.ofTokens_closed tokens)
      hsessions.1.place.begins hkind (.inr hahead)

theorem scopes_horizon (h : Token.Akin tokens tokens' index) (limit room : Nat) :
    (horizon (.ofTokens tokens) (.ofTokens tokens') index).Scopes (Rule.inside limit room)
      (Rule.inside limit room) :=
  scopes_inside (lawful_horizon h) (retreats_horizon h limit)
    (cutoff_of_spent (lawful_horizon h) (fun _ ↦ .rfl) limit limit 0) room

end Coupling

/-! ### Failures -/

namespace Entry

variable {entry : Entry} {limit : Nat} {tokens : List Token} {failure : Failure}

/-- A failure is about a token that the parse reads. -/
theorem token_mem_tokens {after : Session}
    (h : entry.complete (.top limit) (.ofTokens tokens) = .error failure after) :
    failure.token ∈ (Place.ofTokens tokens).tokens := by
  have haligned : Place.Aligned id (.ofTokens tokens) (.ofTokens tokens) 0 :=
    .refl (Place.ofTokens_closed tokens)
  have hlawful :
      (Coupling.aligned id (fun _ ↦ False) (.ofTokens tokens) (.ofTokens tokens) 0).Lawful :=
    Coupling.lawful_aligned (fun _ _ ↦ rfl) haligned
  have hscopes := Coupling.scopes_inside hlawful (fun _ ↦ .of_never (fun _ h ↦ h) (fun _ h ↦ h) _)
    (Coupling.cutoff_aligned (fun _ _ ↦ rfl) haligned limit) limit
  rw [Nat.add_zero, ← Scope.top_eq_inside] at hscopes
  have hfollows := (entry.coupled_complete hlawful hscopes).follows (.ofTokens tokens)
    (.ofTokens tokens) (Session.Abreast.start tokens tokens).place trivial
  rw [h] at hfollows
  cases hfollows.resolve_left (by rintro (h | h) <;> exact h) with
  | error hfailure _ => exact hfailure.1

/-- A failure is about a token of the list. -/
theorem token_mem_of_error {after : Session} (hclosed : Token.Closed tokens)
    (h : entry.complete (.top limit) (.ofTokens tokens) = .error failure after) :
    failure.token ∈ tokens := by
  rw [← Place.tokens_ofTokens hclosed]
  exact token_mem_tokens h

/-- A parse that fails without having met its limit ends with that failure. -/
theorem error_of_overflow_none (hfailure : (entry.parse limit tokens).outcome = .error failure)
    (h : entry.overflow? tokens limit = none) :
    ∃ after, entry.complete (.top limit) (.ofTokens tokens) = .error failure after ∧
      after.overflow = none := by
  rw [overflow?] at h
  rw [parse] at hfailure
  cases hrun : entry.complete (.top limit) (.ofTokens tokens) with
  | ok phrase after =>
    rw [leave_of_ok hrun] at h
    simp only [hrun, h] at hfailure
    cases hfailure
  | error other after =>
    rw [leave_of_error hrun] at h
    simp only [hrun, h, Option.getD_none, Except.error.injEq] at hfailure
    exact ⟨after, by rw [hfailure], h⟩

/-- A parse that fails for a reason in the tokens has not met its limit. -/
theorem error_of_message_ne (hfailure : (entry.parse limit tokens).outcome = .error failure)
    (hnesting : ∀ depth, failure.message ≠ nestingMessage depth) :
    ∃ after, entry.complete (.top limit) (.ofTokens tokens) = .error failure after ∧
      after.overflow = none := by
  have hoverflow : entry.overflow? tokens limit = none := by
    refine Option.eq_none_iff_forall_ne_some.mpr fun first hfirst ↦ ?_
    obtain ⟨houtcome, hcause⟩ := outcome_of_overflow hfirst
    obtain rfl : failure = first := Except.error.inj (hfailure.symm.trans houtcome)
    exact hnesting limit (Failure.message_of_nestingLimit hcause)
  exact error_of_overflow_none hfailure hoverflow

/-- A failure at a token, and not at the limit, depends on no more than the two tokens behind that
one: no other way in which the input goes on from there is ever read. -/
theorem bounded_lookahead (entry : Entry) (limit : Nat) {tokens : List Token} {failure : Failure}
    (h : Token.Stream tokens) (hfailure : (entry.parse limit tokens).outcome = .error failure)
    (hnesting : ∀ depth, failure.message ≠ nestingMessage depth) :
    ∃ index, tokens[index]? = some failure.token ∧ ∀ tokens' : List Token, Token.Stream tokens' →
      (∀ i ≤ index + 2, Token.read? tokens i = Token.read? tokens' i) →
        (entry.parse limit tokens').outcome = .error failure := by
  obtain ⟨after, hrun, hoverflow⟩ := error_of_message_ne hfailure hnesting
  obtain ⟨index, hindex, htoken⟩ := List.mem_iff_getElem.mp (token_mem_of_error h.closed hrun)
  refine ⟨index, by rw [List.getElem?_eq_getElem hindex, htoken], fun tokens' h' hread ↦ ?_⟩
  have hlength := Place.length_ofTokens h.closed
  have hakin : Token.Akin tokens tokens' index := by
    refine ⟨h, h', by omega, fun i hi ↦ ?_⟩
    have hsame := hread i hi
    rw [Place.read?_ofTokens h.closed, Place.read?_ofTokens h'.closed] at hsame
    exact Option.some.inj hsame
  have hscopes := Coupling.scopes_horizon hakin limit limit
  rw [← Scope.top_eq_inside] at hscopes
  have hstart : (Session.ofTokens tokens).cursor.position ≤ index := by
    change (Place.ofTokens tokens).behind.length ≤ index
    rw [(Place.begins_ofTokens tokens).behind_eq]
    exact Nat.zero_le _
  have hfollows := (entry.coupled_complete (Coupling.lawful_horizon hakin) hscopes).follows _ _
    ⟨.start tokens tokens', hstart, rfl⟩ trivial
  rw [hrun] at hfollows
  rcases hfollows with (hspent | hbeyond) | hagrees
  · exact absurd hoverflow hspent
  · -- The offending token itself is no further than the horizon.
    change _ < failure.token.span.start at hbeyond
    rw [Place.peek_ofTokens h.closed hindex, htoken] at hbeyond
    exact absurd hbeyond (Nat.lt_irrefl _)
  · generalize hrun' : entry.complete (.top limit) (.ofTokens tokens') = result' at hagrees
    cases hagrees with
    | @error _ failure' _ after' hsame hafter =>
      obtain rfl : failure = failure' := hsame
      simp only [parse, hrun', ← hafter.2.2, hoverflow, Option.getD_none]

/-- No expression begins with a comma, whatever follows the next two tokens. -/
theorem bounded_lookahead_of_comma :
    let short : List Token :=
      [⟨.symbol .comma, ",", ⟨0, 1⟩⟩, ⟨.identifier, "x", ⟨1, 2⟩⟩, ⟨.symbol .plus, "+", ⟨3, 4⟩⟩,
        .endAt 4]
    let long : List Token :=
      [⟨.symbol .comma, ",", ⟨0, 1⟩⟩, ⟨.identifier, "x", ⟨1, 2⟩⟩, ⟨.symbol .plus, "+", ⟨3, 4⟩⟩,
        ⟨.identifier, "y", ⟨5, 6⟩⟩, .endAt 6]
    Token.Stream short ∧ Token.Stream long ∧
      ∃ failure, (Entry.expression.parse 8 short).outcome = .error failure ∧
        (∀ depth, failure.message ≠ nestingMessage depth) ∧
          (Entry.expression.parse 8 long).outcome = .error failure := by
  intro short long
  have hshort : Token.Stream short := ⟨⟨by decide, by decide⟩, by decide⟩
  have hlong : Token.Stream long := ⟨⟨by decide, by decide⟩, by decide⟩
  let failure : Failure :=
    ⟨⟨.symbol .comma, ",", ⟨0, 1⟩⟩, ∅ ∪ expressionStart, .missing "an expression"⟩
  have hfailure : (Entry.expression.parse 8 short).outcome = .error failure := rfl
  have hnesting (depth : Nat) : failure.message ≠ nestingMessage depth :=
    Failure.message_ne_nestingMessage rfl depth
  obtain ⟨index, hindex, hsame⟩ := bounded_lookahead .expression 8 hshort hfailure hnesting
  refine ⟨hshort, hlong, _, hfailure, hnesting, hsame long hlong ?_⟩
  obtain rfl : index = 0 := by
    have hcomma : ∀ i < 4, (short[i]?.map Token.kind) = some (.symbol .comma) → i = 0 := by decide
    refine hcomma index (List.getElem?_eq_some_iff.mp hindex).1 ?_
    rw [hindex]
    rfl
  decide

end Entry

end CorpusQuery
