import CorpusQuery.Proofs.Acceptance.HonestRule
import CorpusQuery.Proofs.Choice.Target
import CorpusQuery.Proofs.Coupling.Horizon

/-!
What a failure lists as expected is accepted. For every kind that a failure lists there is a token
list that goes on with a token of that kind in place of the offending one and on which the parse
comes further (`Entry.expected_accepted`). The kind alone does not do everywhere: the type of a list
needs its bracket behind it, and a bang behind digits would be taken for the end of a count if no
`IN` followed. Left out are the kinds that are listed right behind a token like them, which are not
accepted there (`Kind.Repeats`).
-/

set_option autoImplicit false
set_option relaxedAutoImplicit false

namespace CorpusQuery

open CorpusQuery.Parser CorpusQuery.Grammar

/-- A second `OPTIONAL`, and a `<` or a pipe behind one of the two. -/
def Kind.Repeats (kind previous : Kind) : Prop :=
  kind = .keyword .optional ∧ previous = .keyword .optional ∨
    openers.contains kind = true ∧ openers.contains previous = true

instance (kind previous : Kind) : Decidable (kind.Repeats previous) :=
  inferInstanceAs (Decidable (_ ∨ _))

/-! ### Another way to go on -/

namespace Token

/-- A token of a kind without extent. -/
def bare (kind : Kind) (offset : Nat) : Token := ⟨kind, "", ⟨offset, offset⟩⟩

/-- Where a token starts that touches the last one of a list. -/
def stopOf (before : List Token) : Nat := before.getLast?.elim 0 (·.span.stop)

/-- What a token of a kind needs behind it. -/
def sequel (before : List Token) (kind : Kind) : List Kind :=
  if (KindSet.ofKeys valueTypes).contains kind then [.symbol .leftBracket]
  else if kind = .symbol .bang ∧ before.getLast?.any (digitKinds.contains ·.kind) then
    [.keyword .inKw]
  else []

/-- What stands behind a token of a kind, up to the end of the input. -/
def tail (before : List Token) (kind : Kind) (bound : Nat) : List Token :=
  if kind = .endOfInput then [] else (sequel before kind).map (bare · bound) ++ [.endAt bound]

/-- Goes on with a token of a kind that touches the token before it. -/
def redirect (before : List Token) (kind : Kind) (bound : Nat) : List Token :=
  before ++ bare kind (stopOf before) :: tail before kind bound

variable {before : List Token} {kind : Kind} {bound : Nat}

theorem start_of_mem_tail {token : Token} (h : token ∈ tail before kind bound) :
    token.span.start = bound := by
  rw [tail] at h
  split at h
  · cases h
  · rcases List.mem_append.mp h with h | h
    · obtain ⟨other, -, rfl⟩ := List.mem_map.mp h
      rfl
    · rw [List.mem_singleton.mp h]
      rfl

theorem closed_redirect : Closed (redirect before kind bound) := by
  rw [Closed, redirect, tail]
  split
  · rename_i hkind
    rw [List.getLast?_concat, hkind]
    rfl
  · rw [← List.cons_append, ← List.append_assoc, List.getLast?_concat]
    rfl

theorem length_redirect : (redirect before kind bound).length =
    before.length + ((tail before kind bound).length + 1) := by
  rw [redirect, List.length_append, List.length_cons]

theorem peek_redirect_of_lt {index : Nat} (h : index < before.length) :
    (Place.ofTokens (redirect before kind bound)).peek index = before[index] := by
  rw [Place.peek_ofTokens closed_redirect (by rw [length_redirect]; omega)]
  exact List.getElem_append_left h

theorem peek_redirect : (Place.ofTokens (redirect before kind bound)).peek before.length =
    bare kind (stopOf before) := by
  rw [Place.peek_ofTokens closed_redirect (by rw [length_redirect]; omega)]
  simp only [redirect, List.getElem_append_right (Nat.le_refl _), Nat.sub_self,
    List.getElem_cons_zero]

/-- Behind the verge all tokens start at the bound. -/
theorem start_redirect_of_lt {index : Nat} (h : before.length < index)
    (hle : index ≤ (Place.ofTokens (redirect before kind bound)).ahead.length) :
    ((Place.ofTokens (redirect before kind bound)).peek index).span.start = bound := by
  have hclosed : Closed (redirect before kind bound) := closed_redirect
  have hlength := Place.length_ofTokens hclosed
  rw [length_redirect] at hlength
  rw [Place.peek_ofTokens hclosed (by rw [length_redirect]; omega)]
  simp only [redirect, List.getElem_append_right (Nat.le_of_lt h)]
  obtain ⟨count, hcount⟩ : ∃ count, index - before.length = count + 1 :=
    ⟨index - before.length - 1, by omega⟩
  simp only [hcount, List.getElem_cons_succ]
  exact start_of_mem_tail (List.getElem_mem _)

theorem kind_next_redirect :
    ((Place.ofTokens (redirect before kind bound)).peek (before.length + 1)).kind =
      (sequel before kind).headD .endOfInput := by
  have hclosed : Closed (redirect before kind bound) := closed_redirect
  have hread := Place.read?_ofTokens hclosed (before.length + 1)
  have hget : (redirect before kind bound)[before.length + 1]? = (tail before kind bound)[0]? := by
    rw [redirect, List.getElem?_append_right (Nat.le_succ _), Nat.succ_sub (Nat.le_refl _),
      Nat.sub_self, List.getElem?_cons_succ]
  suffices h : (read? (redirect before kind bound) (before.length + 1)).map Token.kind =
      some ((sequel before kind).headD .endOfInput) by
    rw [hread] at h
    exact Option.some.inj h
  rw [read?, hget, tail]
  by_cases hend : kind = .endOfInput
  · have hsequel : sequel before kind = [] := by
      rw [hend]
      rfl
    rw [if_pos hend, hsequel]
    exact hclosed
  · rw [if_neg hend]
    cases sequel before kind <;> rfl

theorem ended_redirect (h : ∀ token ∈ before, token.kind ≠ .endOfInput) :
    Ended (redirect before kind bound) := by
  refine ⟨closed_redirect, fun token htoken ↦ ?_⟩
  rw [redirect, tail] at htoken
  split at htoken
  · rw [List.dropLast_concat] at htoken
    exact h token htoken
  · rename_i hend
    rw [← List.cons_append, ← List.append_assoc, List.dropLast_concat] at htoken
    rcases List.mem_append.mp htoken with hbefore | htoken
    · exact h token hbefore
    rcases List.mem_cons.mp htoken with rfl | htoken
    · exact hend
    obtain ⟨other, hother, rfl⟩ := List.mem_map.mp htoken
    change other ≠ .endOfInput
    rw [sequel] at hother
    split at hother
    · rw [List.mem_singleton.mp hother]
      nofun
    · split at hother
      · rw [List.mem_singleton.mp hother]
        nofun
      · cases hother

end Token

/-! ### The fork -/

section Fork

variable {tokens : List Token} {index : Nat}

/-- The verge of a token list at an index of it. -/
def Verge.ofStream (h : Token.Stream tokens) (hindex : index < tokens.length) : Verge where
  start := .ofTokens tokens
  index := index
  bound := ((Place.ofTokens tokens).peek index).span.start + 1
  closed := Place.ofTokens_closed _
  index_le := by
    have hlength := Place.length_ofTokens h.closed
    omega
  start_lt i hi := by
    have hlength := Place.length_ofTokens h.closed
    rcases Nat.eq_or_lt_of_le hi with rfl | hlt
    · exact Nat.lt_succ_self _
    · exact Nat.lt_succ_of_lt (h.increasing.lt h.closed hlt (by omega))
  le_start i hi hlt := h.increasing.lt h.closed hlt hi

/-- The verge of the other list, which has the token of the kind there. -/
def Verge.ofRedirect (before : List Token) (kind : Kind) (bound : Nat)
    (hbefore : ∀ token ∈ before, token.span.start < bound)
    (hstop : Token.stopOf before < bound) : Verge where
  start := .ofTokens (Token.redirect before kind bound)
  index := before.length
  bound := bound
  closed := Place.ofTokens_closed _
  index_le := by
    have hclosed : Token.Closed (Token.redirect before kind bound) := Token.closed_redirect
    have hlength := Place.length_ofTokens hclosed
    rw [Token.length_redirect] at hlength
    omega
  start_lt i hi := by
    rcases Nat.eq_or_lt_of_le hi with rfl | hlt
    · rw [Token.peek_redirect]
      exact hstop
    · rw [Token.peek_redirect_of_lt hlt]
      exact hbefore _ (List.getElem_mem hlt)
  le_start i hi hlt := Nat.le_of_eq (Token.start_redirect_of_lt hlt hi).symm

theorem start_lt_of_mem_take (h : Token.Stream tokens) (hindex : index < tokens.length)
    {token : Token} (htoken : token ∈ tokens.take index) :
    token.span.start < tokens[index].span.start := by
  obtain ⟨i, hi, rfl⟩ := List.mem_iff_getElem.mp htoken
  rw [List.length_take] at hi
  rw [List.getElem_take]
  exact List.pairwise_iff_getElem.mp h.increasing i index (by omega) hindex (by omega)

/-- A bound for the offsets of what stands up to the fork in either list. -/
def boundOf (before : List Token) (token : Token) : Nat :=
  max (Token.stopOf before) token.span.start + 1

/-- The list and the other way in which it goes on. -/
def Fork.ofRedirect (h : Token.Stream tokens) (hindex : index < tokens.length) (kind : Kind) :
    Fork where
  left := .ofStream h hindex
  right := .ofRedirect (tokens.take index) kind (boundOf (tokens.take index) tokens[index])
    (fun token htoken ↦ by
      have hlt := start_lt_of_mem_take h hindex htoken
      rw [boundOf]
      omega)
    (by rw [boundOf]; omega)
  index_eq := List.length_take_of_le (Nat.le_of_lt hindex)
  agree i hi := by
    have hi : i < index := hi
    have hlt : i < (tokens.take index).length := by
      rw [List.length_take]
      omega
    change (Place.ofTokens (Token.redirect _ _ _)).peek i = (Place.ofTokens tokens).peek i
    rw [Token.peek_redirect_of_lt hlt, List.getElem_take, Place.peek_ofTokens h.closed]
  start_lt i hi := by
    have hlength := Place.length_ofTokens h.closed
    exact h.increasing.lt h.closed (show i < index from hi) (show index ≤ _ by omega)

namespace Fork

variable (h : Token.Stream tokens) (hindex : index < tokens.length) (kind : Kind)

theorem peek_ofRedirect :
    (Fork.ofRedirect h hindex kind).right.start.peek (Fork.ofRedirect h hindex kind).left.index =
      Token.bare kind (Token.stopOf (tokens.take index)) := by
  rw [← (Fork.ofRedirect h hindex kind).index_eq]
  exact Token.peek_redirect

theorem kind_ofRedirect : (Fork.ofRedirect h hindex kind).right.kind = kind := by
  rw [Verge.kind, (Fork.ofRedirect h hindex kind).index_eq, peek_ofRedirect]
  rfl

theorem next_ofRedirect : (Fork.ofRedirect h hindex kind).right.next =
    (Token.sequel (tokens.take index) kind).headD .endOfInput := Token.kind_next_redirect

include h hindex in
theorem getLast?_take (hpassed : 0 < index) :
    (tokens.take index).getLast? = some ((Place.ofTokens tokens).peek (index - 1)) := by
  rw [List.getLast?_take, if_neg (by omega), List.getElem?_eq_getElem (by omega), Option.some_or,
    Place.peek_ofTokens h.closed]

theorem apt_ofRedirect
    (hrepeats : ∀ previous ∈ (tokens.take index).getLast?, ¬ kind.Repeats previous.kind) :
    (Fork.ofRedirect h hindex kind).Apt := by
  have hkind := kind_ofRedirect h hindex kind
  have hnext := next_ofRedirect h hindex kind
  have hlast := getLast?_take h hindex
  refine ⟨fun hpassed ↦ ?_, fun htype ↦ ?_, fun hbang hpassed hdigits ↦ ?_, fun hnegation hin ↦ ?_,
    fun hall ↦ ?_, fun hoptional hpassed hprevious ↦ ?_, fun hopener hpassed ↦ ?_⟩
  · rw [peek_ofRedirect h hindex kind, Token.bare, Token.stopOf, hlast hpassed]
    rfl
  · rw [hkind] at htype
    rw [hnext, Token.sequel, if_pos htype]
    rfl
  · rw [hkind] at hbang
    have hboth : kind = .symbol .bang ∧
        (tokens.take index).getLast?.any (digitKinds.contains ·.kind) = true := by
      refine ⟨hbang, ?_⟩
      rw [hlast hpassed]
      exact hdigits
    rw [hnext, Token.sequel, if_neg (by rw [hbang]; decide), if_pos hboth]
    rfl
  · rw [hkind] at hnegation
    rw [hnext, Token.sequel] at hin
    split at hin
    · cases hin
    · split at hin
      · rename_i hboth
        rcases Nat.eq_zero_or_pos index with rfl | hpassed
        · cases hboth.2
        · rw [hlast hpassed] at hboth
          exact ⟨hpassed, hboth.2⟩
      · cases hin
  · rw [hkind] at hall
    rw [hnext, hall]
    rfl
  · rw [hkind] at hoptional
    refine hrepeats _ (hlast hpassed) (.inl ⟨hoptional, hprevious⟩)
  · rw [hkind] at hopener
    exact Bool.eq_false_iff.mpr fun hprevious ↦
      hrepeats _ (hlast hpassed) (.inr ⟨hopener, hprevious⟩)

end Fork

end Fork

namespace Entry

variable {entry : Entry} {limit : Nat} {tokens tokens' : List Token} {index : Nat}

/-- A parse succeeds, or it fails at a token behind an index: the token has a greater index, and no
token up to the index is the same. -/
def Exceeds (entry : Entry) (limit : Nat) (tokens : List Token) (index : Nat) : Prop :=
  (∃ phrase, (entry.parse limit tokens).outcome = .ok phrase) ∨
    ∃ failure, (entry.parse limit tokens).outcome = .error failure ∧
      (∃ further, index < further ∧ tokens[further]? = some failure.token) ∧
        ∀ earlier ≤ index, tokens[earlier]? ≠ some failure.token

theorem sessions_ofRedirect (h : Token.Stream tokens) (hindex : index < tokens.length)
    (kind : Kind) : (Fork.ofRedirect h hindex kind).Sessions (.ofTokens tokens)
      (.ofTokens (Token.redirect (tokens.take index) kind
        (boundOf (tokens.take index) tokens[index]))) :=
  have hzero (tokens : List Token) : (Session.ofTokens tokens).cursor.position = 0 :=
    congrArg List.length (Place.begins_ofTokens tokens).behind_eq
  ⟨Place.begins_ofTokens _, Place.begins_ofTokens _, (hzero _).trans (hzero _).symm,
    hzero tokens ▸ Nat.zero_le _, fun _ ↦ KindSet.contains_empty _⟩

theorem outcome_of_ok {after : Session} {phrase : Phrase entry.category}
    (hrun : entry.complete (.top limit) (.ofTokens tokens) = .ok phrase after)
    (h : entry.overflow? tokens limit = none) :
    (entry.parse limit tokens).outcome = .ok phrase := by
  rw [overflow?, leave_of_ok hrun] at h
  simp only [parse, hrun, h, Option.elim_none]

theorem outcome_of_error {after : Session} {failure : Failure}
    (hrun : entry.complete (.top limit) (.ofTokens tokens) = .error failure after)
    (h : entry.overflow? tokens limit = none) :
    (entry.parse limit tokens).outcome = .error failure := by
  rw [overflow?, leave_of_error hrun] at h
  simp only [parse, hrun, h, Option.getD_none]

/-- A parse that escapes from a verge, and not by the limit, comes further than to it. -/
theorem exceeds_of_escapes {verge : Verge} (hclosed : Token.Closed tokens)
    (hstart : verge.start = .ofTokens tokens)
    (h : verge.coupling.Escapes (entry.complete (.top limit) (.ofTokens tokens)))
    (hoverflow : entry.overflow? tokens limit = none) :
    entry.Exceeds limit tokens verge.index := by
  cases hrun : entry.complete (.top limit) (.ofTokens tokens) with
  | ok phrase after => exact .inl ⟨phrase, outcome_of_ok hrun hoverflow⟩
  | error failure after =>
    have houtcome := outcome_of_error hrun hoverflow
    rw [hrun] at h
    rw [overflow?, leave_of_error hrun] at hoverflow
    have hbeyond : verge.bound ≤ failure.token.span.start :=
      h.resolve_left fun hspent ↦ hspent hoverflow
    -- All tokens up to the verge start before its bound.
    have habsent : ∀ earlier ≤ verge.index, tokens[earlier]? ≠ some failure.token := by
      intro earlier hle hget
      obtain ⟨hearlier, htoken⟩ := List.getElem?_eq_some_iff.mp hget
      have hlt := verge.start_lt earlier hle
      rw [hstart, Place.peek_ofTokens hclosed hearlier, htoken] at hlt
      omega
    obtain ⟨further, hget⟩ := List.mem_iff_getElem?.mp (token_mem_of_error hclosed hrun)
    exact .inr ⟨failure, houtcome,
      ⟨further, Nat.lt_of_not_le fun hle ↦ habsent further hle hget, hget⟩, habsent⟩

/-- With no nesting limit in the way, the other list is parsed further than to the fork. -/
theorem exceeds_redirect {failure : Failure} (h : Token.Stream tokens)
    (hindex : index < tokens.length)
    (hfailure : (entry.parse limit tokens).outcome = .error failure)
    (hoverflow : entry.overflow? tokens limit = none) (htoken : tokens[index] = failure.token)
    {kind : Kind} (hkind : failure.expected.contains kind = true)
    (hrepeats : ∀ previous ∈ (tokens.take index).getLast?, ¬ kind.Repeats previous.kind)
    (hoverflow' : entry.overflow? (Token.redirect (tokens.take index) kind
      (boundOf (tokens.take index) tokens[index])) limit = none) :
    entry.Exceeds limit (Token.redirect (tokens.take index) kind
      (boundOf (tokens.take index) tokens[index])) index := by
  have hs := Fork.scopes_inside (Fork.apt_ofRedirect h hindex kind hrepeats) limit limit
  rw [← Scope.top_eq_inside] at hs
  have hends := (honest_complete hs entry).ends _ _ (sessions_ofRedirect h hindex kind) trivial
  obtain ⟨after, hrun, hnone⟩ := error_of_overflow_none hfailure hoverflow
  rw [hrun] at hends
  have hpeek : (Place.ofTokens tokens).peek index = failure.token := by
    rw [Place.peek_ofTokens h.closed hindex, htoken]
  generalize hrun' : entry.complete (.top limit) (.ofTokens (Token.redirect (tokens.take index) kind
    (boundOf (tokens.take index) tokens[index]))) = result' at hends
  cases hends with
  | left hescapes =>
    have hbeyond : ((Place.ofTokens tokens).peek index).span.start + 1 ≤ failure.token.span.start :=
      hescapes.resolve_left fun hspent ↦ hspent hnone
    rw [hpeek] at hbeyond
    exact absurd hbeyond (Nat.not_succ_le_self _)
  | right hescapes =>
    have hexceeds := exceeds_of_escapes Token.closed_redirect rfl (hrun' ▸ hescapes) hoverflow'
    rwa [(Fork.ofRedirect h hindex kind).index_eq] at hexceeds
  | error hspares _ =>
    have hnot := hspares (congrArg (·.span.start) hpeek.symm)
    rw [Fork.kind_ofRedirect, hkind] at hnot
    cases hnot
  | stray hdone =>
    cases result' with
    | ok phrase after' => exact .inl ⟨phrase, outcome_of_ok hrun' hoverflow'⟩
    | error failure' after' => rcases hdone with hdone | hdone <;> cases hdone

/-- Under any other limit that is not met the parse comes as far. -/
theorem exceeds_of_overflow_none (hoverflow : entry.overflow? tokens limit = none) {limit' : Nat}
    (hoverflow' : entry.overflow? tokens limit' = none) (h : entry.Exceeds limit tokens index) :
    entry.Exceeds limit' tokens index := by
  have hsame : entry.parse limit' tokens = entry.parse limit tokens := by
    rcases Nat.le_total limit limit' with hle | hle
    · obtain ⟨more, rfl⟩ := Nat.exists_eq_add_of_le hle
      exact (parse_of_overflow_none hoverflow more).2
    · obtain ⟨more, rfl⟩ := Nat.exists_eq_add_of_le hle
      exact (parse_of_overflow_none hoverflow' more).2.symm
  rwa [Exceeds, hsame]

/-- The expected kinds are accepted. For every kind that a failure lists, and that does not repeat
the kind before it, a list with a token of that kind in place of the offending one is parsed
further, except that a low nesting limit may be met. -/
theorem expected_accepted (entry : Entry) (limit : Nat) {tokens : List Token} {failure : Failure}
    (h : Token.Stream tokens) (hfailure : (entry.parse limit tokens).outcome = .error failure)
    (hnesting : ∀ depth, failure.message ≠ nestingMessage depth) :
    ∃ index, tokens[index]? = some failure.token ∧
      ∀ kind, failure.expected.contains kind = true →
        (∀ previous ∈ (tokens.take index).getLast?, ¬ kind.Repeats previous.kind) →
          ∃ tokens' : List Token, Token.Ended tokens' ∧ tokens'.take index = tokens.take index ∧
            tokens'[index]?.map Token.kind = some kind ∧ ∀ limit',
              (entry.Exceeds limit' tokens' index ∨ ∃ other,
                (entry.parse limit' tokens').outcome = .error other ∧
                  other.message = nestingMessage limit') ∧
              (3 * tokens'.length + 4 ≤ limit' → entry.Exceeds limit' tokens' index) := by
  obtain ⟨after, hrun, hnone⟩ := error_of_message_ne hfailure hnesting
  obtain ⟨index, hindex, htoken⟩ := List.mem_iff_getElem.mp (token_mem_of_error h.closed hrun)
  refine ⟨index, by rw [List.getElem?_eq_getElem hindex, htoken], fun kind hkind hrepeats ↦ ?_⟩
  have hoverflow : entry.overflow? tokens limit = none := by
    rw [overflow?, leave_of_error hrun]
    exact hnone
  let tokens' := Token.redirect (tokens.take index) kind (boundOf (tokens.take index) tokens[index])
  have hlength : (tokens.take index).length = index := List.length_take_of_le (Nat.le_of_lt hindex)
  -- Above both thresholds neither list meets the limit.
  let high := limit + (3 * tokens'.length + 4)
  obtain ⟨hoverflow₁, hparse⟩ := parse_of_overflow_none hoverflow (3 * tokens'.length + 4)
  have hoverflow₂ : entry.overflow? tokens' high = none :=
    entry.overflow?_of_length (Nat.le_add_left _ _)
  have hexceeds : entry.Exceeds high tokens' index :=
    exceeds_redirect h hindex (by rw [hparse, hfailure]) hoverflow₁ htoken hkind hrepeats hoverflow₂
  refine ⟨tokens', Token.ended_redirect fun token hmem ↦ ?_, ?_, ?_, fun limit' ↦ ⟨?_, fun hle ↦
    exceeds_of_overflow_none hoverflow₂ (entry.overflow?_of_length hle) hexceeds⟩⟩
  · obtain ⟨i, hi, rfl⟩ := List.mem_iff_getElem.mp hmem
    rw [hlength] at hi
    rw [List.getElem_take]
    refine h.single _ (List.mem_iff_getElem.mpr ⟨i, ?_, List.getElem_dropLast _⟩)
    rw [List.length_dropLast]
    omega
  · exact List.take_left' hlength
  · change (Token.redirect _ _ _)[index]?.map Token.kind = some kind
    rw [Token.redirect, List.getElem?_append_right (Nat.le_of_eq hlength), hlength, Nat.sub_self]
    rfl
  · cases hlow : entry.overflow? tokens' limit' with
    | none => exact .inl (exceeds_of_overflow_none hoverflow₂ hlow hexceeds)
    | some other =>
      obtain ⟨houtcome, hcause⟩ := outcome_of_overflow hlow
      exact .inr ⟨other, houtcome, Failure.message_of_nestingLimit hcause⟩

/-- `@x AS OPTIONAL OPTIONAL` lacks a target behind the first `OPTIONAL`, and a variable is accepted
there. -/
theorem expected_accepted_behind_optional :
    let tokens : List Token :=
      [⟨.variableName, "x", ⟨0, 2⟩⟩, ⟨.keyword .asKw, "AS", ⟨3, 5⟩⟩,
        ⟨.keyword .optional, "OPTIONAL", ⟨6, 14⟩⟩, ⟨.keyword .optional, "OPTIONAL", ⟨15, 23⟩⟩,
        .endAt 23]
    Token.Stream tokens ∧
      ∃ failure, (Entry.expression.parse 256 tokens).outcome = .error failure ∧
        (∀ depth, failure.message ≠ nestingMessage depth) ∧
          failure.expected.contains .variableName = true ∧
            ∃ tokens' : List Token, Token.Ended tokens' ∧ tokens'.take 3 = tokens.take 3 ∧
              tokens'[3]?.map Token.kind = some .variableName ∧ ∀ limit',
                3 * tokens'.length + 4 ≤ limit' → Entry.expression.Exceeds limit' tokens' 3 := by
  intro tokens
  have hstream : Token.Stream tokens := ⟨⟨by decide, by decide⟩, by decide⟩
  let failure : Failure := ⟨⟨.keyword .optional, "OPTIONAL", ⟨15, 23⟩⟩, ∅ ∪ targetExpected,
    .missing "a variable or member"⟩
  have hfailure : (Entry.expression.parse 256 tokens).outcome = .error failure :=
    parse_of_optional 255 rfl rfl rfl (by decide)
  have hnesting (depth : Nat) : failure.message ≠ nestingMessage depth :=
    Failure.message_ne_nestingMessage rfl depth
  have hlisted : failure.expected.contains .variableName = true := by decide
  obtain ⟨index, hindex, haccepted⟩ := expected_accepted .expression 256 hstream hfailure hnesting
  obtain rfl : index = 3 := by
    have hstart : ∀ i < 5, (tokens[i]?.map (·.span.start)) = some 15 → i = 3 := by decide
    refine hstart index (List.getElem?_eq_some_iff.mp hindex).1 ?_
    rw [hindex]
    rfl
  refine ⟨hstream, failure, hfailure, hnesting, hlisted, ?_⟩
  obtain ⟨tokens', hended, htake, hkind, hexceeds⟩ := haccepted _ hlisted (by decide)
  exact ⟨tokens', hended, htake, hkind, fun limit' ↦ (hexceeds limit').2⟩

end Entry

end CorpusQuery
