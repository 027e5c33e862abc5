import CorpusQuery.Proofs.Choice.Agreement
import CorpusQuery.Proofs.Negation.Node
import CorpusQuery.Proofs.Standalone.Reread

/-!
The two negations in a node. `!` and `NOT` are the same quantifier, so behind the constraint of a
node either of them begins the same child statements, whatever the constraint is, unless it is a
single integer (`Entry.negations_interchangeable`). `leadingConstraint` takes a bang behind a bare
integer for the suffix of a possessive count. Counts are pure digits, but an integer may also be
written with underscores, and behind such an integer the bang is lost
(`Entry.bang_lost_behind_digits`).
-/

set_option autoImplicit false
set_option relaxedAutoImplicit false

namespace CorpusQuery

open CorpusQuery.Parser CorpusQuery.Place CorpusQuery.Grammar

/-! ### Token lists -/

section Lists

variable {tokens rest : List Token} {token : Token} {index : Nat}

theorem Place.peek_of_getElem? (h : Token.Closed tokens) (hget : tokens[index]? = some token) :
    (ofTokens tokens).peek index = token := by
  have hread := read?_ofTokens h index
  rw [Token.read?, hget, Option.some_or, Option.some.injEq] at hread
  exact hread.symm

theorem Token.closed_append (before : List Token) (h : Token.Closed rest) :
    Token.Closed (before ++ rest) := by
  rw [Closed, List.getLast?_append]
  obtain ⟨last, hlast, -⟩ := Option.map_eq_some_iff.mp h
  rw [hlast, Option.some_or, ← hlast]
  exact h

/-- Lists that differ in one token. -/
theorem Place.twins_ofTokens (before : List Token) (first second : Token)
    (hclosed : Token.Closed rest) :
    (ofTokens (before ++ first :: rest)).Twins (ofTokens (before ++ second :: rest))
      before.length := by
  have hlist (token : Token) : Token.Closed (before ++ token :: rest) :=
    Token.closed_append before (Token.closed_append [token] hclosed)
  have hlast (token : Token) : (before ++ token :: rest).getLast? = rest.getLast? := by
    obtain ⟨last, hlast, -⟩ := Option.map_eq_some_iff.mp hclosed
    rw [List.getLast?_append, List.getLast?_cons, hlast]
    rfl
  have hget (index : Nat) (hindex : index ≠ before.length) :
      (before ++ first :: rest)[index]? = (before ++ second :: rest)[index]? := by
    rcases Nat.lt_or_gt_of_ne hindex with hlt | hgt
    · rw [List.getElem?_append_left hlt, List.getElem?_append_left hlt]
    · rw [List.getElem?_append_right hgt.le, List.getElem?_append_right hgt.le,
        show index - before.length = index - before.length - 1 + 1 by omega,
        List.getElem?_cons_succ, List.getElem?_cons_succ]
  refine ⟨ofTokens_closed _, ofTokens_closed _, ?_, fun index hindex ↦ Option.some.inj ?_⟩
  · have hlength := length_ofTokens (hlist first)
    have hlength' := length_ofTokens (hlist second)
    simp only [List.length_append, List.length_cons] at hlength hlength'
    omega
  · rw [← read?_ofTokens (hlist first), ← read?_ofTokens (hlist second), Token.read?, Token.read?,
      hget index hindex, hlast, hlast]

end Lists

/-! ### What is accepted -/

namespace Entry

variable {entry : Entry} {tokens : List Token}

/-- Some tokens that, with the end of the input behind them, are read under some limit. -/
def Accepts (entry : Entry) (tokens : List Token) : Prop :=
  ∃ limit stop, Token.Ended (tokens ++ [stop]) ∧
    (entry.parse limit (tokens ++ [stop])).outcome.toOption.isSome = true

/-- What is read is read up to the end of the input. -/
theorem Accepts.body (h : entry.Accepts tokens) :
    ∃ limit stop phrase after, Token.Ended (tokens ++ [stop]) ∧
      entry.body (.top limit) (.ofTokens (tokens ++ [stop])) = .ok phrase after ∧
        after.cursor.kind = .endOfInput := by
  obtain ⟨limit, stop, hended, houtcome⟩ := h
  cases hparse : (entry.parse limit (tokens ++ [stop])).outcome with
  | error failure =>
    rw [hparse] at houtcome
    cases houtcome
  | ok phrase =>
    obtain ⟨last, hrun⟩ := complete_of_outcome hparse
    obtain ⟨after, hbody, hend, -⟩ := body_of_complete hrun
    exact ⟨limit, stop, phrase, after, hended, hbody, hend⟩

/-- Behind a negation no structural constraint goes on with `IN`. -/
theorem Accepts.next_ne_in {negation : Token}
    (h : Entry.structuralConstraint.Accepts (negation :: tokens))
    (hnegation : Continuation.isNegation negation.kind = true) :
    ∃ next more, tokens = next :: more ∧ next.kind ≠ .keyword .inKw := by
  obtain ⟨limit, stop, _, _, ⟨hclosed, -⟩, hrun, -⟩ := h.body
  have hplace : (Session.ofTokens (negation :: tokens ++ [stop])).cursor.toPlace =
      ofTokens (negation :: tokens ++ [stop]) := rfl
  obtain ⟨⟨last, hhalting⟩, -⟩ := exists_halting hplace hrun
  have hpeek (index : Nat) {token : Token}
      (hget : (negation :: tokens ++ [stop])[index]? = some token) :
      (ofTokens (negation :: tokens ++ [stop])).peek index = token :=
    peek_of_getElem? hclosed hget
  have hlast : 1 ≤ last := by
    refine Nat.one_le_iff_ne_zero.mpr fun hzero ↦ ?_
    have hhalts := hhalting.halts
    rw [hzero, hpeek 0 rfl] at hhalts
    rcases Continuation.isNegation_cases hnegation with hkind | hkind <;>
      rw [hkind] at hhalts <;> cases hhalts
  -- Behind the negation there is more that may stand before a bracket, or a bracket.
  have hkind (token : Token) (hget : (tokens ++ [stop])[0]? = some token) :
      token.kind.halts = true ∨ opening.contains token.kind = true := by
    rw [← hpeek 1 hget]
    rcases Nat.eq_or_lt_of_le hlast with rfl | hlt
    · exact .inl hhalting.halts
    · exact .inr (hhalting.opening 1 (Nat.zero_le 1) hlt)
  cases tokens with
  | nil =>
    have hstop : stop.kind = .endOfInput := Option.some.inj hclosed
    rcases hkind stop rfl with h | h <;> rw [hstop] at h <;> cases h
  | cons next more =>
    refine ⟨next, more, rfl, fun hin ↦ ?_⟩
    rcases hkind next rfl with h | h <;> rw [hin] at h <;> cases h

end Entry

/-! ### The constraint -/

/-- A constraint that stands alone, in a node before a negation. -/
theorem Place.negated_ofTokens {left stop negation next : Token} {constraint rest : List Token}
    (hpos : 0 < constraint.length) (hshort : Token.Closed (constraint ++ [stop]))
    (hrest : Token.Closed (next :: rest))
    (hnegation : Continuation.isNegation negation.kind = true)
    (hnext : next.kind ≠ .keyword .inKw)
    (hlast : Continuation.leadsSet
      ((ofTokens (constraint ++ [stop])).peek (constraint.length - 1)).kind = false) :
    (ofTokens (constraint ++ [stop])).Negated
      (ofTokens (left :: constraint ++ negation :: next :: rest)) 1 constraint.length := by
  have hclosed : Token.Closed (left :: constraint ++ negation :: next :: rest) :=
    Token.closed_append _ (Token.closed_append [negation] hrest)
  have hlength := length_ofTokens hclosed
  have hlength' := length_ofTokens hshort
  simp only [List.length_append, List.length_cons, List.length_nil] at hlength hlength'
  have hbefore (index : Nat) (hlt : index < constraint.length) :
      (ofTokens (constraint ++ [stop])).peek index =
        (ofTokens (left :: constraint ++ negation :: next :: rest)).peek (index + 1) := by
    have hget : constraint[index]? = some constraint[index] := List.getElem?_eq_getElem hlt
    rw [peek_of_getElem? hshort ((List.getElem?_append_left hlt).trans hget)]
    refine (peek_of_getElem? hclosed ?_).symm
    rw [List.cons_append, List.getElem?_cons_succ, List.getElem?_append_left hlt, hget]
  have hbehind (index : Nat) {token : Token}
      (hget : (negation :: next :: rest)[index]? = some token) :
      (ofTokens (left :: constraint ++ negation :: next :: rest)).peek
        (1 + constraint.length + index) = token := by
    refine peek_of_getElem? hclosed ?_
    rw [List.getElem?_append_right (by rw [List.length_cons]; omega), List.length_cons,
      show 1 + constraint.length + index - (constraint.length + 1) = index by omega, hget]
  refine ⟨⟨ofTokens_closed _, ofTokens_closed _, by omega, by omega, hbefore, ?_⟩, ?_, ?_⟩
  · rw [hbefore _ (by omega)] at hlast
    rwa [show 1 + constraint.length - 1 = constraint.length - 1 + 1 by omega]
  · rw [← hbehind 0 rfl] at hnegation
    exact hnegation
  · rw [← hbehind 1 rfl] at hnext
    exact hnext

/-- What stands alone as an expression is the constraint of a node before child statements. -/
theorem Entry.Accepts.constrains {constraint : List Token} (h : Entry.expression.Accepts constraint)
    (hinteger : ∀ token, constraint = [token] → digitKinds.contains token.kind = false) :
    ∃ least phrase, ∀ {left negation next : Token} {rest : List Token} (limit room : Nat),
      left.kind = .symbol .leftBracket → Continuation.isNegation negation.kind = true →
        next.kind ≠ .keyword .inKw → Token.Closed (next :: rest) → least ≤ room →
          (ofTokens (left :: constraint ++ negation :: next :: rest)).Constrains
            (1 + constraint.length) (Rule.inside limit room) phrase := by
  obtain ⟨least, stop, phrase, after, hended, hrun, hend⟩ := h.body
  change (Scope.top least).expression 0 _ = _ at hrun
  rw [Scope.top_eq_inside] at hrun
  have hplace : (ofTokens (constraint ++ [stop])).At 0
      (Session.ofTokens (constraint ++ [stop])).cursor.toPlace := at_ofTokens _
  have hfit : Parser.Fit (ofTokens (constraint ++ [stop])).total Untraced
      (Session.ofTokens (constraint ++ [stop])) := ⟨ofTokens_closed _, rfl, trivial⟩
  obtain ⟨hbegins, -, hleads⟩ :=
    (Rule.leads_inside (ofTokens (constraint ++ [stop])) least least 0 0).ok hfit hplace hrun
  have hlength := length_ofTokens hended.closed
  rw [List.length_append, List.length_singleton] at hlength
  have hafter : after.cursor.position = constraint.length := by
    rw [Place.kind, hbegins.here_eq, hended.kind_peek_iff] at hend
    have hle := hbegins.position_le
    omega
  have hpos : 0 < constraint.length := by
    refine Nat.pos_of_ne_zero fun hzero ↦ ?_
    have hstarts := hleads.starts
    rw [hended.kind_peek_iff.mpr (by omega)] at hstarts
    cases hstarts
  have hsettled := (((Rule.ends_inside _ least least).expression 0).ok hfit trivial hrun).2
  have hlast := (hbegins.settled_iff (hafter ▸ hpos)).mp hsettled
  rw [hafter] at hlast
  refine ⟨least, phrase, fun {left negation next rest} limit room hleft hnegation hnext hrest
    hroom ↦ (negated_ofTokens hpos hended.closed hrest hnegation hnext hlast).constrains ?_ ?_
      hplace hrun hafter hroom⟩
  all_goals
    have hclosed : Token.Closed (left :: constraint ++ negation :: next :: rest) :=
      Token.closed_append _ (Token.closed_append [negation] hrest)
  · rwa [peek_of_getElem? hclosed rfl]
  · intro hone
    obtain ⟨token, rfl⟩ := List.length_eq_one_iff.mp hone
    rw [peek_of_getElem? hclosed rfl]
    exact hinteger token rfl

/-! ### The statement -/

namespace Entry

/-- Whether two outcomes are both trees, the same but for their spans, or both failures. -/
def sameReading {category : Category} (outcome outcome' : Except Failure (Phrase category)) :
    Bool :=
  match outcome, outcome' with
  | .ok phrase, .ok phrase' => phrase.same phrase'
  | .error _, .error _ => true
  | _, _ => false

/-- Parses that end alike and do not meet the limit have the same reading. -/
theorem sameReading_of_twinned {entry : Entry} {limit : Nat} {tokens tokens' : List Token}
    {given promised : Place → Prop}
    (h : Twinned (ofTokens tokens) (ofTokens tokens') given promised (Tree.blurred fun _ ↦ 0)
      (entry.complete (.top limit)) (entry.complete (.top limit)))
    (hgiven : given (ofTokens tokens)) (hgiven' : given (ofTokens tokens'))
    (hoverflow : entry.overflow? tokens limit = none)
    (hoverflow' : entry.overflow? tokens' limit = none) :
    sameReading (entry.parse limit tokens).outcome (entry.parse limit tokens').outcome = true := by
  have hmeets := h (.ofTokens tokens) (.ofTokens tokens')
    (Session.Abreast.start tokens tokens').place hgiven hgiven'
  unfold parse
  generalize hrun : entry.complete (.top limit) (.ofTokens tokens) = result,
    hrun' : entry.complete (.top limit) (.ofTokens tokens') = result' at hmeets
  cases hmeets with
  | ok hphrase =>
    rw [overflow?, leave_of_ok hrun] at hoverflow
    rw [overflow?, leave_of_ok hrun'] at hoverflow'
    rw [Tree.blurred_zero, Tree.blurred_zero] at hphrase
    simp only [hoverflow, hoverflow', Option.elim_none]
    exact (Tree.same_iff _ _).mpr hphrase
  | error => rfl

theorem twinned_complete {start start' : Place} {pivot room : Nat}
    {constraint : Phrase .expression} (h : start.Twins start' pivot)
    (hs : start.Constrains pivot (Rule.inside (room + 2) room) constraint)
    (hs' : start'.Constrains pivot (Rule.inside (room + 2) room) constraint) :
    Twinned start start' (AtEither start start' 0) (Place.Past (pivot + 2))
      (Tree.blurred fun _ ↦ 0) (Entry.nodeStatement.complete (.top (room + 2)))
      (Entry.nodeStatement.complete (.top (room + 2))) := by
  have hend : Twinned start start' (Place.Past (pivot + 2)) (Place.Past (pivot + 2)) (fun _ ↦ ())
      (expect .endOfInput) (expect .endOfInput) := .of_coupled (.expect (Coupling.lawful_twin h))
  exact (Twinned.enter (twinned_boundStatement h hs hs' 0)).bind fun _ _ hphrase ↦
    hend.bind fun _ _ _ ↦ .pure hphrase fun _ hpast ↦ hpast

/-- Where one negation begins a structural constraint, it may be exchanged for the other one behind
the constraint of a node, unless that is a single integer. -/
theorem negations_interchangeable {left first second : Token}
    {constraint children rest : List Token}
    (hleft : left.kind = .symbol .leftBracket)
    (hfirst : Continuation.isNegation first.kind = true)
    (hsecond : Continuation.isNegation second.kind = true)
    (hconstraint : Entry.expression.Accepts constraint)
    (hinteger : ∀ token, constraint = [token] → digitKinds.contains token.kind = false)
    (hchildren : Entry.structuralConstraint.Accepts (first :: children))
    (hrest : Token.Closed rest) (limit : Nat) :
    let tokens (negation : Token) := left :: (constraint ++ negation :: (children ++ rest))
    Entry.nodeStatement.overflow? (tokens first) limit = none →
      Entry.nodeStatement.overflow? (tokens second) limit = none →
        sameReading (Entry.nodeStatement.parse limit (tokens first)).outcome
          (Entry.nodeStatement.parse limit (tokens second)).outcome = true := by
  intro tokens hoverflow hoverflow'
  obtain ⟨next, more, rfl, hnext⟩ := hchildren.next_ne_in hfirst
  obtain ⟨least, phrase, hconstrains⟩ := hconstraint.constrains hinteger
  have hbehind : Token.Closed (next :: (more ++ rest)) := Token.closed_append (next :: more) hrest
  have htwins : (ofTokens (tokens first)).Twins (ofTokens (tokens second))
      (1 + constraint.length) :=
    Nat.add_comm constraint.length 1 ▸ twins_ofTokens (left :: constraint) first second hbehind
  -- Under a higher limit the constraint has as much room in the node as it had alone.
  have hs (negation : Token) (hnegation : Continuation.isNegation negation.kind = true) :
      (ofTokens (tokens negation)).Constrains (1 + constraint.length)
        (Rule.inside (limit + least + 2) (limit + least)) phrase :=
    hconstrains _ _ hleft hnegation hnext hbehind (Nat.le_add_left least limit)
  obtain ⟨hhigher, hsame⟩ := parse_of_overflow_none hoverflow (least + 2)
  obtain ⟨hhigher', hsame'⟩ := parse_of_overflow_none hoverflow' (least + 2)
  rw [← hsame, ← hsame']
  exact sameReading_of_twinned (twinned_complete htwins (hs first hfirst) (hs second hsecond))
    (.inl (at_ofTokens _)) (.inr (at_ofTokens _)) hhigher hhigher'

/-- An empty node behind the name of a member. -/
theorem negations_interchangeable_of_name :
    let name : Token := ⟨.memberName, "word", ⟨1, 5⟩⟩
    let bang : Token := ⟨.symbol .bang, "!", ⟨6, 7⟩⟩
    let negation : Token := ⟨.keyword .not, "NOT", ⟨6, 9⟩⟩
    let left : Token := ⟨.symbol .leftBracket, "[", ⟨0, 1⟩⟩
    let children : List Token :=
      [⟨.symbol .leftBracket, "[", ⟨10, 11⟩⟩, ⟨.symbol .rightBracket, "]", ⟨11, 12⟩⟩]
    let rest : List Token := [⟨.symbol .rightBracket, "]", ⟨12, 13⟩⟩, .endAt 13]
    let statement (token : Token) : Except Failure (Phrase .nodeStatement) :=
      (Entry.nodeStatement.parse 256 (left :: ([name] ++ token :: (children ++ rest)))).outcome
    Entry.expression.Accepts [name] ∧ Entry.structuralConstraint.Accepts (bang :: children) ∧
      (statement bang).toOption.isSome = true ∧
      sameReading (statement bang) (statement negation) = true := by
  intro name bang negation left children rest statement
  have hname : Entry.expression.Accepts [name] :=
    ⟨256, .endAt 5, ⟨by decide, by decide⟩, by decide +kernel⟩
  have hchildren : Entry.structuralConstraint.Accepts (bang :: children) :=
    ⟨256, .endAt 12, ⟨by decide, by decide⟩, by decide +kernel⟩
  have hrest : Token.Closed rest := by decide
  have hdigits (token : Token) (h : [name] = [token]) :
      digitKinds.contains token.kind = false := by
    cases h
    decide
  have hnegation : Continuation.isNegation negation.kind = true := rfl
  exact ⟨hname, hchildren, by decide +kernel,
    negations_interchangeable rfl rfl hnegation hname hdigits hchildren hrest 256
      (overflow?_eq_none _ (by decide)) (overflow?_eq_none _ (by decide))⟩

/-- `1_000` is an expression, `! []` and `NOT []` are the same structural constraint, and under a
limit that neither parse meets `NOT []` may stand behind `1_000` in a node, but `! []` may not. -/
theorem bang_lost_behind_digits :
    let number : Token := ⟨.digits, "1_000", ⟨1, 6⟩⟩
    let bang : Token := ⟨.symbol .bang, "!", ⟨7, 8⟩⟩
    let negation : Token := ⟨.keyword .not, "NOT", ⟨7, 10⟩⟩
    let node : List Token := [⟨.symbol .leftBracket, "[", ⟨11, 12⟩⟩,
      ⟨.symbol .rightBracket, "]", ⟨12, 13⟩⟩]
    let inBrackets (token : Token) : List Token :=
      ⟨.symbol .leftBracket, "[", ⟨0, 1⟩⟩ :: ([number] ++ token :: (node ++
        [⟨.symbol .rightBracket, "]", ⟨13, 14⟩⟩, .endAt 14]))
    let constraint (token : Token) : Except Failure (Phrase .structuralConstraint) :=
      (Entry.structuralConstraint.parse 256 (token :: node ++ [.endAt 13])).outcome
    let statement (token : Token) : Except Failure (Phrase .nodeStatement) :=
      (Entry.nodeStatement.parse 256 (inBrackets token)).outcome
    number.kind ≠ .pureDigits ∧ Entry.expression.Accepts [number] ∧
      Entry.structuralConstraint.Accepts (bang :: node) ∧
      Entry.structuralConstraint.Accepts (negation :: node) ∧
      sameReading (constraint bang) (constraint negation) = true ∧
      Entry.nodeStatement.overflow? (inBrackets bang) 256 = none ∧
      Entry.nodeStatement.overflow? (inBrackets negation) 256 = none ∧
      (statement negation).toOption.isSome = true ∧
      sameReading (statement bang) (statement negation) = false := by
  intro number bang negation node inBrackets constraint statement
  exact ⟨by decide, ⟨256, .endAt 6, ⟨by decide, by decide⟩, by decide +kernel⟩,
    ⟨256, .endAt 13, ⟨by decide, by decide⟩, by decide +kernel⟩,
    ⟨256, .endAt 13, ⟨by decide, by decide⟩, by decide +kernel⟩, by decide +kernel,
    overflow?_eq_none _ (by decide), overflow?_eq_none _ (by decide), by decide +kernel,
    by decide +kernel⟩

end Entry

end CorpusQuery
