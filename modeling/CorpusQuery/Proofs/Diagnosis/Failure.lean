import CorpusQuery.Proofs.Coupling.Horizon
import CorpusQuery.Proofs.Diagnosis.Grammar

/-!
Failures are well formed. A failure names one token that the parse reads, and its class and its
expectations fit that token (`Entry.failure_well_formed`). This holds of the failure at the nesting
limit as well, which the session keeps apart from the others: it is about the token at which a rule
was refused.
-/

set_option autoImplicit false
set_option relaxedAutoImplicit false

namespace CorpusQuery

open CorpusQuery.Parser

/-! ### Token lists as they are read -/

/-- A token list as a parse reads it: if it does not end with the end of the input, that is added
where the last token stops. -/
def Token.close (tokens : List Token) : List Token :=
  if Closed tokens then tokens else tokens ++ [.endAt (tokens.getLast?.elim 0 (·.span.stop))]

theorem Place.tokens_ofTokens_eq_close (tokens : List Token) :
    (Place.ofTokens tokens).tokens = Token.close tokens := by
  by_cases hclosed : Token.Closed tokens
  · rw [Place.tokens_ofTokens hclosed, Token.close, if_pos hclosed]
  · rw [Token.close, if_neg hclosed]
    cases tokens with
    | nil => rfl
    | cons first rest =>
      have hlast : (first :: rest).getLast? = some (rest.getLastD first) := by
        rw [List.getLast?_cons, List.getLastD_eq_getLast?]
      rw [Token.Closed, hlast, Option.map_some, Option.some.injEq] at hclosed
      simp only [Place.ofTokens, if_neg hclosed, Place.tokens, hlast, Option.elim_some]
      rfl

/-! ### The failure at the limit -/

/-- The failure at the limit, if there is one, is about one of the tokens. -/
def Limits (tokens : List Token) (_ : List Event) (overflow : Option Failure) : Prop :=
  ∀ failure ∈ overflow, failure.token ∈ tokens

theorem Limits.forgiving (tokens : List Token) (depth : Nat) :
    Ensures.Forgiving (Limits tokens) depth := fun _ _ _ _ h ↦ h

/-- A rule that is refused is refused at a token of the list. -/
theorem Rule.limits_run (limit : Nat) (start : Place) (room : Nat) (rule : Rule) :
    Ensures start.total (Limits start.tokens) start.Begins (rule.run limit room) fun _ ↦
      start.Begins := by
  induction room generalizing rule with
  | zero =>
    intro session hfit hbegins
    refine ⟨hfit.closed, hfit.total_eq, fun failure hfailure ↦ ?_⟩
    cases hoverflow : session.overflow with
    | some earlier =>
      rw [hoverflow] at hfailure
      exact hfit.kept failure (hoverflow ▸ hfailure)
    | none =>
      rw [hoverflow] at hfailure
      cases hfailure
      rw [← hbegins.tokens_eq]
      exact List.mem_append_right _ List.mem_cons_self
  | succ room ih =>
    refine .enter (fun _ hfit _ ↦ hfit.kept) (fun _ _ _ h ↦ h) ?_
    exact (alike_inside limit room rule).ensures (Limits.forgiving _ _)
      (fun _ hbegins ↦ hbegins.advance) ih

/-! ### Well-formed failures -/

/-- What makes a failure of a parse over some tokens well formed. -/
structure Failure.WellFormed (limit : Nat) (tokens : List Token) (failure : Failure) : Prop where
  /-- The offending token, with its kind, its text and its span, is one of the tokens. -/
  token_mem : failure.token ∈ tokens
  /-- The input ended too early just if the offending token is an end of input. -/
  unexpectedEnd_iff : failure.failureClass = .unexpectedEnd ↔ failure.token.kind = .endOfInput
  /-- Unless rules were nested too deeply, there is something that would have been accepted. -/
  expected : failure.cause = .nestingLimit limit ∨ failure.expected.isEmpty = false

/-- The class of a failure says whether its token is an end of input. -/
theorem Failure.failureClass_eq_unexpectedEnd_iff (failure : Failure) :
    failure.failureClass = .unexpectedEnd ↔ failure.token.kind = .endOfInput := by
  unfold failureClass atEnd
  by_cases hend : failure.token.kind = .endOfInput
  · simp [hend]
  · simp only [beq_iff_eq, hend, if_false, iff_false]
    split <;> nofun

namespace Entry

variable {entry : Entry} {limit : Nat} {tokens : List Token} {failure : Failure}

/-- The failure at the limit is about a token that the parse reads. -/
theorem token_mem_of_overflow (h : entry.overflow? tokens limit = some failure) :
    failure.token ∈ (Place.ofTokens tokens).tokens := by
  have hensures := (entry.alike_top limit).ensures
    (Limits.forgiving (Place.ofTokens tokens).tokens _) (fun _ hbegins ↦ hbegins.advance)
    (Rule.limits_run limit (.ofTokens tokens) limit)
  have hfit : Fit (Place.ofTokens tokens).total (Limits (Place.ofTokens tokens).tokens)
      (.ofTokens tokens) := ⟨Place.ofTokens_closed tokens, rfl, fun _ h ↦ by cases h⟩
  have hbegins : (Place.ofTokens tokens).Begins (Session.ofTokens tokens).cursor.toPlace :=
    Place.begins_ofTokens tokens
  rw [overflow?] at h
  cases hrun : entry.complete (.top limit) (.ofTokens tokens) with
  | ok phrase after =>
    rw [leave_of_ok hrun] at h
    exact (hensures.ok hfit hbegins hrun).1.kept failure h
  | error other after =>
    rw [leave_of_error hrun] at h
    exact (hensures.error hfit hbegins hrun).kept failure h

/-- Whatever a parse fails at, it fails at a token that it reads. -/
theorem token_mem_close (h : (entry.parse limit tokens).outcome = .error failure) :
    failure.token ∈ Token.close tokens := by
  rw [← Place.tokens_ofTokens_eq_close]
  cases hoverflow : entry.overflow? tokens limit with
  | some first =>
    obtain rfl : failure = first :=
      Except.error.inj (h.symm.trans (outcome_of_overflow hoverflow).1)
    exact token_mem_of_overflow hoverflow
  | none =>
    obtain ⟨after, hrun, -⟩ := error_of_overflow_none h hoverflow
    exact token_mem_tokens hrun

/-- Whatever a parse fails at, the failure is that of the limit or says what would have been
accepted. -/
theorem expected_of_error (h : (entry.parse limit tokens).outcome = .error failure) :
    failure.cause = .nestingLimit limit ∨ failure.expected.isEmpty = false := by
  cases hoverflow : entry.overflow? tokens limit with
  | some first =>
    obtain ⟨houtcome, hcause⟩ := outcome_of_overflow hoverflow
    obtain rfl : failure = first := Except.error.inj (h.symm.trans houtcome)
    exact .inl hcause
  | none =>
    obtain ⟨after, hrun, hnone⟩ := error_of_overflow_none h hoverflow
    exact .inr (entry.informs_complete limit _ failure after hrun hnone)

/-- Whatever a parse fails at, over whatever tokens and under whatever limit, its failure is well
formed: it is about one token of the list as the parse reads it, its class says whether that token
is an end of input, and it lists what would have been accepted unless the limit was met. -/
theorem failure_well_formed (entry : Entry) (limit : Nat) (tokens : List Token) {failure : Failure}
    (h : (entry.parse limit tokens).outcome = .error failure) :
    failure.WellFormed limit (Token.close tokens) where
  token_mem := token_mem_close h
  unexpectedEnd_iff := failure.failureClass_eq_unexpectedEnd_iff
  expected := expected_of_error h

/-- What stands in `[a b]` is no marker, no constraint and no children. One failure is left of the
attempts to read it; it is about `b` and lists what any of them would have taken there. -/
theorem failure_well_formed_of_no_alternative :
    let second : Token := ⟨.identifier, "b", ⟨3, 4⟩⟩
    let tokens : List Token :=
      [⟨.symbol .leftBracket, "[", ⟨0, 1⟩⟩, ⟨.identifier, "a", ⟨1, 2⟩⟩, second,
        ⟨.symbol .rightBracket, "]", ⟨4, 5⟩⟩, .endAt 5]
    let expected : KindSet := .ofList
      [.keyword .adjacent, .keyword .all, .keyword .consecutive, .keyword .disjoint,
        .keyword .first, .keyword .not, .keyword .ordered, .keyword .reverse, .keyword .rooted,
        .keyword .unordered, .pureDigits, .symbol .leftParen, .symbol .leftBrace,
        .symbol .leftBracket, .symbol .rightBracket, .symbol .comma, .symbol .bang, .symbol .star,
        .symbol .less]
    let failure : Failure := ⟨second, expected, .noAlternative⟩
    (Entry.nodeStatement.parse 32 tokens).outcome = .error failure ∧
      failure.WellFormed 32 tokens := by
  intro second tokens expected failure
  have houtcome : (Entry.nodeStatement.parse 32 tokens).outcome = .error failure := by cbv
  exact ⟨houtcome, failure_well_formed .nodeStatement 32 tokens houtcome⟩

end Entry

end CorpusQuery
