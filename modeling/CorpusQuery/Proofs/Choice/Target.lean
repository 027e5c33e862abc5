import CorpusQuery.Proofs.Coupling.Index
import CorpusQuery.Proofs.Nesting.Limit

/-!
What a missing target is said to want. An assignment goes to a variable or a member, behind an
`OPTIONAL` if there is one. Where neither stands, the failure lists `OPTIONAL` among the expected
kinds even behind the `OPTIONAL` that has just been passed (`Grammar.continuation_of_optional`). A
second one is never accepted there: the parse fails at the same token again
(`Entry.expected_misleads`).
-/

set_option autoImplicit false
set_option relaxedAutoImplicit false

namespace CorpusQuery

open CorpusQuery.Parser CorpusQuery.Grammar

namespace Grammar

/-- What can be assigned to. -/
def targetKinds : KindSet := .ofList [.variableName, .memberName]

/-- What the failure for want of a target lists as expected. -/
def targetExpected : KindSet := .ofList [.variableName, .memberName, .keyword .optional]

/-- The failure for want of a target is at the token at hand, whatever has been passed before. -/
theorem target_of_not_contains (session : Session)
    (h : targetKinds.contains session.cursor.kind = false) :
    target session =
      .error ((session.tested targetExpected).cursor.failure (.missing "a variable or member"))
        (session.tested targetExpected) := by
  rw [target, bind_of_ok (show look Place.kind session = .ok session.cursor.kind session from rfl)]
  generalize session.cursor.kind = kind at h
  cases kind with
  | variableName => exact absurd h (by decide)
  | memberName => exact absurd h (by decide)
  | _ => rfl

/-- Behind the `OPTIONAL` of an assignment a token that is no target makes the assignment fail, and
`OPTIONAL` is listed as expected in its place. -/
theorem continuation_of_optional (scope : Scope) {least : Nat} (left : Phrase .expression)
    (session : Session) {optional next : Token} {rest : List Token}
    (hleast : least ≤ Continuation.assignment.level)
    (hkind : session.cursor.kind = .keyword .asKw)
    (hahead : session.cursor.ahead = optional :: next :: rest)
    (hoptional : optional.kind = .keyword .optional)
    (hnext : targetKinds.contains next.kind = false) :
    ∃ after, after.overflow = session.overflow ∧
      continuation scope least left session =
        .error ⟨next, ∅ ∪ targetExpected, .missing "a variable or member"⟩ after := by
  obtain ⟨⟨⟨behind, here, ahead⟩, expected⟩, overflow, events⟩ := session
  subst hahead
  let behindOptional : Session :=
    ⟨⟨⟨optional :: here :: behind, next, rest⟩, ∅⟩, overflow, events⟩
  have hat : Continuation.at? ⟨behind, here, optional :: next :: rest⟩ = some .assignment := by
    have hhere : here.kind = .keyword .asKw := hkind
    simp [Continuation.at?, Continuation.atSetPredicate, Place.kind, Place.peekKind, Place.peek,
      Place.along, hhere, Continuation.isUniversal, Continuation.isNegation]
  have hdraft : Continuation.assignment.draft scope left
      ⟨⟨⟨behind, here, optional :: next :: rest⟩, expected⟩, overflow, events⟩ =
        .error ((behindOptional.tested targetExpected).cursor.failure
          (.missing "a variable or member")) (behindOptional.tested targetExpected) := by
    have hconsume : consume (.keyword .optional)
        ⟨⟨⟨here :: behind, optional, next :: rest⟩, ∅⟩, overflow, events⟩ =
          .ok true behindOptional := consume_of_kind hoptional
    have htarget := target_of_not_contains behindOptional hnext
    exact (bind_of_ok rfl _).trans ((bind_of_ok hconsume _).trans (bind_of_error htarget _))
  have hlevel : ¬ Continuation.assignment.level < least := Nat.not_lt.mpr hleast
  have hlook : look Continuation.at?
      ⟨⟨⟨behind, here, optional :: next :: rest⟩, expected⟩, overflow, events⟩ =
        .ok (some .assignment) _ := congrArg (EStateM.Result.ok · _) hat
  refine ⟨behindOptional.tested targetExpected, rfl, (bind_of_ok hlook _).trans ?_⟩
  simp only [hlevel, if_false]
  rw [map_eq_pure_bind]
  exact bind_of_error (bind_of_error hdraft _) _

/-- So does an expression that is a variable up to there. -/
theorem expression_of_optional (scope : Scope) {least : Nat} (session : Session)
    {assign optional next : Token} {rest : List Token}
    (hleast : least ≤ Continuation.assignment.level)
    (hkind : session.cursor.kind = .variableName)
    (hahead : session.cursor.ahead = assign :: optional :: next :: rest)
    (hassign : assign.kind = .keyword .asKw) (hoptional : optional.kind = .keyword .optional)
    (hnext : targetKinds.contains next.kind = false) :
    ∃ after, after.overflow = session.overflow ∧
      expression scope least session =
        .error ⟨next, ∅ ∪ targetExpected, .missing "a variable or member"⟩ after := by
  obtain ⟨⟨⟨behind, ⟨kind, text, span⟩, ahead⟩, expected⟩, overflow, events⟩ := session
  subst hahead
  obtain rfl : kind = .variableName := hkind
  let passed : Session :=
    ⟨⟨⟨⟨.variableName, text, span⟩ :: behind, assign, optional :: next :: rest⟩, ∅⟩, overflow,
      events⟩
  let left : Phrase .expression := .phrase (.variableName text) ⟨span.start, span.stop⟩ .nil
  obtain ⟨after, hoverflow, hcontinuation⟩ :=
    continuation_of_optional scope left passed hleast hassign rfl hoptional hnext
  have hoperand : operand scope ⟨⟨⟨behind, ⟨.variableName, text, span⟩,
      assign :: optional :: next :: rest⟩, expected⟩, overflow, events⟩ = .ok left passed := rfl
  exact ⟨after, hoverflow, (bind_of_ok hoperand _).trans (iterate_of_error hcontinuation)⟩

end Grammar

namespace Entry

/-- However a token list goes on behind `@name AS OPTIONAL` and a token that is no target, it fails
at that token as an expression. -/
theorem parse_of_optional (limit : Nat) {name assign optional next : Token} {rest : List Token}
    (hname : name.kind = .variableName) (hassign : assign.kind = .keyword .asKw)
    (hoptional : optional.kind = .keyword .optional)
    (hnext : targetKinds.contains next.kind = false) :
    (Entry.expression.parse (limit + 1) (name :: assign :: optional :: next :: rest)).outcome =
      .error ⟨next, ∅ ∪ targetExpected, .missing "a variable or member"⟩ := by
  obtain ⟨rest', hplace⟩ : ∃ rest', Place.ofTokens (name :: assign :: optional :: next :: rest) =
      ⟨[], name, assign :: optional :: next :: rest'⟩ := by
    unfold Place.ofTokens
    dsimp only
    split
    · exact ⟨rest, rfl⟩
    · exact ⟨_, rfl⟩
  have hstart : Session.ofTokens (name :: assign :: optional :: next :: rest) =
      ⟨⟨⟨[], name, assign :: optional :: next :: rest'⟩, ∅⟩, none, []⟩ := by
    rw [Session.ofTokens, Cursor.ofTokens, hplace]
  let scope := Rule.inside (limit + 1) limit
  obtain ⟨after, hoverflow, hbody⟩ := expression_of_optional scope
    (entered "expression" (limit + 1 - limit)
      (.ofTokens (name :: assign :: optional :: next :: rest)))
    (Nat.zero_le _) (by rw [hstart]; exact hname) (by rw [hstart]; rfl) hassign hoptional hnext
  have hrun : Entry.expression.complete (.top (limit + 1))
      (.ofTokens (name :: assign :: optional :: next :: rest)) = .error _ (left _ _ _ after) :=
    bind_of_error (enter_of_error hbody) _
  simp only [parse, hrun]
  have hnone : after.overflow = none := hoverflow
  simp only [left, hnone, Option.getD_none]

/-- `@x AS OPTIONAL OPTIONAL` fails at the second `OPTIONAL` and lists `OPTIONAL` as expected there,
but whatever else stands behind `@x AS OPTIONAL OPTIONAL`, the parse fails at the same place. -/
theorem expected_misleads :
    let tokens : List Token :=
      [⟨.variableName, "x", ⟨0, 2⟩⟩, ⟨.keyword .asKw, "AS", ⟨3, 5⟩⟩,
        ⟨.keyword .optional, "OPTIONAL", ⟨6, 14⟩⟩, ⟨.keyword .optional, "OPTIONAL", ⟨15, 23⟩⟩,
        .endAt 23]
    Token.Stream tokens ∧
      ∃ failure, (Entry.expression.parse 256 tokens).outcome = .error failure ∧
        (∀ depth, failure.message ≠ nestingMessage depth) ∧ tokens[3]? = some failure.token ∧
          failure.expected.contains (.keyword .optional) = true ∧
            ∀ tokens' : List Token, tokens'.take 3 = tokens.take 3 →
              tokens'[3]?.map Token.kind = some (.keyword .optional) →
                ∃ failure', (Entry.expression.parse 256 tokens').outcome = .error failure' ∧
                  tokens'[3]? = some failure'.token := by
  intro tokens
  refine ⟨⟨⟨by decide, by decide⟩, by decide⟩, _, parse_of_optional 255 rfl rfl rfl (by decide),
    Failure.message_ne_nestingMessage rfl, rfl, by decide, fun tokens' hagree hkind ↦ ?_⟩
  match tokens', hagree, hkind with
  | name :: assign :: optional :: next :: rest, hagree, hkind =>
    simp only [tokens, List.take_succ_cons, List.take_zero, List.cons.injEq, and_true] at hagree
    obtain ⟨rfl, rfl, rfl⟩ := hagree
    have hnext : next.kind = .keyword .optional := Option.some.inj hkind
    exact ⟨_, parse_of_optional 255 rfl rfl rfl (by rw [hnext]; decide), rfl⟩

end Entry

end CorpusQuery
