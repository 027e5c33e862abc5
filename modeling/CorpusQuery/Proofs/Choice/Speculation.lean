import CorpusQuery.Proofs.Nesting.Limit

/-!
Failed speculation leaves no mark. Going back restores the place of the cursor, but the kinds tested
so far, the failure at the nesting limit and the trace keep what a given up reading left in them. No
rule decides anything by these: from two sessions at one place it ends alike
(`Parser.Alike.oblivious`), so what was tried in vain before a rule makes no difference to it
(`Rule.traceless_inside`).
-/

set_option autoImplicit false
set_option relaxedAutoImplicit false

namespace CorpusQuery

open CorpusQuery.Parser

/-! ### Failures at one token -/

/-- Two failures are alike if they are at one token for one cause. What they list as expected may
differ. -/
structure Failure.Resembles (failure other : Failure) : Prop where
  token_eq : failure.token = other.token
  cause_eq : failure.cause = other.cause

namespace Failure.Resembles

variable {failure failure' first first' : Failure}

theorem atEnd_eq (h : failure.Resembles failure') : failure.atEnd = failure'.atEnd := by
  rw [atEnd, atEnd, h.token_eq]

/-- The class of a failure comes from its token and its cause. -/
theorem failureClass_eq (h : failure.Resembles failure') :
    failure.failureClass = failure'.failureClass := by
  obtain ⟨token, expected, cause⟩ := failure
  obtain ⟨token', expected', cause'⟩ := failure'
  obtain ⟨rfl, rfl⟩ : token = token' ∧ cause = cause' := ⟨h.token_eq, h.cause_eq⟩
  rfl

theorem merge (h : failure.Resembles failure') (hfirst : first.Resembles first') :
    (failure.merge first).Resembles (failure'.merge first') where
  token_eq := by
    simp only [Failure.merge, h.atEnd_eq, hfirst.atEnd_eq, h.token_eq, hfirst.token_eq]
  cause_eq := rfl

/-- Which failure of a choice is reported does not depend on what the failures list as expected. -/
theorem exhausted (h : failure.Resembles failure') (hfirst : first.Resembles first') :
    (failure.exhausted [first]).Resembles (failure'.exhausted [first']) := by
  simp only [Failure.exhausted, List.foldl_cons, List.foldl_nil, Failure.further, h.token_eq,
    hfirst.token_eq]
  split
  · exact hfirst
  · split
    · exact h.merge hfirst
    · exact h

end Failure.Resembles

theorem Cursor.toPlace_advance {cursor cursor' : Cursor} (h : cursor.toPlace = cursor'.toPlace) :
    cursor.advance.toPlace = cursor'.advance.toPlace := by
  unfold advance
  rw [h]
  cases cursor'.next? with
  | none => exact h
  | some place => rfl

namespace Parser

variable {α β γ : Type} {scope other : Scope}

/-! ### Runs from one place -/

/-- Two runs end alike if they return one value, or fail at one token for one cause, and come to one
place. The kinds listed as expected, the failure at the limit and the trace may differ. -/
inductive EndsAlike : EStateM.Result Failure Session α → EStateM.Result Failure Session α → Prop
  | ok (value : α) {after after' : Session}
      (hplace : after.cursor.toPlace = after'.cursor.toPlace) :
      EndsAlike (.ok value after) (.ok value after')
  | error {failure failure' : Failure} {after after' : Session}
      (hfailure : failure.Resembles failure')
      (hplace : after.cursor.toPlace = after'.cursor.toPlace) :
      EndsAlike (.error failure after) (.error failure' after')

/-- A parser pays no attention to anything but the place of the cursor. -/
def Oblivious (parser : Parser α) : Prop :=
  ∀ session session' : Session, session.cursor.toPlace = session'.cursor.toPlace →
    EndsAlike (parser session) (parser session')

namespace Oblivious

variable {parser : Parser α} {next : α → Parser β} {session session' after : Session} {value : α}
  {failure : Failure}

/-- What returns once returns wherever the place is the same. -/
theorem ok (h : Oblivious parser) (hplace : session.cursor.toPlace = session'.cursor.toPlace)
    (hrun : parser session = .ok value after) :
    ∃ after', parser session' = .ok value after' ∧
      after.cursor.toPlace = after'.cursor.toPlace := by
  have hends := h session session' hplace
  rw [hrun] at hends
  cases hrun' : parser session' with
  | ok value' after' =>
    rw [hrun'] at hends
    cases hends with
    | ok _ hplace => exact ⟨after', rfl, hplace⟩
  | error failure' after' =>
    rw [hrun'] at hends
    cases hends

/-- What fails once fails wherever the place is the same. -/
theorem error (h : Oblivious parser) (hplace : session.cursor.toPlace = session'.cursor.toPlace)
    (hrun : parser session = .error failure after) :
    ∃ failure' after', parser session' = .error failure' after' ∧ failure.Resembles failure' ∧
      after.cursor.toPlace = after'.cursor.toPlace := by
  have hends := h session session' hplace
  rw [hrun] at hends
  cases hrun' : parser session' with
  | ok value' after' =>
    rw [hrun'] at hends
    cases hends
  | error failure' after' =>
    rw [hrun'] at hends
    cases hends with
    | error hfailure hplace => exact ⟨failure', after', rfl, hfailure, hplace⟩

theorem pure (value : α) : Oblivious (Pure.pure value : Parser α) :=
  fun _ _ hplace ↦ .ok value hplace

theorem bind (h : Oblivious parser) (hnext : ∀ value, Oblivious (next value)) :
    Oblivious (parser >>= next) := by
  intro session session' hplace
  cases hrun : parser session with
  | ok value after =>
    obtain ⟨after', hrun', hafter⟩ := h.ok hplace hrun
    rw [bind_of_ok hrun, bind_of_ok hrun']
    exact hnext value after after' hafter
  | error failure after =>
    obtain ⟨failure', after', hrun', hfailure, hafter⟩ := h.error hplace hrun
    rw [bind_of_error hrun, bind_of_error hrun']
    exact .error hfailure hafter

theorem iterate {step : α → Parser (Option α)} (h : ∀ value, Oblivious (step value)) (value : α) :
    Oblivious (iterate step value) := by
  intro session session' hplace
  induction value, session using iterate_induction step generalizing session' with
  | h value session ih =>
  have hremaining {first second : Session} (h : first.cursor.toPlace = second.cursor.toPlace) :
      first.remaining = second.remaining := by rw [Session.remaining, h, Session.remaining]
  cases hrun : step value session with
  | error failure after =>
    obtain ⟨failure', after', hrun', hfailure, hafter⟩ := (h value).error hplace hrun
    rw [iterate_of_error hrun, iterate_of_error hrun']
    exact .error hfailure hafter
  | ok next? after =>
    obtain ⟨after', hrun', hafter⟩ := (h value).ok hplace hrun
    cases next? with
    | none =>
      rw [iterate_of_none hrun, iterate_of_none hrun']
      exact .ok value hafter
    | some next =>
      by_cases hcloser : after.remaining < session.remaining
      · have hcloser' := hcloser
        rw [hremaining hplace, hremaining hafter] at hcloser'
        rw [iterate_of_closer hrun hcloser, iterate_of_closer hrun' hcloser']
        exact ih next after hrun hcloser after' hafter
      · have hcloser' := hcloser
        rw [hremaining hplace, hremaining hafter] at hcloser'
        rw [iterate_of_not_closer hrun hcloser, iterate_of_not_closer hrun' hcloser']
        exact .ok next hafter

theorem attempt (title : String) (depth : Nat) (h : Oblivious parser) :
    Oblivious (attempt title depth parser) := by
  intro session session' hplace
  cases hrun : parser session with
  | ok value after =>
    obtain ⟨after', hrun', hafter⟩ := h.ok hplace hrun
    rw [attempt_of_ok hrun, attempt_of_ok hrun']
    exact .ok value hafter
  | error failure after =>
    obtain ⟨failure', after', hrun', hfailure, -⟩ := h.error hplace hrun
    rw [attempt_of_error hrun, attempt_of_error hrun']
    exact .error hfailure hplace

theorem lookahead {question : Parser Bool} (h : Oblivious question) :
    Oblivious (lookahead question) := by
  intro session session' hplace
  cases hrun : question session with
  | ok answer after =>
    obtain ⟨after', hrun', -⟩ := h.ok hplace hrun
    rw [lookahead_of_ok hrun, lookahead_of_ok hrun']
    exact .ok answer hplace
  | error failure after =>
    obtain ⟨failure', after', hrun', -⟩ := h.error hplace hrun
    rw [lookahead_of_error hrun, lookahead_of_error hrun']
    exact .ok false hplace

theorem either {first : Parser α} {next : α → Parser γ} {second : Parser β} {rest : β → Parser γ}
    (title : String) (depth : Nat) (hfirst : Oblivious first)
    (hnext : ∀ value, Oblivious (next value)) (hsecond : Oblivious second)
    (hrest : ∀ value, Oblivious (rest value)) :
    Oblivious (either title depth first next second rest) := by
  intro session session' hplace
  cases hrun : first session with
  | ok value after =>
    obtain ⟨after', hrun', hafter⟩ := hfirst.ok hplace hrun
    rw [either_of_ok hrun, either_of_ok hrun']
    exact hnext value after after' hafter
  | error failure after =>
    obtain ⟨failure', after', hrun', hfailure, -⟩ := hfirst.error hplace hrun
    have hback : (rewound title depth session after).cursor.toPlace =
        (rewound title depth session' after').cursor.toPlace := hplace
    cases hagain : second (rewound title depth session after) with
    | ok value last =>
      obtain ⟨last', hagain', hlast⟩ := hsecond.ok hback hagain
      rw [either_of_error_ok hrun hagain, either_of_error_ok hrun' hagain']
      exact hrest value last last' hlast
    | error other last =>
      obtain ⟨other', last', hagain', hother, hlast⟩ := hsecond.error hback hagain
      rw [either_of_error_error hrun hagain, either_of_error_error hrun' hagain']
      exact .error (hother.exhausted hfailure) hlast

theorem enter (title : String) (depth : Nat) (h : Oblivious parser) :
    Oblivious (enter title depth parser) := by
  intro session session' hplace
  have hentered : (entered title depth session).cursor.toPlace =
      (entered title depth session').cursor.toPlace := hplace
  cases hrun : parser (entered title depth session) with
  | ok value after =>
    obtain ⟨after', hrun', hafter⟩ := h.ok hentered hrun
    rw [enter_of_ok hrun, enter_of_ok hrun']
    exact .ok value hafter
  | error failure after =>
    obtain ⟨failure', after', hrun', hfailure, hafter⟩ := h.error hentered hrun
    rw [enter_of_error hrun, enter_of_error hrun']
    exact .error hfailure hafter

/-- At the nesting limit a rule fails at the token at hand, whether or not the limit was met
before. -/
theorem exceed (limit : Nat) : Oblivious (exceed limit : Parser α) := by
  intro session session' hplace
  refine .error ⟨?_, rfl⟩ hplace
  simp only [Cursor.failure, hplace]

end Oblivious

/-- The operations of the cursor find out about the token at hand, never about what was tested. -/
theorem Elementary.oblivious {parser : Parser α} (h : Elementary parser) : Oblivious parser := by
  intro session session' hplace
  have hkind : session.cursor.kind = session'.cursor.kind := by rw [hplace]
  have hhere : session.cursor.here = session'.cursor.here := by rw [hplace]
  have hpassed (kinds : KindSet) : (session.tested kinds).passed.cursor.toPlace =
      (session'.tested kinds).passed.cursor.toPlace := Cursor.toPlace_advance hplace
  cases h with
  | look view =>
    have hview : view session.cursor.toPlace = view session'.cursor.toPlace := by rw [hplace]
    change EndsAlike (.ok (view session.cursor.toPlace) session) _
    rw [hview]
    exact .ok _ hplace
  | advance =>
    change EndsAlike (.ok session.cursor.here session.passed) _
    rw [hhere]
    exact .ok _ (Cursor.toPlace_advance hplace)
  | check kind =>
    change EndsAlike (.ok (session.cursor.kind == kind) (session.tested _)) _
    rw [hkind]
    exact .ok _ hplace
  | checkAny kinds =>
    change EndsAlike (.ok (kinds.contains session.cursor.kind) (session.tested kinds)) _
    rw [hkind]
    exact .ok _ hplace
  | consume kind =>
    by_cases h : session.cursor.kind = kind
    · rw [consume_of_kind h, consume_of_kind (hkind.symm.trans h)]
      exact .ok _ (hpassed _)
    · rw [consume_of_ne h, consume_of_ne fun h' ↦ h (hkind.trans h')]
      exact .ok _ hplace
  | consumeAny kinds =>
    cases h : kinds.contains session.cursor.kind with
    | true =>
      rw [consumeAny_of_contains h, consumeAny_of_contains (hkind ▸ h), hhere]
      exact .ok _ (hpassed _)
    | false =>
      rw [consumeAny_of_not_contains h, consumeAny_of_not_contains (hkind ▸ h)]
      exact .ok _ hplace
  | expecting kinds => exact .ok () hplace
  | expect kind =>
    by_cases h : session.cursor.kind = kind
    · rw [expect_of_kind h, expect_of_kind (hkind.symm.trans h), hhere]
      exact .ok _ (hpassed _)
    · rw [expect_of_ne h, expect_of_ne fun h' ↦ h (hkind.trans h')]
      exact .error ⟨hhere, rfl⟩ hplace
  | fail cause => exact .error ⟨hhere, rfl⟩ hplace
  | failMissing what kinds => exact .error ⟨hhere, rfl⟩ hplace

/-- A failed attempt goes back to where it began. -/
theorem toPlace_of_attempt {parser : Parser α} {title : String} {depth : Nat}
    {session after : Session} {failure : Failure}
    (h : attempt title depth parser session = .error failure after) :
    after.cursor.toPlace = session.cursor.toPlace := by
  cases hrun : parser session with
  | ok value last =>
    rw [attempt_of_ok hrun] at h
    cases h
  | error other last =>
    rw [attempt_of_error hrun] at h
    cases h
    rfl

/-- A construction is oblivious if the rules that it nests are. -/
theorem Alike.oblivious (hscope : ∀ rule, Oblivious (scope.nested rule)) {parser parser' : Parser α}
    (h : Alike scope other parser parser') : Oblivious parser := by
  induction h with
  | elementary h => exact h.oblivious
  | pure value => exact .pure value
  | bind _ _ ih ihnext => exact ih.bind ihnext
  | iterate _ _ value ih => exact .iterate ih value
  | attempt title _ ih => exact ih.attempt title _
  | lookahead _ ih => exact ih.lookahead
  | either title _ _ _ _ ihfirst ihnext ihsecond ihrest =>
    exact .either title _ ihfirst ihnext ihsecond ihrest
  | nested rule => exact hscope rule

/-! ### The depth of the nesting -/

/-- Whatever a parser does, it has left every rule that it entered. -/
def Balanced (parser : Parser α) : Prop :=
  ∀ session, openRules (leave parser session).events.reverse = openRules session.events.reverse

theorem Alike.balanced (hscope : ∀ rule, Balanced (scope.nested rule)) {parser parser' : Parser α}
    (h : Alike scope other parser parser') : Balanced parser := by
  refine h.leave_related
    (fun before after ↦ openRules after.events.reverse = openRules before.events.reverse)
    (fun h h' ↦ h'.trans h) (fun _ _ ↦ rfl) (fun title session after h ↦ ?_) hscope
  rw [rewound, List.reverse_cons, openRules_concat]
  exact h

theorem Balanced.enter {parser : Parser α} (title : String) (depth : Nat) (h : Balanced parser) :
    Balanced (enter title depth parser) := by
  intro session
  have hbody := h (entered title depth session)
  have hentered : openRules (entered title depth session).events.reverse =
      openRules session.events.reverse + 1 := by
    rw [entered, List.reverse_cons, openRules_concat]
    rfl
  have hleft (failure? : Option Failure) (after : Session)
      (h : openRules after.events.reverse = openRules session.events.reverse + 1) :
      openRules (left title depth failure? after).events.reverse =
        openRules session.events.reverse := by
    rw [left, List.reverse_cons, openRules_concat, h]
    rfl
  cases hrun : parser (entered title depth session) with
  | ok value after =>
    rw [leave_of_ok hrun, hentered] at hbody
    rw [leave_of_ok (enter_of_ok hrun)]
    exact hleft none after hbody
  | error failure after =>
    rw [leave_of_error hrun, hentered] at hbody
    rw [leave_of_error (enter_of_error hrun)]
    exact hleft (some failure) after hbody

end Parser

/-! ### Rules -/

namespace Rule

theorem oblivious_inside (limit room : Nat) (rule : Rule) :
    Oblivious ((inside limit room).nested rule) := by
  induction room generalizing rule with
  | zero => exact .exceed limit
  | succ room ih =>
    have halike : Alike (inside limit room) (inside limit room) _ _ := rule.alike_body
    exact (halike.oblivious ih).enter _ _

theorem balanced_inside (limit room : Nat) (rule : Rule) :
    Balanced ((inside limit room).nested rule) := by
  induction room generalizing rule with
  | zero => exact fun _ ↦ rfl
  | succ room ih =>
    have halike : Alike (inside limit room) (inside limit room) _ _ := rule.alike_body
    exact (halike.balanced ih).enter _ _

end Rule

/-- In a scope failed speculation leaves no mark. This is about every parser of the grammar, that
is, about everything that is put together from the operations of the cursor and the rules of the
scope. -/
structure Scope.Traceless (scope : Scope) : Prop where
  /-- A failed attempt leaves the cursor where it was, behind the token it was behind, and leaves no
  more and no fewer rules open. -/
  attempt : ∀ {α : Type} {parser : Parser α}, Alike scope scope parser parser →
    ∀ {title : String} {session after : Session} {failure : Failure},
      Parser.attempt title scope.depth parser session = .error failure after →
        after.cursor.toPlace = session.cursor.toPlace ∧
          openRules after.events.reverse = openRules session.events.reverse
  /-- So does a question, whatever the answer. -/
  lookahead : ∀ {question : Parser Bool}, Alike scope scope question question →
    ∀ session : Session, ∃ answer after, Parser.lookahead question session = .ok answer after ∧
      after.cursor.toPlace = session.cursor.toPlace ∧
        openRules after.events.reverse = openRules session.events.reverse
  /-- What else is in a session makes no difference. -/
  oblivious : ∀ {α : Type} {parser : Parser α}, Alike scope scope parser parser →
    Oblivious parser
  /-- A parser ends alike whether or not something was tried in vain before it. -/
  retried : ∀ {α β : Type} {tried : Parser α} {parser : Parser β}, Alike scope scope tried tried →
    Alike scope scope parser parser →
      ∀ {title : String} {session after : Session} {failure : Failure},
        Parser.attempt title scope.depth tried session = .error failure after →
          EndsAlike (parser session) (parser after)

/-- However deep in the nesting and whatever the limit, failed speculation leaves no mark. -/
theorem Rule.traceless_inside (limit room : Nat) : (inside limit room).Traceless where
  attempt h title session _ _ hrun := by
    have hbalanced := (h.attempt title).balanced (balanced_inside limit room) session
    rw [leave_of_error hrun] at hbalanced
    exact ⟨toPlace_of_attempt hrun, hbalanced⟩
  lookahead {question} h session := by
    have hbalanced := h.lookahead.balanced (balanced_inside limit room) session
    cases hrun : question session with
    | ok answer after =>
      rw [leave_of_ok (lookahead_of_ok hrun)] at hbalanced
      exact ⟨answer, _, lookahead_of_ok hrun, rfl, hbalanced⟩
    | error failure after =>
      rw [leave_of_ok (lookahead_of_error hrun)] at hbalanced
      exact ⟨false, _, lookahead_of_error hrun, rfl, hbalanced⟩
  oblivious h := h.oblivious (oblivious_inside limit room)
  retried _ h _ session after _ hrun :=
    h.oblivious (oblivious_inside limit room) session after (toPlace_of_attempt hrun).symm

end CorpusQuery
