import CorpusQuery.Proofs.Acceptance.CrossingPattern
import CorpusQuery.Proofs.Acceptance.Honest

/-!
What is asked of a scope in which two lists that part are parsed: that its rules are honest and
cross either verge (`Fork.Scopes`), and in which ways two parses of a rule may end apart
(`Fork.stray`). It is also told here what the second list has to be like at the fork (`Fork.Apt`).
-/

set_option autoImplicit false
set_option relaxedAutoImplicit false

namespace CorpusQuery

open CorpusQuery.Parser CorpusQuery.Grammar CorpusQuery.Fork

namespace Fork

variable (fork : Fork)

/-- The kind of the token before the fork. -/
def previous : Kind := (fork.left.start.peek (fork.left.index - 1)).kind

/-- What the second list has at the fork touches the token before it and is followed by what it
needs, and it is none of the kinds that the grammar lists without need. -/
structure Apt : Prop where
  touching : 0 < fork.left.index → (fork.left.start.peek (fork.left.index - 1)).span.stop =
    (fork.right.start.peek fork.left.index).span.start
  bracket : (KindSet.ofKeys valueTypes).contains fork.right.kind = true →
    fork.right.next = .symbol .leftBracket
  bang : fork.right.kind = .symbol .bang → 0 < fork.left.index →
    digitKinds.contains fork.previous = true → fork.right.next = .keyword .inKw
  negation : Continuation.isNegation fork.right.kind = true → fork.right.next = .keyword .inKw →
    0 < fork.left.index ∧ digitKinds.contains fork.previous = true
  last : fork.right.kind = .keyword .all → fork.right.next = .endOfInput
  optional : fork.right.kind = .keyword .optional → 0 < fork.left.index →
    fork.previous ≠ .keyword .optional
  quantifier : (KindSet.ofList [.symbol .less, .symbol .pipe]).contains fork.right.kind = true →
    0 < fork.left.index →
      (KindSet.ofList [.symbol .less, .symbol .pipe]).contains fork.previous = false

variable {fork} in
theorem previous_eq {place : Place} {kind : Kind} (hbegins : fork.left.start.Begins place)
    (hposition : place.position = fork.left.index) (hkind : place.previousKind? = some kind) :
    fork.previous = kind ∧ 0 < fork.left.index := by
  rw [Place.previousKind?] at hkind
  cases hbehind : place.behind with
  | nil =>
    rw [hbehind] at hkind
    cases hkind
  | cons previous rest =>
    rw [hbehind, List.head?_cons, Option.map_some, Option.some.injEq] at hkind
    rw [Fork.previous, ← hposition, ← hbegins.previous_eq hbehind, Place.position, hbehind]
    exact ⟨hkind, Nat.succ_pos _⟩

end Fork

/-- A star before the verge begins a set predicate that reaches the verge. -/
structure Verge.Bars (verge : Verge) (place : Place) : Prop where
  begins : verge.start.Begins place
  position_lt : place.position < verge.index
  kind_eq : place.kind = .symbol .star
  atSetPredicate : Continuation.atSetPredicate place = true
  reach : verge.index ≤ place.position + Verge.steps place

namespace Fork

/-- The one parse ended before a star that begins a set predicate, and the other one failed behind
it. -/
inductive Barred (fork : Fork) : Stray
  | left {cursor cursor' : Cursor} {failure : Failure} (h : fork.left.Bars cursor.toPlace) :
      Barred fork (none, cursor) (some failure, cursor')
  | right {cursor cursor' : Cursor} {failure : Failure} (h : fork.right.Bars cursor'.toPlace)
      (hfailure : fork.Spares failure) (hcursor : fork.Spared cursor) :
      Barred fork (some failure, cursor) (none, cursor')

theorem Barred.cases {fork : Fork} {α : Type} {result result' : EStateM.Result Failure Session α}
    (h : fork.Barred (ending result) (ending result')) :
    (∃ value after failure' after', result = .ok value after ∧ result' = .error failure' after' ∧
      fork.left.Bars after.cursor.toPlace) ∨
      ∃ failure after value' after', result = .error failure after ∧ result' = .ok value' after' ∧
        fork.right.Bars after'.cursor.toPlace ∧ fork.Spares failure ∧ fork.Spared after.cursor := by
  cases result with
  | ok value after =>
    cases result' with
    | ok value' after' => cases h
    | error failure' after' =>
      obtain ⟨hbars⟩ := h
      exact .inl ⟨value, after, failure', after', rfl, rfl, hbars⟩
  | error failure after =>
    cases result' with
    | error failure' after' => cases h
    | ok value' after' =>
      cases h with
      | right hbars hfailure hcursor =>
        exact .inr ⟨failure, after, value', after', rfl, rfl, hbars, hfailure, hcursor⟩

/-- One of the parses ended at the fork with one of the kinds at hand. -/
inductive Reaches (fork : Fork) (kinds : KindSet) : Stray
  | left {cursor : Cursor} {other : Option Failure × Cursor} (h : fork.left.At cursor.toPlace)
      (hkind : kinds.contains fork.left.kind = true) : Reaches fork kinds (none, cursor) other
  | right {cursor : Cursor} {other : Option Failure × Cursor} (h : fork.right.At cursor.toPlace)
      (hkind : kinds.contains fork.right.kind = true) : Reaches fork kinds other (none, cursor)

theorem Reaches.cases {fork : Fork} {kinds : KindSet} {α : Type}
    {result result' : EStateM.Result Failure Session α}
    (h : fork.Reaches kinds (ending result) (ending result')) :
    (∃ value after, result = .ok value after ∧ fork.left.At after.cursor.toPlace ∧
      kinds.contains fork.left.kind = true) ∨
      ∃ value after, result' = .ok value after ∧ fork.right.At after.cursor.toPlace ∧
        kinds.contains fork.right.kind = true := by
  have hok {result : EStateM.Result Failure Session α} {cursor : Cursor}
      (hend : ending result = (none, cursor)) :
      ∃ value after, result = .ok value after ∧ after.cursor = cursor := by
    cases result with
    | ok value after => exact ⟨value, after, rfl, congrArg Prod.snd hend⟩
    | error failure after => cases congrArg Prod.fst hend
  generalize hend : ending result = end₁, hend' : ending result' = end₂ at h
  cases h with
  | left h hkind =>
    obtain ⟨value, after, hrun, rfl⟩ := hok hend
    exact .inl ⟨value, after, hrun, h, hkind⟩
  | right h hkind =>
    obtain ⟨value, after, hrun, rfl⟩ := hok hend'
    exact .inr ⟨value, after, hrun, h, hkind⟩

/-- How a rule may stray. -/
def stray (fork : Fork) : Rule → Stray
  | .expression least => fun end₁ end₂ ↦ 3 < least ∧ fork.Barred end₁ end₂
  | .selection | .payload => fork.Reaches (.single .endOfInput)
  | _ => Never

/-- What is told apart of the phrases that a rule reads. -/
def view : (rule : Rule) → Phrase rule.category → Bool
  | .expression _ => isInteger
  | _ => fun _ ↦ false

/-- A scope whose rules are honest and cross either verge. -/
structure Scopes (fork : Fork) (scope : Scope) : Prop where
  left : fork.left.Scopes scope
  right : fork.right.Scopes scope
  apt : fork.Apt
  progressive : scope.Progressive
  nested : ∀ rule, Honest fork (fork.stray rule) Anywhere (view rule) (scope.nested rule)
    (scope.nested rule)
  /-- An integer before a bang is a possessive count and no constraint, and where the second list
  has such a bang at the fork, it goes on with `IN`. -/
  compound : ∀ session expression after, fork.right.start.Begins session.cursor.toPlace →
    scope.expression 0 session = .ok expression after → fork.right.At after.cursor.toPlace →
      fork.right.kind = .symbol .bang → isInteger expression = false

namespace Scopes

variable {fork : Fork} {scope : Scope} {stray : Stray} {given : Place → Prop}

theorem expression (hs : fork.Scopes scope) (least : Nat) :
    Honest fork fork.Barred given isInteger (scope.expression least) (scope.expression least) :=
  ((hs.nested (.expression least)).astray fun _ _ h ↦ h.2).anywhere

theorem expression_of_le (hs : fork.Scopes scope) {least : Nat} (h : least ≤ 3) :
    Honest fork stray given isInteger (scope.expression least) (scope.expression least) :=
  ((hs.nested (.expression least)).astray fun _ _ h' ↦ absurd h'.1 (Nat.not_lt_of_le h)).anywhere

theorem loose (hs : fork.Scopes scope) :
    Honest fork stray given unseen (scope.expression 0) (scope.expression 0) :=
  (hs.expression_of_le (Nat.zero_le _)).blind

theorem rule (hs : fork.Scopes scope) (rule : Rule) (h : fork.stray rule = Never) :
    Honest fork stray given unseen (scope.nested rule) (scope.nested rule) := by
  have hnested := hs.nested rule
  rw [h] at hnested
  exact hnested.blind.steady.anywhere

theorem loop (hs : fork.Scopes scope) : Honest fork stray given unseen scope.loop scope.loop :=
  hs.rule .loop rfl

end Scopes

end Fork

end CorpusQuery
