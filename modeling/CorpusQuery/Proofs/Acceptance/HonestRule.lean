import CorpusQuery.Proofs.Acceptance.HonestQuery
import CorpusQuery.Proofs.Negation.Leads
import CorpusQuery.Proofs.Precedence.Grammar

/-!
All rules and entries of the grammar are honest, under every limit. What is left to show is that an
expression that ends before a bang is no integer where the bang begins a set predicate
(`Fork.scopes_inside`).
-/

set_option autoImplicit false
set_option relaxedAutoImplicit false

namespace CorpusQuery

open CorpusQuery.Parser CorpusQuery.Grammar CorpusQuery.Fork

namespace Fork

variable {fork : Fork}

theorem honest_body {scope : Scope} (hs : fork.Scopes scope) (rule : Rule) :
    Honest fork (fork.stray rule) Parser.Anywhere (view rule) (rule.body scope)
      (rule.body scope) := by
  cases rule with
  | expression least => exact honest_expression hs least
  | loop => exact (honest_loop hs).weaken fun _ _ _ ↦ rfl
  | structuralConstraint => exact (honest_structuralConstraint hs).weaken fun _ _ _ ↦ rfl
  | nodeStatement least => exact (honest_nodeStatement hs least).weaken fun _ _ _ ↦ rfl
  | node => exact (honest_node hs).weaken fun _ _ _ ↦ rfl
  | marker least => exact (honest_marker hs least).weaken fun _ _ _ ↦ rfl
  | payload => exact (honest_payload hs).weaken fun _ _ _ ↦ rfl
  | selection => exact (honest_selection hs).weaken fun _ _ _ ↦ rfl

theorem atSetPredicate_of_bang {place : Place} (hkind : place.kind = .symbol .bang)
    (hnext : place.peekKind 1 = .keyword .inKw) : Continuation.atSetPredicate place = true := by
  have hhere : place.peekKind 0 = .symbol .bang := by
    rwa [Place.peekKind, Place.peek, Place.along_zero]
  have hsteps : Verge.steps place = 1 := by
    rw [Verge.steps, hkind, show Continuation.isUniversal (.symbol .bang) = false from rfl,
      Bool.toNat_false, hhere]
    rfl
  rwa [Verge.atSetPredicate_iff, hsteps]

/-- An integer ends before a bang only where the bang begins no set predicate. -/
theorem not_integer_inside (hapt : fork.Apt) (limit room : Nat) {session after : Session}
    {expression : Phrase .expression} (hbegins : fork.right.start.Begins session.cursor.toPlace)
    (hrun : (Rule.inside limit room).expression 0 session = .ok expression after)
    (hat : fork.right.At after.cursor.toPlace) (hbang : fork.right.kind = .symbol .bang) :
    isInteger expression = false := by
  refine Bool.eq_false_iff.mpr fun hinteger ↦ ?_
  have hfit := hbegins.fit fork.right.closed
  obtain ⟨-, -, hleads⟩ :=
    (Rule.leads_inside fork.right.start limit room 0 session.cursor.position).ok hfit
      ⟨hbegins, rfl⟩ hrun
  obtain ⟨hdigits, hlast⟩ := hleads.integer hinteger
  have hindex : fork.left.index = session.cursor.position + 1 := by
    rw [← fork.index_eq, ← hlast]
    exact hat.2.symm
  have hprevious : digitKinds.contains fork.previous = true := by
    rw [Fork.previous, ← fork.agree _ (by omega), hindex]
    exact hdigits
  have hin := hapt.bang hbang (by omega) hprevious
  obtain ⟨-, -, -, hends⟩ :=
    Ensures.ok ((Rule.grading_inside _ limit room).expression 0) hfit trivial hrun
  have hset := atSetPredicate_of_bang (hat.kind_eq.trans hbang) (hat.peekKind_one.trans hin)
  refine absurd (hends .setPredicate ?_) (Nat.not_lt_zero _)
  rw [Continuation.at?, if_pos hset]

/-- All rules are honest. -/
theorem scopes_inside (hapt : fork.Apt) (limit room : Nat) :
    fork.Scopes (Rule.inside limit room) := by
  induction room with
  | zero =>
    exact {
      left := fork.left.scopes_inside limit 0
      right := fork.right.scopes_inside limit 0
      apt := hapt
      progressive := Rule.progressive_inside limit 0
      nested := fun rule ↦ ⟨(fork.left.scopes_inside limit 0).aloof rule,
        (fork.right.scopes_inside limit 0).aloof rule,
        fun _ _ _ _ ↦ .left (Coupling.escapes_exceed (fun _ ↦ .rfl) limit)⟩
      compound := fun session expression after hbegins hrun hat hbang ↦
        not_integer_inside hapt limit 0 hbegins hrun hat hbang }
  | succ room hs =>
    exact {
      left := fork.left.scopes_inside limit (room + 1)
      right := fork.right.scopes_inside limit (room + 1)
      apt := hapt
      progressive := Rule.progressive_inside limit (room + 1)
      nested := fun rule ↦ (honest_body hs rule).enter
      compound := fun session expression after hbegins hrun hat hbang ↦
        not_integer_inside hapt limit (room + 1) hbegins hrun hat hbang }

end Fork

/-! ### Entries -/

namespace Entry

variable {fork : Fork} {scope : Scope}

theorem honest_entry (hs : fork.Scopes scope) (entry : Entry) :
    Honest fork (fork.Reaches (.single .endOfInput)) Parser.Anywhere unseen (entry.body scope)
      (entry.body scope) := by
  cases entry with
  | expression => exact hs.loose
  | nodeStatement => exact hs.rule (.nodeStatement 0) rfl
  | structuralConstraint => exact hs.rule .structuralConstraint rfl
  | selection => exact (hs.nested .selection).blind
  | payload => exact (hs.nested .payload).blind
  | group => exact honest_group hs
  | result => exact honest_result hs

/-- One of the parses succeeds. -/
def Done : Stray := fun end₁ end₂ ↦ end₁.1 = none ∨ end₂.1 = none

theorem honest_complete (hs : fork.Scopes scope) (entry : Entry) :
    Honest fork Done Parser.Anywhere unseen (entry.complete scope) (entry.complete scope) := by
  have hdone {end₁ end₂ : Option Failure × Cursor}
      (h : fork.Reaches (.single .endOfInput) end₁ end₂) : Done end₁ end₂ := by
    cases h with
    | left => exact .inl rfl
    | right => exact .inr rfl
  have hends {verge : Verge} {session after : Session} {phrase : Phrase entry.category}
      (hrun : entry.body scope session = .ok phrase after) (hat : verge.At after.cursor.toPlace)
      (hkind : (KindSet.single .endOfInput).contains verge.kind = true) :
      (ending (entry.complete scope session)).1 = none := by
    rw [KindSet.contains_single, decide_eq_true_eq] at hkind
    obtain ⟨token, last, hrun', -⟩ := expect_end_at hat hkind
    rw [complete, bind_of_ok hrun, bind_of_ok hrun']
    rfl
  refine (honest_entry hs entry).bind_stray (fun _ ↦ Parser.Anywhere)
    (fun _ _ _ _ _ _ _ _ ↦ trivial) (fun phrase phrase' _ ↦ ?_) fun session copy _ _ hstray ↦ ?_
  · refine .finish (honest_expect_end.astray fun _ _ ↦ hdone) fun _ _ _ ↦ ?_
    rfl
  · rcases hstray.cases with ⟨phrase, after, hrun, hat, hkind⟩ | ⟨phrase, after, hrun, hat, hkind⟩
    · exact .stray (.inl (hends hrun hat hkind))
    · exact .stray (.inr (hends hrun hat hkind))

end Entry

end CorpusQuery
