import CorpusQuery.Proofs.Coupling.Index

/-!
Parses that run over the same tokens. What was tested, what was traced and how often a parse has
failed before has no influence on what a rule reads: from two places with the same tokens ahead a
rule reads the same, or fails at the same token for the same reason. The second list may also have
tokens before the first one, as a selection has behind the keyword that introduces it.
-/

set_option autoImplicit false
set_option relaxedAutoImplicit false

namespace CorpusQuery

open CorpusQuery.Parser

/-- The second of two token lists is the first one behind so many keywords. -/
structure Place.Aligned (blur : Nat → Nat) (start start' : Place) (shift : Nat) : Prop where
  closed : start.Closed
  closed' : start'.Closed
  length_eq : start'.ahead.length = start.ahead.length + shift
  peek_eq : ∀ index, start'.peek (index + shift) = start.peek index
  before : ∀ index < shift, (start'.peek index).kind = .keyword .find ∧
    blur (start'.peek index).span.stop = blur (start.peek 0).span.start

namespace Place.Aligned

variable {blur : Nat → Nat} {start start' : Place} {shift : Nat}

theorem refl (h : start.Closed) : Aligned blur start start 0 :=
  ⟨h, h, rfl, fun _ ↦ rfl, fun _ hlt ↦ absurd hlt (Nat.not_lt_zero _)⟩

theorem agree (h : Aligned blur start start' shift) (index : Nat) :
    Place.Abreast.Agree blur start start' shift index where
  lexeme i _ := by rw [h.peek_eq]
  touches i _ _ := by rw [h.peek_eq, h.peek_eq]
  blurred i _ := by rw [h.peek_eq]; exact ⟨rfl, rfl⟩
  before := h.before

end Place.Aligned

namespace Coupling

/-- Sessions over the same tokens, and failures at the same token of the list for the same cause. -/
def aligned (blur : Nat → Nat) (spent : Option Failure → Prop) (start start' : Place)
    (shift : Nat) : Coupling where
  blur
  sessions session copy :=
    Place.Abreast start start' shift session.cursor.toPlace copy.cursor.toPlace
  failures failure failure' := failure.token ∈ start.tokens ∧ failure.token = failure'.token ∧
    failure.cause = failure'.cause
  spent
  past _ := False
  beyond _ := False

variable {blur : Nat → Nat} {spent : Option Failure → Prop} {start start' : Place} {shift : Nat}

/-- What is told apart of offsets is told apart of the later one of two. -/
def BlurMax (blur : Nat → Nat) : Prop :=
  ∀ first second, blur (max first second) = max (blur first) (blur second)

/-- Failures at the same tokens for the same causes are picked alike. -/
theorem exhausted_aligned {failure failure' other other' : Failure}
    (hfailure : (aligned blur spent start start' shift).failures failure failure')
    (hother : (aligned blur spent start start' shift).failures other other') :
    (aligned blur spent start start' shift).failures (other.exhausted [failure])
      (other'.exhausted [failure']) := by
  obtain ⟨hmem, htoken, hcause⟩ := hfailure
  obtain ⟨hmem', htoken', hcause'⟩ := hother
  simp only [Failure.exhausted, List.foldl_cons, List.foldl_nil, Failure.further, ← htoken,
    ← htoken']
  split
  · exact ⟨hmem, htoken, hcause⟩
  · split
    · refine ⟨?_, ?_, rfl⟩
      · simp only [Failure.merge]
        split
        · exact hmem
        · exact hmem'
      · simp only [Failure.merge, Failure.atEnd, ← htoken, ← htoken']
        rfl
    · exact ⟨hmem', htoken', hcause'⟩

theorem lawful_aligned (hmax : BlurMax blur) (h : Place.Aligned blur start start' shift) :
    (aligned blur spent start start' shift).Lawful where
  blur_max {first first' second second'} hfirst hsecond := by
    change blur (max first second) = blur (max first' second')
    rw [hmax, hmax]
    exact congrArg₂ max hfirst hsecond
  sees hsessions := hsessions.seenAs h.closed (h.agree _)
  closed hsessions := ⟨hsessions.begins.closed h.closed, hsessions.begins_other.closed h.closed'⟩
  tested _ hsessions := hsessions
  traced _ _ hsessions := hsessions
  passed hsessions := .inr (hsessions.advance (hsessions.ahead_nil_iff h.length_eq))
  rewound _ _ _ hsessions _ := hsessions
  answered hsessions _ := hsessions
  fail cause hsessions := by
    refine ⟨?_, ?_, rfl⟩
    · rw [← hsessions.begins.tokens_eq]
      exact List.mem_append_right _ List.mem_cons_self
    have hhere := hsessions.begins_other.here_eq
    rw [hsessions.position_eq, h.peek_eq, ← hsessions.begins.here_eq] at hhere
    exact hhere.symm
  exhausted hfailure hother := exhausted_aligned hfailure hother
  past_passed _ h := h
  beyond_fail _ _ h := h
  beyond_exhausted h := h.elim id id

/-- Without room both parses fail at the same token. -/
theorem cutoff_aligned (hmax : BlurMax blur) (h : Place.Aligned blur start start' shift)
    (limit : Nat) (rule : Rule) :
    Coupled (aligned blur (fun _ ↦ False) start start' shift) Anywhere (Tree.blurred blur)
      (rule.run limit 0) (rule.run limit 0) where
  sticky _ hspent := hspent
  forward _ hpast := hpast
  follows _ _ hsessions _ :=
    .inr (.error ((lawful_aligned hmax h).fail (.nestingLimit limit) hsessions) hsessions)

end Coupling

/-- Whatever was tested and traced before, a quantifier is read again in the same way. -/
theorem Grammar.quantifier_reread {start : Place} {session copy : Session} (hclosed : start.Closed)
    (hbegins : start.Begins session.cursor.toPlace)
    (hplace : copy.cursor.toPlace = session.cursor.toPlace) :
    (∃ value after value' after', quantifier session = .ok value after ∧
        quantifier copy = .ok value' after' ∧ after'.cursor.toPlace = after.cursor.toPlace) ∨
      ∃ failure after failure' after', quantifier session = .error failure after ∧
        quantifier copy = .error failure' after' ∧ failure'.token = failure.token := by
  have haligned : Place.Aligned id start start 0 := .refl hclosed
  have hlawful : (Coupling.aligned id (fun _ ↦ False) start start 0).Lawful :=
    Coupling.lawful_aligned (fun _ _ ↦ rfl) haligned
  have hscopes := Coupling.scopes_inside hlawful
    (fun _ ↦ .of_never (fun _ h ↦ h) (fun _ h ↦ h) _)
    (Coupling.cutoff_aligned (fun _ _ ↦ rfl) haligned 0) 0
  have hquantifier : Coupled (Coupling.aligned id (fun _ ↦ False) start start 0) Anywhere
      (Tree.blurred id) quantifier quantifier := coupled_quantifier hlawful hscopes
  have hposition : copy.cursor.position = session.cursor.position := congrArg Place.position hplace
  have hfollows := hquantifier.follows session copy ⟨hbegins, hplace ▸ hbegins, hposition⟩ trivial
  generalize quantifier session = result, quantifier copy = result' at hfollows
  cases hfollows.resolve_left (by rintro (h | h) <;> cases result <;> exact h) with
  | @ok value value' after after' _ hafter =>
    exact .inl ⟨value, after, value', after', rfl, rfl,
      (hafter.begins.eq_of_position_eq hafter.begins_other hafter.position_eq).symm⟩
  | @error failure failure' after after' hfailure _ =>
    exact .inr ⟨failure, after, failure', after', rfl, rfl, hfailure.2.1.symm⟩

end CorpusQuery
