import CorpusQuery.Proofs.Nesting.Cutoff

/-!
Failures that say what would have been accepted. A test notes its kinds before it can fail, so a
failed test always has some to list; the few failures that are raised without a test of their own
stand behind one, at the same token (`Parser.InformsAt.fail`). What a choice reports lists the
expectations of one of its alternatives or of both, so merging loses none of them
(`Failure.isEmpty_exhausted`). Only a failure at the nesting limit may have nothing to list, and a
parse that meets the limit reports the limit.
-/

set_option autoImplicit false
set_option relaxedAutoImplicit false

namespace CorpusQuery

namespace KindSet

theorem isEmpty_of_mem {kind : Kind} {kinds : KindSet} (h : kind ∈ kinds) :
    kinds.isEmpty = false := by
  refine Bool.eq_false_iff.mpr fun hempty ↦ ?_
  have hbits : kinds.bits = 0 := eq_of_beq hempty
  rw [mem_iff, contains, hbits] at h
  cases h.symm.trans BitVec.getLsbD_zero

@[simp] theorem isEmpty_single (kind : Kind) : (single kind).isEmpty = false :=
  isEmpty_of_mem (show kind ∈ single kind by simp [mem_iff])

@[simp] theorem isEmpty_union (first second : KindSet) :
    (first ∪ second).isEmpty = (first.isEmpty && second.isEmpty) := by
  rw [Bool.eq_iff_iff, Bool.and_eq_true, isEmpty, isEmpty, isEmpty, beq_iff_eq, beq_iff_eq,
    beq_iff_eq]
  exact BitVec.or_eq_zero_iff

end KindSet

/-- The failure that is picked among two lists what one of them lists, or what both do. -/
theorem Failure.isEmpty_exhausted {failure other : Failure} (h : failure.expected.isEmpty = false)
    (hother : other.expected.isEmpty = false) :
    (other.exhausted [failure]).expected.isEmpty = false := by
  simp only [exhausted, List.foldl_cons, List.foldl_nil, further]
  split
  · exact h
  · split
    · rw [merge, KindSet.isEmpty_union, hother]
      rfl
    · exact hother

namespace Parser

variable {α β γ : Type}

/-- If a parser fails in a session without having met the limit, its failure says what would have
been accepted. -/
def InformsAt (parser : Parser α) (session : Session) : Prop :=
  ∀ failure after, parser session = .error failure after → after.overflow = none →
    failure.expected.isEmpty = false

/-- Whatever a parser fails at, its failure says what would have been accepted, unless the parse has
met the limit. -/
def Informs (parser : Parser α) : Prop := ∀ session, InformsAt parser session

/-! ### In one session -/

namespace InformsAt

variable {session : Session}

theorem of_ok {parser : Parser α} {value : α} {after : Session}
    (h : parser session = .ok value after) : InformsAt parser session := by
  intro failure last hrun
  cases h.symm.trans hrun

/-- A failure behind a test has the kinds that were tested to list. -/
theorem fail {cause : Cause} (h : session.cursor.expected.isEmpty = false) :
    InformsAt (fail cause : Parser α) session := by
  intro failure after hrun _
  cases hrun
  exact h

theorem bind {parser : Parser α} {next : α → Parser β} (h : InformsAt parser session)
    (hnext : ∀ value after, parser session = .ok value after → InformsAt (next value) after) :
    InformsAt (parser >>= next) session := by
  intro failure after hrun hnone
  cases hfirst : parser session with
  | error failure' between =>
    rw [bind_of_error hfirst] at hrun
    cases hrun
    exact h failure after hfirst hnone
  | ok value between =>
    rw [bind_of_ok hfirst] at hrun
    exact hnext value between hfirst failure after hrun hnone

theorem ite {condition : Prop} [Decidable condition] {yes no : Parser α}
    (hyes : InformsAt yes session) (hno : InformsAt no session) :
    InformsAt (if condition then yes else no) session := by
  split
  · exact hyes
  · exact hno

end InformsAt

/-- Behind a test there is something to list. -/
theorem isEmpty_tested (session : Session) {kinds : KindSet} (h : kinds.isEmpty = false) :
    (session.tested kinds).cursor.expected.isEmpty = false := by
  change (session.cursor.expected ∪ kinds).isEmpty = false
  rw [KindSet.isEmpty_union, h, Bool.and_false]

namespace Informs

/-! ### Sequence -/

theorem pure (value : α) : Informs (pure value) := fun _ ↦ .of_ok rfl

theorem bind {parser : Parser α} {next : α → Parser β} (h : Informs parser)
    (hnext : ∀ value, Informs (next value)) : Informs (parser >>= next) :=
  fun session ↦ (h session).bind fun value after _ ↦ hnext value after

theorem map (f : α → β) {parser : Parser α} (h : Informs parser) : Informs (f <$> parser) := by
  rw [map_eq_pure_bind]
  exact h.bind fun _ ↦ .pure _

theorem ite {condition : Prop} [Decidable condition] {yes no : Parser α}
    (hyes : Informs yes) (hno : Informs no) : Informs (if condition then yes else no) :=
  fun session ↦ .ite (hyes session) (hno session)

/-! ### Tokens -/

theorem look (view : Place → α) : Informs (look view) := fun _ ↦ .of_ok rfl

/-- An operation of the cursor does not fail. -/
theorem onCursor (operation : Cursor → α × Cursor) : Informs (onCursor operation) :=
  fun _ ↦ .of_ok rfl

theorem advance : Informs advance := .onCursor _

theorem check (kind : Kind) : Informs (check kind) := .onCursor _

theorem checkAny (kinds : KindSet) : Informs (checkAny kinds) := .onCursor _

theorem consume (kind : Kind) : Informs (consume kind) := .onCursor _

theorem consumeAny (kinds : KindSet) : Informs (consumeAny kinds) := .onCursor _

theorem expecting (kinds : KindSet) : Informs (expecting kinds) := .onCursor _

theorem expect (kind : Kind) : Informs (expect kind) := by
  intro session
  by_cases hkind : session.cursor.kind = kind
  · exact .of_ok (expect_of_kind hkind)
  · intro failure after hrun _
    rw [expect_of_ne hkind] at hrun
    cases hrun
    exact isEmpty_tested session (KindSet.isEmpty_single kind)

theorem failMissing (what : String) {kinds : KindSet} (h : kinds.isEmpty = false) :
    Informs (failMissing what kinds : Parser α) := by
  intro session failure after hrun _
  cases hrun
  exact isEmpty_tested session h

/-- Failing for another reason is no less informative behind a note of what is acceptable. -/
theorem expecting_fail {kinds : KindSet} (h : kinds.isEmpty = false) (cause : Cause) :
    Informs (do Parser.expecting kinds; (fail cause : Parser α)) :=
  fun session ↦ .bind (Informs.expecting kinds session) fun _ after hrun ↦ by
    cases hrun
    exact .fail (isEmpty_tested session h)

theorem oneOf (table : List (Kind × α)) : Informs (oneOf table) := by
  refine .bind (.consumeAny _) fun found ↦ ?_
  cases found with
  | none => exact .pure _
  | some token => exact .pure _

/-! ### Phrases -/

theorem phraseFrom {category : Category} (start : Nat) {body : Parser (Draft category)}
    (h : Informs body) : Informs (phraseFrom start body) :=
  h.bind fun _ ↦ .bind (.look _) fun _ ↦ .pure _

theorem phrase {category : Category} {body : Parser (Draft category)} (h : Informs body) :
    Informs (phrase body) :=
  .bind (.look _) fun start ↦ phraseFrom start h

theorem behind (kind : Kind) {body : Parser α} (h : Informs body) :
    Informs (behind kind body) :=
  .bind (.consume kind) fun _ ↦ ite (h.map some) (.pure none)

/-! ### Repetition -/

theorem iterate {step : α → Parser (Option α)} (h : ∀ value, Informs (step value)) (value : α) :
    Informs (iterate step value) := by
  intro session
  induction value, session using iterate_induction step with
  | h value session ih =>
  intro failure after hrun hnone
  cases hstep : step value session with
  | error failure' between =>
    rw [iterate_of_error hstep] at hrun
    cases hrun
    exact h value session failure after hstep hnone
  | ok next? between =>
    cases next? with
    | none =>
      rw [iterate_of_none hstep] at hrun
      cases hrun
    | some next =>
      by_cases hcloser : between.remaining < session.remaining
      · rw [iterate_of_closer hstep hcloser] at hrun
        exact ih next between hstep hcloser failure after hrun hnone
      · rw [iterate_of_not_closer hstep hcloser] at hrun
        cases hrun

theorem many {item : Parser (Option α)} (h : Informs item) : Informs (many item) :=
  .bind (.iterate (fun _ ↦ h.bind fun _ ↦ .pure _) []) fun _ ↦ .pure _

theorem separatedBy (separator : Kind) {item : Parser α} (h : Informs item) :
    Informs (separatedBy separator item) :=
  h.bind fun _ ↦ .bind (.many (.behind separator h)) fun _ ↦ .pure _

/-! ### Choice -/

theorem attempt (title : String) (depth : Nat) {parser : Parser α} (h : Informs parser) :
    Informs (attempt title depth parser) := by
  intro session failure after hrun hnone
  cases hbody : parser session with
  | ok value between =>
    rw [attempt_of_ok hbody] at hrun
    cases hrun
  | error failure' between =>
    rw [attempt_of_error hbody] at hrun
    cases hrun
    exact h session failure between hbody hnone

/-- A question is never failed. -/
theorem lookahead (question : Parser Bool) : Informs (lookahead question) := by
  intro session
  cases hbody : question session with
  | ok answer after => exact .of_ok (lookahead_of_ok hbody)
  | error failure after => exact .of_ok (lookahead_of_error hbody)

/-- A failed choice has met the limit if its first alternative has. -/
theorem either (title : String) (depth : Nat) {first : Parser α} {next : α → Parser γ}
    {second : Parser β} {rest : β → Parser γ} (h : Informs first)
    (hnext : ∀ value, Informs (next value)) (hsticky : Sticky second) (hsecond : Informs second)
    (hrest : ∀ value, Informs (rest value)) :
    Informs (either title depth first next second rest) := by
  intro session failure after hrun hnone
  cases hfirst : first session with
  | ok value between =>
    rw [either_of_ok hfirst] at hrun
    exact hnext value between failure after hrun hnone
  | error failure' between =>
    cases hagain : second (rewound title depth session between) with
    | ok value last =>
      rw [either_of_error_ok hfirst hagain] at hrun
      exact hrest value last failure after hrun hnone
    | error other last =>
      rw [either_of_error_error hfirst hagain] at hrun
      cases hrun
      have hback : (rewound title depth session between).overflow = none :=
        hsticky.overflow_eq_none (by rw [leave_of_error hagain]; exact hnone)
      exact Failure.isEmpty_exhausted (h session failure' between hfirst hback)
        (hsecond _ other after hagain hnone)

/-! ### Nesting -/

theorem enter (title : String) (depth : Nat) {body : Parser α} (h : Informs body) :
    Informs (enter title depth body) := by
  intro session failure after hrun hnone
  cases hbody : body (entered title depth session) with
  | ok value between =>
    rw [enter_of_ok hbody] at hrun
    cases hrun
  | error failure' between =>
    rw [enter_of_error hbody] at hrun
    cases hrun
    exact h _ failure between hbody hnone

/-- A parse that is refused a rule has met the limit. -/
theorem exceed (limit : Nat) : Informs (exceed limit : Parser α) := by
  intro session failure after hrun hnone
  cases hrun
  cases hoverflow : session.overflow <;> simp [hoverflow] at hnone

end Informs

end Parser

end CorpusQuery
