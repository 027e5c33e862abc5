import CorpusQuery.Proofs.Choice.Agreement
import CorpusQuery.Proofs.Precedence.Level

/-!
Precedence and associativity. In every tree that an entry returns the parts of every expression bind
as its form asks (`Entry.graded_of_outcome`). One loop reads all that goes on behind an operand;
what carries the argument through it is that whatever may go on at the place may have the expression
read so far as its leftmost operand (`Phrase.OpenAt`), because the right operands read before have
taken all that binds more tightly.
-/

set_option autoImplicit false
set_option relaxedAutoImplicit false

namespace CorpusQuery

open CorpusQuery.Parser CorpusQuery.Grammar

/-! ### Values -/

/-- What the parser returns has the property. -/
def Parser.Yields {α : Type} (total : Nat) (parser : Parser α) (holds : α → Prop) : Prop :=
  Ensures total Untraced Anywhere parser fun value _ ↦ holds value

/-- The form asks of the parts what they have, and so does every phrase among them. -/
def Draft.Graded {category : Category} (draft : Draft category) : Prop :=
  draft.form.Grades draft.parts ∧ draft.parts.Graded

namespace Parser.Yields

variable {α β γ : Type} {total : Nat} {holds : α → Prop} {holds' : β → Prop}

theorem pure {value : α} (h : holds value) : Yields total (pure value) holds :=
  Ensures.pure fun _ _ ↦ h

/-- What is known of the value is known behind the parser. -/
theorem andThen {parser : Parser α} {next : α → Parser β} {promised : β → Place → Prop}
    (h : Yields total parser holds)
    (hnext : ∀ value, holds value → Ensures total Untraced Anywhere (next value) promised) :
    Ensures total Untraced Anywhere (parser >>= next) promised := by
  intro session hfit hplace
  cases hrun : parser session with
  | error failure after =>
    rw [bind_of_error hrun]
    exact Ensures.error h hfit hplace hrun
  | ok value after =>
    rw [bind_of_ok hrun]
    obtain ⟨hafter, hvalue⟩ := Ensures.ok h hfit hplace hrun
    exact hnext value hvalue after hafter trivial

theorem bind {parser : Parser α} {next : α → Parser β} (h : Yields total parser holds)
    (hnext : ∀ value, holds value → Yields total (next value) holds') :
    Yields total (parser >>= next) holds' := h.andThen hnext

theorem pure_bind {value : α} {next : α → Parser β} (h : Yields total (next value) holds') :
    Yields total (Pure.pure value >>= next) holds' := h

theorem weaken {parser : Parser α} {holds'' : α → Prop} (h : Yields total parser holds)
    (hholds : ∀ value, holds value → holds'' value) : Yields total parser holds'' :=
  Ensures.weaken h (fun _ h ↦ h) fun value _ ↦ hholds value

theorem map {f : α → β} {parser : Parser α} (h : Yields total parser fun value ↦ holds' (f value)) :
    Yields total (f <$> parser) holds' := by
  rw [map_eq_pure_bind]
  exact h.bind fun _ h ↦ .pure h

theorem ite {condition : Prop} [Decidable condition] {yes no : Parser α}
    (hyes : Yields total yes holds) (hno : Yields total no holds) :
    Yields total (if condition then yes else no) holds :=
  Ensures.ite (fun _ ↦ hyes) fun _ ↦ hno

theorem fail {cause : Cause} : Yields total (fail cause : Parser α) holds := Ensures.fail cause

theorem failMissing {what : String} {kinds : KindSet} :
    Yields total (failMissing what kinds : Parser α) holds := Ensures.failMissing what kinds

theorem elementary {parser : Parser α} (h : Elementary parser) :
    Yields total parser fun _ ↦ True := by
  cases h with
  | look view => exact Ensures.weaken (Ensures.look view) (fun _ h ↦ h) fun _ _ _ ↦ trivial
  | advance => exact Ensures.advance_to fun _ _ _ ↦ trivial
  | check kind => exact Ensures.weaken (Ensures.check kind) (fun _ h ↦ h) fun _ _ _ ↦ trivial
  | checkAny kinds =>
    exact Ensures.weaken (Ensures.checkAny kinds) (fun _ h ↦ h) fun _ _ _ ↦ trivial
  | consume kind => exact Ensures.consume_to (fun _ _ _ _ ↦ trivial) fun _ _ _ ↦ trivial
  | consumeAny kinds => exact Ensures.consumeAny_to (fun _ _ _ _ ↦ trivial) fun _ _ _ ↦ trivial
  | expecting kinds => exact Ensures.expecting kinds
  | expect kind => exact Ensures.expect_to fun _ _ _ _ ↦ trivial
  | fail cause _ => exact fail
  | failMissing what kinds => exact failMissing

/-- A parser whose value does not matter. -/
theorem skip {parser : Parser α} {next : α → Parser β} (h : Elementary parser)
    (hnext : ∀ value, Yields total (next value) holds') :
    Yields total (parser >>= next) holds' :=
  (elementary h).bind fun value _ ↦ hnext value

/-! ### Phrases, repetition and choice -/

theorem phraseFrom {category : Category} {body : Parser (Draft category)} {start : Nat}
    (h : Yields total body Draft.Graded) : Yields total (phraseFrom start body) Tree.Graded :=
  h.bind fun _ hdraft ↦ .skip (.look _) fun _ ↦ .pure hdraft

theorem phrase {category : Category} {body : Parser (Draft category)}
    (h : Yields total body Draft.Graded) : Yields total (phrase body) Tree.Graded :=
  .skip (.look _) fun _ ↦ h.phraseFrom

theorem behind {kind : Kind} {body : Parser α} (h : Yields total body holds) :
    Yields total (behind kind body) fun value? ↦ ∀ value ∈ value?, holds value :=
  .skip (.consume kind) fun _ ↦ .ite (.map (h.weaken fun _ hvalue _ hmem ↦
    Option.some.inj hmem ▸ hvalue)) (.pure nofun)

theorem some {body : Parser α} (h : Yields total body holds) :
    Yields total (Option.some <$> body) fun value? ↦ ∀ value ∈ value?, holds value :=
  .map (h.weaken fun _ hvalue _ hmem ↦ Option.some.inj hmem ▸ hvalue)

theorem iterate {step : α → Parser (Option α)}
    (hstep : ∀ value, holds value →
      Yields total (step value) fun next? ↦ ∀ next ∈ next?, holds next)
    {value : α} (h : holds value) : Yields total (iterate step value) holds := by
  intro session
  induction value, session using iterate_induction step with
  | h value session ih =>
  intro hfit hplace
  cases hrun : step value session with
  | error failure after =>
    rw [iterate_of_error hrun]
    exact Ensures.error (hstep value h) hfit hplace hrun
  | ok next? after =>
    obtain ⟨hafter, hnext⟩ := Ensures.ok (hstep value h) hfit hplace hrun
    cases next? with
    | none =>
      rw [iterate_of_none hrun]
      exact ⟨hafter, h⟩
    | some next =>
      by_cases hcloser : after.remaining < session.remaining
      · rw [iterate_of_closer hrun hcloser]
        exact ih next after hrun hcloser (hnext next rfl) hafter trivial
      · rw [iterate_of_not_closer hrun hcloser]
        exact ⟨hafter, hnext next rfl⟩

theorem many {item : Parser (Option α)}
    (h : Yields total item fun value? ↦ ∀ value ∈ value?, holds value) :
    Yields total (many item) fun values ↦ ∀ value ∈ values, holds value := by
  have hloop : Yields total (Parser.iterate (fun items ↦ do return (← item).map (· :: items)) [])
      fun values ↦ ∀ value ∈ values, holds value := by
    refine iterate (fun values hvalues ↦ h.bind fun value? hvalue ↦ .pure ?_)
      (List.forall_mem_nil _)
    rintro next hnext
    obtain ⟨value, rfl, rfl⟩ := Option.map_eq_some_iff.mp hnext
    exact List.forall_mem_cons.mpr ⟨hvalue value rfl, hvalues⟩
  exact hloop.bind fun values hvalues ↦
    .pure fun value hmem ↦ hvalues value (List.mem_reverse.mp hmem)

theorem separatedBy {separator : Kind} {item : Parser α} (h : Yields total item holds) :
    Yields total (separatedBy separator item) fun values ↦ ∀ value ∈ values, holds value :=
  h.bind fun _ hfirst ↦ (many h.behind).bind fun _ hothers ↦
    .pure (List.forall_mem_cons.mpr ⟨hfirst, hothers⟩)

theorem attempt {title : String} {depth : Nat} {body : Parser α} (h : Yields total body holds) :
    Yields total (attempt title depth body) holds :=
  Ensures.attempt (fun _ _ _ _ _ ↦ trivial) title h

theorem either {title : String} {depth : Nat} {first : Parser α} {next : α → Parser γ}
    {second : Parser β} {rest : β → Parser γ} {holds'' : γ → Prop}
    (hfirst : Yields total first holds)
    (hnext : ∀ value, holds value → Yields total (next value) holds'')
    (hsecond : Yields total second holds')
    (hrest : ∀ value, holds' value → Yields total (rest value) holds'') :
    Yields total (either title depth first next second rest) holds'' := by
  intro session hfit hplace
  cases hrun : first session with
  | ok value after =>
    obtain ⟨hafter, hvalue⟩ := Ensures.ok hfirst hfit hplace hrun
    rw [either_of_ok hrun]
    exact hnext value hvalue after hafter trivial
  | error failure after =>
    have hback : Fit total Untraced (rewound title depth session after) :=
      ⟨hfit.closed, hfit.total_eq, trivial⟩
    cases hagain : second (rewound title depth session after) with
    | ok value last =>
      obtain ⟨hlast, hvalue⟩ := Ensures.ok hsecond hback trivial hagain
      rw [either_of_error_ok hrun hagain]
      exact hrest value hvalue last hlast trivial
    | error other last =>
      rw [either_of_error_error hrun hagain]
      exact Ensures.error hsecond hback trivial hagain

end Parser.Yields

/-! ### Expressions -/

/-- The phrases that the rules of a scope read are graded, and an expression of a level takes all
that binds as tightly as that. -/
structure Scope.Grading (total : Nat) (scope : Scope) : Prop where
  progressive : scope.Progressive
  nested : ∀ rule, Yields total (scope.nested rule) Tree.Graded
  expression : ∀ least, Ensures total Untraced Anywhere (scope.expression least)
    fun expression place ↦ expression.Graded ∧ expression.BindsFrom least ∧
      Continuation.EndsAt least place

namespace Scope.Grading

variable {total : Nat} {scope : Scope} (hs : scope.Grading total)

include hs

theorem binds (least : Nat) : Yields total (scope.expression least) fun expression ↦
    expression.Graded ∧ expression.BindsFrom least :=
  Ensures.weaken (hs.expression least) (fun _ h ↦ h) fun _ _ h ↦ ⟨h.1, h.2.1⟩

/-- A parser whose value does not matter. -/
theorem andThen {α β : Type} {parser : Parser α} {next : α → Parser β}
    {promised : β → Place → Prop} (h : Alike scope scope parser parser)
    (hnext : ∀ value, Ensures total Untraced Anywhere (next value) promised) :
    Ensures total Untraced Anywhere (parser >>= next) promised := by
  have hany : Yields total parser fun _ ↦ True :=
    h.ensures (fun _ _ _ _ _ ↦ trivial) (fun _ h ↦ h)
      fun rule ↦ Ensures.weaken (hs.nested rule) (fun _ h ↦ h) fun _ _ _ ↦ trivial
  exact hany.andThen fun value _ ↦ hnext value

theorem skip {α β : Type} {parser : Parser α} {next : α → Parser β} {holds : β → Prop}
    (h : Alike scope scope parser parser) (hnext : ∀ value, Yields total (next value) holds) :
    Yields total (parser >>= next) holds := hs.andThen h hnext

end Scope.Grading

namespace Grammar

variable {total : Nat} {scope : Scope} (hs : scope.Grading total)

include hs

theorem graded_expressionsUntil (close : Kind) :
    Yields total (expressionsUntil scope close) fun items ↦ ∀ item ∈ items, item.Graded :=
  (Yields.separatedBy (hs.nested (.expression 0))).bind fun _ hitems ↦
    .skip (.expect _) fun _ ↦ .pure hitems

theorem graded_optionalExpressionsUntil (close : Kind) :
    Yields total (optionalExpressionsUntil scope close) fun items ↦ ∀ item ∈ items, item.Graded :=
  .skip (.consume _) fun _ ↦ .ite (.pure (List.forall_mem_nil _)) (graded_expressionsUntil hs close)

theorem graded_listItems :
    Yields total (listItems scope) fun items ↦ ∀ item ∈ items, item.Graded :=
  .skip (.expect _) fun _ ↦ graded_optionalExpressionsUntil hs _

/-- A draft of a form without a level that takes no operand. -/
def Finished (draft : Draft .expression) : Prop :=
  draft.Graded ∧ draft.form.level? = none ∧ draft.form.takesOperand = false

theorem graded_primary : Yields total (primary scope) Finished := by
  refine .skip (.look _) fun kind ↦ .skip (.look _) fun next ↦ ?_
  split
  · exact .skip .advance fun _ ↦ .pure ⟨⟨trivial, trivial⟩, rfl, rfl⟩
  · exact .skip .advance fun _ ↦ .pure ⟨⟨trivial, trivial⟩, rfl, rfl⟩
  · exact .skip .advance fun _ ↦ .pure ⟨⟨trivial, trivial⟩, rfl, rfl⟩
  · exact hs.skip alike_numeral fun _ ↦ .pure ⟨⟨trivial, trivial⟩, rfl, rfl⟩
  · exact hs.skip alike_numeral fun _ ↦ .pure ⟨⟨trivial, trivial⟩, rfl, rfl⟩
  · exact .skip .advance fun _ ↦ .pure ⟨⟨trivial, trivial⟩, rfl, rfl⟩
  · exact (graded_listItems hs).bind fun _ hitems ↦
      .pure ⟨⟨trivial, Tree.graded_many hitems trivial⟩, rfl, rfl⟩
  · exact hs.skip alike_variableName fun _ ↦ .pure ⟨⟨trivial, trivial⟩, rfl, rfl⟩
  · exact hs.skip alike_memberName fun _ ↦ .pure ⟨⟨trivial, trivial⟩, rfl, rfl⟩
  · exact .skip .advance fun _ ↦ .ite (.skip .advance fun _ ↦ hs.skip alike_identifier fun _ ↦
      .pure ⟨⟨trivial, trivial⟩, rfl, rfl⟩) (.pure ⟨⟨trivial, trivial⟩, rfl, rfl⟩)
  · split
    · exact .skip .advance fun _ ↦ .skip .advance fun _ ↦ .skip (.expect _) fun _ ↦
        (graded_listItems hs).bind fun _ hitems ↦
          .pure ⟨⟨trivial, Tree.graded_many hitems trivial⟩, rfl, rfl⟩
    · exact .failMissing

/-- A draft at a place, of which a phrase is made that binds as tightly as that and is open
there. -/
def Drafted (level? : Option Nat) (draft : Draft .expression) (place : Place) : Prop :=
  draft.Graded ∧ draft.form.level? = level? ∧
    ∀ span, Phrase.OpenAt (.phrase draft.form span draft.parts) place

omit hs in
theorem Finished.drafted {draft : Draft .expression} (h : Finished draft) (place : Place) :
    Drafted none draft place :=
  ⟨h.1, h.2.1, fun _ ↦ Phrase.openAt_of_complete h.2.1 h.2.2⟩

theorem drafted_castTo (type : ValueType) :
    Ensures total Untraced Anywhere (castTo scope type) (Drafted none) := by
  refine (Yields.elementary .advance).andThen fun _ _ ↦
    (Yields.elementary .advance).andThen fun _ _ ↦ (Yields.elementary .advance).andThen fun _ _ ↦
      (hs.expression castOperandLevel).bind fun operand ↦ .pure fun place h ↦ ?_
  obtain ⟨hgraded, hbinds, hends⟩ := h
  exact ⟨⟨hbinds.tightly (by decide), hgraded, trivial⟩, rfl,
    fun _ ↦ Phrase.openAt_of_operand rfl hends⟩

theorem drafted_unary (operator : UnaryOperator) :
    Ensures total Untraced Anywhere (unary scope operator) (Drafted none) := by
  refine (Yields.elementary .advance).andThen fun _ _ ↦
    (hs.expression unaryOperandLevel).bind fun operand ↦ .pure fun place h ↦ ?_
  obtain ⟨hgraded, hbinds, hends⟩ := h
  refine ⟨⟨hbinds.tightly (by decide), hgraded, trivial⟩, rfl,
    fun _ ↦ Phrase.openAt_of_operand rfl fun continuation hat ↦ ?_⟩
  exact Nat.lt_of_lt_of_le (hends continuation hat) (by decide)

theorem graded_wrapping : Yields total (wrapping scope) Finished :=
  .skip .advance fun _ ↦ (hs.nested (.expression 0)).bind fun _ hinner ↦ .skip (.expect _) fun _ ↦
    .pure ⟨⟨trivial, hinner, trivial⟩, rfl, rfl⟩

omit hs in
/-- A phrase of what was drafted. -/
theorem ensures_phraseFrom {given : Place → Prop} {level? : Option Nat}
    {body : Parser (Draft .expression)} (start : Nat)
    (h : Ensures total Untraced given body (Drafted level?)) :
    Ensures total Untraced given (phraseFrom start body) fun expression place ↦
      expression.Graded ∧ expression.form.level? = level? ∧ expression.OpenAt place :=
  h.bind fun _ ↦ (Ensures.look _).bind fun _ ↦ .pure fun _ hplace ↦
    ⟨hplace.1.1, hplace.1.2.1, hplace.1.2.2 _⟩

theorem begun_operand : Ensures total Untraced Anywhere (operand scope) fun expression place ↦
    expression.Graded ∧ expression.form.level? = none ∧ expression.OpenAt place := by
  refine (Yields.elementary (.look _)).andThen fun start _ ↦ ensures_phraseFrom start ?_
  have hcomplete {body : Parser (Draft .expression)} (h : Yields total body Finished) :
      Ensures total Untraced Anywhere body (Drafted none) :=
    Ensures.weaken h (fun _ h ↦ h) fun _ place h ↦ h.drafted place
  refine (Yields.elementary (.look _)).andThen fun type? _ ↦ ?_
  cases type? with
  | some type => exact drafted_castTo hs type
  | none =>
    refine (Yields.elementary (.look _)).andThen fun kind _ ↦ ?_
    cases unaryOperator? kind with
    | some operator => exact drafted_unary hs operator
    | none =>
      refine .ite (fun _ ↦ hcomplete (graded_wrapping hs)) fun _ ↦ .ite (fun _ ↦ hcomplete ?_)
        fun _ ↦ hcomplete (graded_primary hs)
      exact (hs.nested .loop).bind fun _ hloop ↦ .pure ⟨⟨trivial, hloop, trivial⟩, rfl, rfl⟩

/-- A continuation has its level and leaves open what its last part leaves open. -/
theorem drafted_continuation {left : Phrase .expression} (hleft : left.Graded)
    (continuation : Continuation) (hleads : left.LeadsAt continuation.level) :
    Ensures total Untraced Anywhere (continuation.draft scope left)
      (Drafted (some continuation.level)) := by
  have htight {draft : Draft .expression} {level : Nat} {place : Place} (hdraft : draft.Graded)
      (hlevel : draft.form.level? = some level) (hoperand : draft.form.takesOperand = false)
      (hternary : draft.form ≠ .ternary) (h : draft.form.isAssignment = true ∨ 16 ≤ level) :
      Drafted (some level) draft place :=
    ⟨hdraft, hlevel, fun _ ↦ Phrase.openAt_of_tight hlevel hoperand hternary h⟩
  cases continuation with
  | path =>
    exact (Yields.elementary .advance).andThen fun _ _ ↦ hs.andThen alike_identifier fun _ ↦
      .pure fun place _ ↦ htight ⟨hleads, hleft, trivial⟩ rfl rfl nofun (.inr (by decide))
  | call =>
    exact (Yields.elementary .advance).andThen fun _ _ ↦
      (graded_optionalExpressionsUntil hs _).andThen fun _ hitems ↦ .pure fun place _ ↦
        htight ⟨hleads, hleft, Tree.graded_many hitems trivial⟩ rfl rfl nofun (.inr (by decide))
  | listAccess =>
    exact (Yields.elementary .advance).andThen fun _ _ ↦
      (graded_expressionsUntil hs _).andThen fun _ hitems ↦ .pure fun place _ ↦
        htight ⟨hleads, hleft, Tree.graded_many hitems trivial⟩ rfl rfl nofun (.inr (by decide))
  | annotationAccess =>
    exact (Yields.elementary .advance).andThen fun _ _ ↦
      (graded_expressionsUntil hs _).andThen fun _ hitems ↦ .pure fun place _ ↦
        htight ⟨hleads, hleft, Tree.graded_many hitems trivial⟩ rfl rfl nofun (.inr (by decide))
  | binary operator =>
    refine (Yields.elementary .advance).andThen fun _ _ ↦
      (hs.expression (operator.level + 1)).bind fun right ↦ .pure fun place h ↦ ?_
    have hlevel : (Continuation.binary operator).level = operator.strength :=
      operator.level_eq_strength
    rw [hlevel] at hleads ⊢
    rw [operator.level_eq_strength] at h
    exact ⟨⟨⟨hleads, h.2.1⟩, hleft, h.1, trivial⟩, rfl,
      fun _ ↦ Phrase.openAt_of_right rfl rfl nofun h.2.2⟩
  | assignment =>
    refine (Yields.elementary .advance).andThen fun _ _ ↦
      (Yields.elementary (.consume _)).andThen fun _ _ ↦ ?_
    exact hs.andThen alike_target fun _ ↦ .pure fun place _ ↦
      htight ⟨hleads, hleft, trivial⟩ rfl rfl nofun (.inl rfl)
  | setPredicate =>
    refine hs.andThen (alike_consumeEither _ _) fun _ ↦ hs.andThen (alike_consumeEither _ _) fun _ ↦
      (Yields.elementary (.expect _)).andThen fun _ _ ↦
        (hs.expression (Continuation.setPredicate.level + 1)).bind fun set ↦ .pure fun place h ↦ ?_
    exact ⟨⟨⟨hleads, h.2.1⟩, hleft, h.1, trivial⟩, rfl,
      fun _ ↦ Phrase.openAt_of_right rfl rfl nofun h.2.2⟩
  | ternary =>
    refine (Yields.elementary .advance).andThen fun _ _ ↦
      (hs.nested (.expression 0)).andThen fun _ hconsequence ↦
        (Yields.elementary (.expect _)).andThen fun _ _ ↦
          (hs.expression Continuation.ternary.level).bind fun alternative ↦ .pure fun place h ↦ ?_
    exact ⟨⟨hleads, hleft, hconsequence, h.1, trivial⟩, rfl,
      fun _ ↦ Phrase.openAt_of_ternary h.2.2⟩

/-- What is read so far of an expression of a level. -/
def Begun (least : Nat) (expression : Phrase .expression) (place : Place) : Prop :=
  expression.Graded ∧ expression.BindsFrom least ∧ expression.OpenAt place

theorem begun_continuation (least : Nat) (left : Phrase .expression) :
    Ensures total Untraced (Begun least left) (continuation scope least left) fun next? place ↦
      next?.elim (Begun least left place ∧ Continuation.EndsAt least place)
        (Begun least · place) := by
  refine (Ensures.look _).bind fun continuation? ↦ ?_
  cases continuation? with
  | none =>
    refine .pure fun place h ↦ ⟨h.1, fun continuation hat ↦ ?_⟩
    rw [h.2] at hat
    cases hat
  | some continuation =>
    refine .ite (fun hlevel ↦ .pure fun place h ↦ ⟨h.1, fun other hat ↦ ?_⟩) fun hlevel ↦ ?_
    · rw [h.2, Option.some.injEq] at hat
      exact hat ▸ hlevel
    · have hknown (place : Place)
          (h : Begun least left place ∧ Continuation.at? place = some continuation) :
          left.Graded ∧ left.LeadsAt continuation.level :=
        ⟨h.1.1, h.1.2.2 continuation h.2⟩
      refine .known hknown fun hleft ↦ .map ?_
      refine Ensures.weaken (ensures_phraseFrom left.span.start
        (drafted_continuation hs hleft.1 continuation hleft.2)) (fun _ _ ↦ trivial) ?_
      rintro next place ⟨hgraded, hnext, hopen⟩
      refine ⟨hgraded, fun level hat ↦ ?_, hopen⟩
      obtain rfl : continuation.level = level := Option.some.inj (hnext.symm.trans hat)
      exact Nat.le_of_not_lt hlevel

theorem ended_expression (least : Nat) :
    Ensures total Untraced Anywhere (expression scope least) fun expression place ↦
      expression.Graded ∧ expression.BindsFrom least ∧ Continuation.EndsAt least place := by
  have hoperand : Ensures total Untraced Anywhere (operand scope) (Begun least) :=
    Ensures.weaken (begun_operand hs) (fun _ h ↦ h) fun first place h ↦ by
      refine ⟨h.1, fun level hlevel ↦ ?_, h.2.2⟩
      rw [h.2.1] at hlevel
      cases hlevel
  refine hoperand.bind fun first ↦ Ensures.weaken (.iterate_until
    (fun _ _ _ _ ↦ hs.progressive.loops (.expression least)) (begun_continuation hs least) first)
      (fun _ h ↦ h) fun expression place h ↦ ⟨h.1.1, h.1.2.1, h.2⟩

/-! ### Loops -/

theorem graded_boundedRange : Yields total (boundedRange scope) Tree.Graded :=
  .phrase (.skip (.expect _) fun _ ↦ (hs.nested (.expression 0)).bind fun _ hlower ↦
    .skip (.expect _) fun _ ↦ (hs.nested (.expression 0)).bind fun _ hupper ↦
      .skip (.expect _) fun _ ↦ .pure ⟨trivial, hlower, hupper, trivial⟩)

theorem graded_loopControl : Yields total (loopControl scope) Tree.Graded :=
  .phrase (hs.skip alike_parity? fun _ ↦ (hs.nested (.expression 0)).behind.bind fun _ homitted ↦
    (graded_boundedRange hs).behind.bind fun _ hrange ↦
      (graded_boundedRange hs).behind.bind fun _ hstep ↦
        (hs.nested (.expression 0)).behind.bind fun _ haction ↦ .skip (.expect _) fun _ ↦
          .pure ⟨trivial, Tree.graded_optional homitted (Tree.graded_optional hrange
            (Tree.graded_optional hstep (Tree.graded_optional haction trivial)))⟩)

theorem graded_counted : Yields total (counted scope) fun counted ↦
    counted.1.Graded ∧ counted.1.BindsFrom 5 :=
  (hs.binds Family.disjunction.level).bind fun _ hsource ↦ .skip (.expect _) fun _ ↦
    hs.skip alike_variableName fun _ ↦ .pure hsource

theorem graded_counter : Yields total (counter scope) Tree.Graded :=
  .phrase ((graded_counted hs).bind fun _ hcounted ↦
    .pure ⟨hcounted.2, hcounted.1, trivial⟩)

theorem graded_counters : Yields total (counters scope) fun counters ↦
    ∀ counter ∈ counters, counter.Graded :=
  .skip (.consume _) fun _ ↦ .ite (.separatedBy (graded_counter hs)) (.pure (List.forall_mem_nil _))

theorem graded_loop : Yields total (loop scope) Tree.Graded :=
  .phrase (.skip (.expect _) fun _ ↦ (graded_counted hs).bind fun _ hcounted ↦
    (graded_loopControl hs).bind fun _ hcontrol ↦ (graded_counters hs).bind fun _ hcounters ↦
      .pure ⟨hcounted.2, hcounted.1, hcontrol, Tree.graded_many hcounters trivial⟩)

/-! ### Quantifiers and markers -/

theorem graded_countFrom (low : String) : Yields total (countFrom low) Draft.Graded :=
  .skip (.consume _) fun _ ↦ .ite
    (.skip (.expect _) fun _ ↦ hs.skip (alike_greed _) fun _ ↦ .skip (.consume _) fun _ ↦
      .pure ⟨trivial, trivial⟩)
    (.skip (.consume _) fun _ ↦ .ite
      (.pure_bind (hs.skip (alike_greed _) fun _ ↦ .skip (.consume _) fun _ ↦
        .pure ⟨trivial, trivial⟩))
      (.skip (.consume _) fun _ ↦ hs.skip (alike_greed _) fun _ ↦ .skip (.consume _) fun _ ↦
        .pure ⟨trivial, trivial⟩))

theorem graded_simpleQuantifier : Yields total simpleQuantifier Tree.Graded := by
  refine .phrase (.skip (.look _) fun first ↦ ?_)
  split
  · exact .skip .advance fun _ ↦ .pure ⟨trivial, trivial⟩
  · exact .skip .advance fun _ ↦ .pure ⟨trivial, trivial⟩
  · exact .skip .advance fun _ ↦ hs.skip (alike_greed _) fun _ ↦ .pure ⟨trivial, trivial⟩
  · exact .skip .advance fun _ ↦ hs.skip (alike_greed _) fun _ ↦ .pure ⟨trivial, trivial⟩
  · exact .skip .advance fun _ ↦ graded_countFrom hs _
  · exact .skip (.expecting _) fun _ ↦ .fail

theorem graded_quantifier : Yields total quantifier Tree.Graded :=
  .phrase (.skip (.consume _) fun _ ↦ (graded_simpleQuantifier hs).separatedBy.bind
    fun _ halternatives ↦ .ite (.skip (.expect _) fun _ ↦
      .pure ⟨trivial, Tree.graded_many halternatives trivial⟩)
      (.pure ⟨trivial, Tree.graded_many halternatives trivial⟩))

theorem graded_quantifier? : Yields total quantifier? fun quantifier? ↦
    ∀ quantifier ∈ quantifier?, quantifier.Graded :=
  .skip (.checkAny _) fun _ ↦ .ite (graded_quantifier hs).some (.pure nofun)

theorem graded_markerOperand : Yields total (markerOperand scope) Tree.Graded :=
  .phrase (.skip (.consume _) fun _ ↦ .ite
    ((hs.nested (.marker 0)).bind fun _ hinner ↦ .skip (.expect _) fun _ ↦
      .pure ⟨trivial, hinner, trivial⟩)
    (.skip (.check _) fun _ ↦ .ite (.skip .advance fun _ ↦ hs.skip alike_markerArguments fun _ ↦
      .pure ⟨trivial, trivial⟩) .failMissing))

theorem graded_markerContinuation (least : Nat) {left : Phrase .marker} (hleft : left.Graded) :
    Yields total (markerContinuation scope least left) fun next? ↦
      ∀ next ∈ next?, next.Graded := by
  refine .skip (.look _) fun kind ↦ ?_
  cases Connective.ofKind? kind with
  | none => exact .pure nofun
  | some connective =>
    refine .ite (.pure nofun) (Yields.some (.phraseFrom (.skip .advance fun _ ↦
      (hs.nested (.marker _)).bind fun _ hright ↦ .pure ?_)))
    cases connective <;> exact ⟨trivial, hleft, hright, trivial⟩

theorem graded_marker (least : Nat) : Yields total (marker scope least) Tree.Graded :=
  (graded_markerOperand hs).bind fun _ hfirst ↦
    .iterate (fun _ hleft ↦ graded_markerContinuation hs least hleft) hfirst

/-! ### Nodes -/

theorem graded_edge : Yields total (edge scope) Tree.Graded := by
  refine .phrase (hs.skip (.oneOf _) fun ends? ↦ ?_)
  cases ends? with
  | some ends => exact .pure ⟨trivial, trivial⟩
  | none =>
    have hconstraint : Yields total (edgeConstraint? scope) fun constraint? ↦
        ∀ constraint ∈ constraint?, constraint.Graded :=
      .skip (.check _) fun _ ↦ .ite (.pure nofun) (hs.nested (.expression 0)).some
    exact hs.skip (alike_edgeEnd _ _) fun _ ↦ .skip (.expect _) fun _ ↦ hs.skip alike_label? fun _ ↦
      hconstraint.bind fun _ hconstraint ↦ .skip (.expect _) fun _ ↦
        hs.skip (alike_edgeEnd _ _) fun _ ↦
          .pure ⟨trivial, Tree.graded_optional hconstraint trivial⟩

theorem graded_elementFrom {source : Phrase .node} (hsource : source.Graded) :
    Yields total (elementFrom scope source) Tree.Graded :=
  .phraseFrom (hs.skip alike_atEdge fun _ ↦ .ite
    ((graded_edge hs).bind fun _ hedge ↦ (hs.nested .node).bind fun _ htarget ↦
      .pure ⟨trivial, hsource, hedge, htarget, trivial⟩)
    (.pure ⟨trivial, hsource, trivial⟩))

theorem graded_element : Yields total (element scope) Tree.Graded :=
  (hs.nested .node).bind fun _ hsource ↦ graded_elementFrom hs hsource

/-- Both parts of the contents of a node are graded. -/
structure NodeContent.Graded (content : NodeContent) : Prop where
  constraint : ∀ constraint ∈ content.constraint, constraint.Graded
  children : ∀ children ∈ content.children, children.Graded

theorem graded_children? : Yields total (children? scope) fun children? ↦
    ∀ children ∈ children?, children.Graded :=
  .skip (.checkAny _) fun _ ↦ .ite (hs.nested .structuralConstraint).some (.pure nofun)

theorem graded_leadingConstraint : Yields total (leadingConstraint scope) Tree.Graded :=
  (hs.nested (.expression 0)).bind fun _ hconstraint ↦ .skip (.check _) fun _ ↦
    .ite (.pure hconstraint) (.skip (.look _) fun _ ↦ .skip (.checkAny _) fun _ ↦
      .ite (.pure hconstraint) .fail)

theorem graded_nodeContent : Yields total (nodeContent scope) NodeContent.Graded := by
  rw [nodeContent_eq_either]
  have honly : Yields total (onlyChildren scope) NodeContent.Graded :=
    (graded_children? hs).bind fun _ hchildren ↦ .skip (.expect _) fun _ ↦ .pure ⟨nofun, hchildren⟩
  refine .skip (.consume _) fun _ ↦ .ite (.pure ⟨nofun, nofun⟩)
    (.either (graded_leadingConstraint hs) (fun constraint hconstraint ↦ ?_) honly.attempt
      fun _ hcontent ↦ .pure hcontent)
  exact (graded_children? hs).bind fun _ hchildren ↦ .skip (.expect _) fun _ ↦
    .pure ⟨fun _ hmem ↦ Option.some.inj hmem ▸ hconstraint, hchildren⟩

theorem graded_markedContent : Yields total (markedContent scope) fun marked ↦
    (∀ marker ∈ marked.1, marker.Graded) ∧ NodeContent.Graded marked.2 := by
  rw [markedContent_eq_either]
  have hmarker : Yields total (leadingMarker scope) Tree.Graded :=
    (hs.nested (.marker 0)).bind fun _ hmarker ↦ .skip (.expect _) fun _ ↦ .pure hmarker
  refine .either hmarker (fun marker hmarker ↦ ?_) (graded_nodeContent hs)
    fun _ hcontent ↦ .pure ⟨fun marker hmem ↦ absurd hmem (Option.not_mem_none marker), hcontent⟩
  exact (graded_nodeContent hs).bind fun _ hcontent ↦
    .pure ⟨fun _ hmem ↦ Option.some.inj hmem ▸ hmarker, hcontent⟩

theorem graded_node : Yields total (node scope) Tree.Graded := by
  refine .phrase (.skip (.look _) fun dummy? ↦ ?_)
  cases dummy? with
  | some cardinality =>
    exact .skip .advance fun _ ↦ .skip .advance fun _ ↦ .skip .advance fun _ ↦
      .pure ⟨trivial, trivial⟩
  | none =>
    exact (graded_quantifier? hs).bind fun _ hquantifier ↦ .skip (.expect _) fun _ ↦
      hs.skip alike_label? fun _ ↦ (graded_markedContent hs).bind fun _ ⟨hmarker, hcontent⟩ ↦
        .pure ⟨trivial, Tree.graded_optional hquantifier (Tree.graded_optional hmarker
          (Tree.graded_optional hcontent.constraint
            (Tree.graded_optional hcontent.children trivial)))⟩

/-! ### Node statements -/

theorem graded_nodeStatements : Yields total (nodeStatements scope) fun statements ↦
    ∀ statement ∈ statements, statement.Graded := by
  have hstatement : Yields total (nodeStatement? scope) fun statement? ↦
      ∀ statement ∈ statement?, statement.Graded :=
    .skip (.checkAny _) fun _ ↦ .ite (hs.nested (.nodeStatement 0)).some (.pure nofun)
  exact (hs.nested (.nodeStatement 0)).bind fun _ hfirst ↦ hstatement.many.bind fun _ hothers ↦
    .pure (List.forall_mem_cons.mpr ⟨hfirst, hothers⟩)

theorem graded_grouping : Yields total (grouping scope) Draft.Graded :=
  (graded_quantifier? hs).bind fun _ hquantifier ↦ .skip (.expect _) fun _ ↦
    (graded_nodeStatements hs).bind fun _ hstatements ↦ .skip (.expect _) fun _ ↦
      .pure ⟨trivial, Tree.graded_optional hquantifier (Tree.graded_many hstatements trivial)⟩

theorem graded_sequence : Yields total (sequence scope) Draft.Graded :=
  hs.skip (.many .arrangement (.oneOf _)) fun _ ↦ (graded_nodeStatements hs).bind
    fun _ hstatements ↦ .pure ⟨trivial, Tree.graded_many hstatements trivial⟩

theorem graded_nodes : Yields total (nodes scope) Draft.Graded := by
  refine (hs.nested .node).bind fun node hnode ↦ hs.skip alike_atEdge fun _ ↦
    .ite (.pure_bind ?_) (.skip (.check _) fun _ ↦ ?_)
  all_goals
    refine .ite ?_ (.pure ⟨trivial, hnode, trivial⟩)
    exact (graded_elementFrom hs hnode).bind fun _ hfirst ↦
      (Yields.many (graded_element hs).behind).bind fun _ hothers ↦
        .pure ⟨trivial, Tree.graded_many (List.forall_mem_cons.mpr ⟨hfirst, hothers⟩) trivial⟩

theorem graded_nodeStatementOperand : Yields total (nodeStatementOperand scope) Tree.Graded :=
  .phrase (.skip (.checkAny _) fun _ ↦ .ite (graded_sequence hs) (hs.skip alike_atGrouping fun _ ↦
    .ite (graded_grouping hs) (graded_nodes hs)))

theorem graded_nodeStatementContinuation (least : Nat) {left : Phrase .nodeStatement}
    (hleft : left.Graded) : Yields total (nodeStatementContinuation scope least left) fun next? ↦
      ∀ next ∈ next?, next.Graded :=
  .ite (.pure nofun) (.skip (.checkAny _) fun _ ↦ .ite
    (Yields.some (.phraseFrom (.skip .advance fun _ ↦ (hs.nested (.nodeStatement _)).bind
      fun _ hright ↦ .pure ⟨trivial, hleft, hright, trivial⟩))) (.pure nofun))

theorem graded_nodeStatement (least : Nat) :
    Yields total (nodeStatement scope least) Tree.Graded :=
  (graded_nodeStatementOperand hs).bind fun _ hfirst ↦
    .iterate (fun _ hleft ↦ graded_nodeStatementContinuation hs least hleft) hfirst

theorem graded_structuralConstraint :
    Yields total (structuralConstraint scope) Tree.Graded := by
  have hlimit : Yields total hitsLimit? fun limit? ↦ ∀ limit ∈ limit?, limit.Graded :=
    .skip (.check _) fun _ ↦ .ite
      (Yields.some (.phrase (.skip .advance fun _ ↦ .pure ⟨trivial, trivial⟩)))
      (.skip (.check _) fun _ ↦ .skip (.look _) fun _ ↦ .ite
        (Yields.some (.phrase (.skip .advance fun _ ↦ .skip .advance fun _ ↦
          .pure ⟨trivial, trivial⟩))) (.pure nofun))
  exact .phrase (hlimit.bind fun _ hlimit ↦ hs.skip (.many .matchFlag (.oneOf _)) fun _ ↦
    (graded_nodeStatements hs).bind fun _ hstatements ↦
      .pure ⟨trivial, Tree.graded_optional hlimit (Tree.graded_many hstatements trivial)⟩)

/-! ### Queries -/

theorem graded_clause (word connective : Keyword) :
    Yields total (scope.clause word connective) fun clause? ↦ ∀ clause ∈ clause?, clause.Graded :=
  .behind (.skip (.expect _) fun _ ↦ hs.nested (.expression 0))

theorem graded_bindings : Yields total bindings fun bindings ↦
    ∀ binding ∈ bindings, binding.Graded := by
  have hbinding : Yields total binding Tree.Graded :=
    .phrase (hs.skip (.oneOf _) fun _ ↦ hs.skip (.separatedBy .memberName alike_memberName) fun _ ↦
      .skip (.expect _) fun _ ↦ hs.skip alike_identifier fun _ ↦ .pure ⟨trivial, trivial⟩)
  exact .skip (.consume _) fun _ ↦ .ite hbinding.separatedBy (.pure (List.forall_mem_nil _))

theorem graded_payload : Yields total (payload scope) Tree.Graded :=
  .phrase (.skip (.check _) fun _ ↦ .skip (.look _) fun _ ↦ .ite
    (.skip .advance fun _ ↦ .pure ⟨trivial, trivial⟩)
    ((graded_bindings hs).bind fun _ hbindings ↦ (graded_clause hs _ _).bind fun _ hfilter ↦
      .skip (.expect _) fun _ ↦ (hs.nested .selection).bind fun _ hselection ↦
        .pure ⟨trivial, Tree.graded_many hbindings
          (Tree.graded_optional hfilter ⟨hselection, trivial⟩)⟩))

theorem graded_structuralSelection : Yields total (structuralSelection scope) Draft.Graded := by
  have hlane : Yields total (lane scope) Tree.Graded :=
    .phrase (.skip (.expect _) fun _ ↦ hs.skip alike_identifier fun _ ↦
      hs.skip (.behind _ alike_memberName) fun _ ↦ (hs.nested .structuralConstraint).bind
        fun _ hconstraint ↦ .pure ⟨trivial, hconstraint, trivial⟩)
  have hhaving : Yields total (having? scope) fun having? ↦ ∀ having ∈ having?, having.Graded :=
    .behind (hs.nested (.expression 0))
  exact .skip (.check _) fun _ ↦ .ite
    (hlane.separatedBy.bind fun _ hlanes ↦ hhaving.bind fun _ hhaving ↦
      .pure ⟨trivial, Tree.graded_many hlanes (Tree.graded_optional hhaving trivial)⟩)
    ((hs.nested .structuralConstraint).bind fun _ hconstraint ↦ hhaving.bind fun _ hhaving ↦
      .pure ⟨trivial, hconstraint, Tree.graded_optional hhaving trivial⟩)

theorem graded_selection : Yields total (selection scope) Tree.Graded := by
  rw [selection_eq_either]
  have hplain : Yields total (plainSelection scope) Draft.Graded :=
    (hs.nested (.expression 0)).bind fun _ hconstraint ↦ .skip (.expect _) fun _ ↦
      .pure ⟨trivial, hconstraint, trivial⟩
  exact .phrase (.either hplain (fun _ hdraft ↦ .pure hdraft)
    (graded_structuralSelection hs).attempt fun _ hdraft ↦ .pure hdraft)

theorem graded_group : Yields total (group scope) Tree.Graded := by
  have hexpression : Yields total (groupExpression scope) Tree.Graded :=
    .phrase (.skip (.expect _) fun _ ↦ (hs.nested (.expression 0)).bind fun _ hselector ↦
      (graded_clause hs _ _).bind fun _ hfilter ↦ .skip (.expect _) fun _ ↦
        .skip (.expect _) fun _ ↦ (hs.nested (.expression 0)).behind.bind fun _ hreplacement ↦
          .pure ⟨trivial, hselector, Tree.graded_optional hfilter
            (Tree.graded_optional hreplacement trivial)⟩)
  exact .phrase (.skip (.expect _) fun _ ↦ hexpression.separatedBy.bind fun _ hexpressions ↦
    .pure ⟨trivial, Tree.graded_many hexpressions trivial⟩)

theorem graded_result : Yields total (result scope) Tree.Graded := by
  have hlimit : Yields total resultLimit? fun limit? ↦ ∀ limit ∈ limit?, limit.Graded :=
    .skip (.check _) fun _ ↦ .ite (Yields.some (.phrase (.skip .advance fun _ ↦
      .skip (.consume _) fun _ ↦ hs.skip alike_integer fun _ ↦ .pure ⟨trivial, trivial⟩)))
        (.pure nofun)
  have horder : Yields total (orderExpression scope) Tree.Graded := by
    refine .phrase ((hs.nested (.expression 0)).bind fun _ hexpression ↦
      hs.skip (.oneOf _) fun direction? ↦ ?_)
    cases direction? with
    | some direction => exact .pure ⟨trivial, hexpression, trivial⟩
    | none => exact .failMissing
  have horders : Yields total (orders scope) fun orders ↦ ∀ order ∈ orders, order.Graded :=
    .skip (.consume _) fun _ ↦ .ite (.skip (.expect _) fun _ ↦ horder.separatedBy)
      (.pure (List.forall_mem_nil _))
  exact .skip (.look _) fun _ ↦ hlimit.bind fun _ hlimit ↦ horders.bind fun _ horders ↦
    .skip (.look _) fun _ ↦
      .pure ⟨trivial, Tree.graded_optional hlimit (Tree.graded_many horders trivial)⟩

end Grammar

/-! ### Rules and entries -/

theorem Rule.graded_body {total : Nat} {scope : Scope} (hs : scope.Grading total) (rule : Rule) :
    Yields total (rule.body scope) Tree.Graded := by
  cases rule with
  | expression least =>
    exact Ensures.weaken (ended_expression hs least) (fun _ h ↦ h) fun _ _ h ↦ h.1
  | loop => exact graded_loop hs
  | structuralConstraint => exact graded_structuralConstraint hs
  | nodeStatement least => exact graded_nodeStatement hs least
  | node => exact graded_node hs
  | marker least => exact graded_marker hs least
  | payload => exact graded_payload hs
  | selection => exact graded_selection hs

theorem Rule.grading_inside (total limit room : Nat) : (inside limit room).Grading total := by
  induction room with
  | zero =>
    exact ⟨progressive_inside limit 0, fun _ _ hfit _ ↦ ⟨hfit.closed, hfit.total_eq, trivial⟩,
      fun _ _ hfit _ ↦ ⟨hfit.closed, hfit.total_eq, trivial⟩⟩
  | succ room ih =>
    exact ⟨progressive_inside limit (room + 1),
      fun rule ↦ Ensures.enter (fun _ _ _ ↦ trivial) (fun _ _ _ _ ↦ trivial) (rule.graded_body ih),
      fun least ↦ Ensures.enter (fun _ _ _ ↦ trivial) (fun _ _ _ _ ↦ trivial)
        (ended_expression ih least)⟩

namespace Entry

theorem graded_complete {total : Nat} {scope : Scope} (hs : scope.Grading total) (entry : Entry) :
    Yields total (entry.complete scope) Tree.Graded := by
  have hbody : Yields total (entry.body scope) Tree.Graded := by
    cases entry with
    | expression => exact hs.nested (.expression 0)
    | nodeStatement => exact hs.nested (.nodeStatement 0)
    | structuralConstraint => exact hs.nested .structuralConstraint
    | selection => exact hs.nested .selection
    | payload => exact hs.nested .payload
    | group => exact graded_group hs
    | result => exact graded_result hs
  exact hbody.bind fun _ hphrase ↦ .skip (.expect _) fun _ ↦ .pure hphrase

/-- In every tree that is returned the parts of every expression bind as its form asks. -/
theorem graded_of_outcome (entry : Entry) (limit : Nat) (tokens : List Token)
    {phrase : Phrase entry.category} (h : (entry.parse limit tokens).outcome = .ok phrase) :
    phrase.Graded := by
  obtain ⟨after, hrun⟩ := complete_of_outcome h
  have hs := Rule.grading_inside (Place.ofTokens tokens).total limit limit
  rw [← Scope.top_eq_inside] at hs
  exact (Ensures.ok (entry.graded_complete hs) ⟨Place.ofTokens_closed tokens, rfl, trivial⟩ trivial
    hrun).2

/-- In `-1 + 2 * 3 IN @s ? 4 : 5` the product is the right operand of the sum, the sum is what is
looked for in the set, and the predicate is the condition. -/
theorem graded_of_outcome_of_mixed_levels :
    let digit (text : String) (offset : Nat) : Token := ⟨.pureDigits, text, ⟨offset, offset + 1⟩⟩
    let tokens : List Token :=
      [⟨.symbol .minus, "-", ⟨0, 1⟩⟩, digit "1" 1, ⟨.symbol .plus, "+", ⟨3, 4⟩⟩, digit "2" 5,
        ⟨.symbol .star, "*", ⟨7, 8⟩⟩, digit "3" 9, ⟨.keyword .inKw, "IN", ⟨11, 13⟩⟩,
        ⟨.variableName, "s", ⟨14, 16⟩⟩, ⟨.symbol .question, "?", ⟨17, 18⟩⟩, digit "4" 19,
        ⟨.symbol .colon, ":", ⟨21, 22⟩⟩, digit "5" 23, .endAt 24]
    let number (text : String) (offset : Nat) : Phrase .expression :=
      .phrase (.number (.integer text)) ⟨offset, offset + 1⟩ .nil
    let negative : Phrase .expression := .phrase (.unary .minus) ⟨0, 2⟩ (.one (number "1" 1) .nil)
    let product : Phrase .expression :=
      .phrase (.binary .multiply) ⟨5, 10⟩ (.one (number "2" 5) (.one (number "3" 9) .nil))
    let sum : Phrase .expression :=
      .phrase (.binary .add) ⟨0, 10⟩ (.one negative (.one product .nil))
    let predicate : Phrase .expression := .phrase (.setPredicate false false) ⟨0, 16⟩
      (.one sum (.one (.phrase (.variableName "s") ⟨14, 16⟩ .nil) .nil))
    let phrase : Phrase .expression :=
      .phrase .ternary ⟨0, 24⟩ (.one predicate (.one (number "4" 19) (.one (number "5" 23) .nil)))
    (Entry.expression.parse 32 tokens).outcome = .ok phrase ∧ phrase.Graded := by
  intro _ tokens number negative product sum predicate phrase
  have houtcome : (Entry.expression.parse 32 tokens).outcome = .ok phrase := by cbv
  exact ⟨houtcome, graded_of_outcome .expression 32 tokens houtcome⟩

end Entry

end CorpusQuery
