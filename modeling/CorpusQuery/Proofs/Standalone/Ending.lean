import CorpusQuery.Proofs.Choice.Opening

/-!
What an expression ends with. A set predicate is known by `IN`, but it may begin with a star or with
a negation, which could as well be operators. No expression ends with one of these, and neither does
a loop (`Rule.ends_inside`): where an expression ends, no set predicate has been cut off.
-/

set_option autoImplicit false
set_option relaxedAutoImplicit false

namespace CorpusQuery

open CorpusQuery.Parser

namespace Grammar

/-- Whether a token may stand before the `IN` of a set predicate. -/
def Continuation.leadsSet (kind : Kind) : Bool := isUniversal kind || isNegation kind

end Grammar

/-- The token just passed does not lead to a set predicate. -/
def Place.Settled (place : Place) : Prop :=
  ∀ kind ∈ place.previousKind?, Grammar.Continuation.leadsSet kind = false

theorem Cursor.settled_advance {cursor : Cursor} (hclosed : cursor.Closed)
    (hend : cursor.kind ≠ .endOfInput)
    (hkind : Grammar.Continuation.leadsSet cursor.kind = false) :
    cursor.advance.toPlace.Settled := by
  cases hahead : cursor.ahead with
  | nil =>
    rw [Place.Closed, hahead] at hclosed
    exact absurd hclosed hend
  | cons next rest =>
    rw [advance_of_cons hahead]
    rintro _ ⟨⟩
    exact hkind

/-- A parser that only stops behind tokens that lead to no set predicate. -/
def Parser.Ends {α : Type} (total : Nat) (given : Place → Prop) (parser : Parser α) : Prop :=
  Ensures total Untraced given parser fun _ ↦ Place.Settled

/-- The expressions and loops of a scope lead to no set predicate. -/
structure Scope.Ending (total : Nat) (scope : Scope) : Prop where
  keeps : ∀ rule, Ensures total Untraced Anywhere (scope.nested rule) fun _ ↦ Anywhere
  expression : ∀ least, Ends total Anywhere (scope.expression least)
  loop : Ends total Anywhere scope.loop

namespace Parser.Ends

variable {α β : Type} {total : Nat} {given : Place → Prop} {kind : Kind}

theorem map {f : α → β} {parser : Parser α} (h : Ends total given parser) :
    Ends total given (f <$> parser) :=
  Ensures.map h

/-- A value that is made of what has been read. -/
theorem done {parser : Parser α} {f : α → β} (h : Ends total given parser) :
    Ends total given (parser >>= fun value ↦ Pure.pure (f value)) :=
  Ensures.bind h fun _ ↦ .pure fun _ h ↦ h

theorem ite {condition : Prop} [Decidable condition] {yes no : Parser α}
    (hyes : condition → Ends total given yes) (hno : ¬ condition → Ends total given no) :
    Ends total given (if condition then yes else no) :=
  Ensures.ite hyes hno

theorem failMissing {what : String} {kinds : KindSet} :
    Ends total given (Parser.failMissing what kinds : Parser α) := Ensures.failMissing what kinds

theorem when {given' : Place → Prop} {parser : Parser α} (h : Ends total given parser)
    (hgiven : ∀ place, given' place → given place) : Ends total given' parser :=
  Ensures.when h hgiven

/-- What is seen is known of the place. -/
theorem look {view : Place → α} {next : α → Parser β}
    (hnext : ∀ value, Ends total (fun place ↦ given place ∧ view place = value) (next value)) :
    Ends total given (Parser.look view >>= next) :=
  (Ensures.look view).bind hnext

theorem advance (hgiven : ∀ place, given place → place.kind = kind) (hend : kind ≠ .endOfInput)
    (hkind : Grammar.Continuation.leadsSet kind = false) : Ends total given Parser.advance :=
  Ensures.advance_to fun cursor hclosed hplace ↦ by
    have hhere := hgiven _ hplace
    exact Cursor.settled_advance hclosed (hhere ▸ hend) (hhere ▸ hkind)

theorem expect (hend : kind ≠ .endOfInput)
    (hkind : Grammar.Continuation.leadsSet kind = false) :
    Ends total given (Parser.expect kind) :=
  Ensures.expect_to fun _ hclosed hhere _ ↦
    Cursor.settled_advance hclosed (hhere ▸ hend) (hhere ▸ hkind)

/-- Where a token is missing nothing has been passed. -/
theorem consume {yes no : Parser α} (hyes : Ends total Anywhere yes) (hno : Ends total given no) :
    Ends total given (Parser.consume kind >>= fun found ↦ if found then yes else no) := by
  have hfound : Ensures total Untraced given (Parser.consume kind)
      fun found place ↦ found = false → given place :=
    .consume_to (fun _ _ _ _ h ↦ by cases h) fun _ _ h _ ↦ h
  exact hfound.bind fun _ ↦ .ite (fun _ ↦ hyes.when fun _ _ ↦ trivial)
    fun h ↦ hno.when fun _ hplace ↦ hplace (Bool.eq_false_iff.mpr h)

theorem phrase {category : Category} {body : Parser (Draft category)}
    (h : Ends total given body) : Ends total given (Parser.phrase body) :=
  Ensures.phrase_to h

/-- Behind a single token. -/
theorem skip {parser : Parser α} {next : α → Parser β} (h : Elementary parser)
    (hnext : ∀ value, Ends total Anywhere (next value)) : Ends total given (parser >>= next) := by
  have hanywhere : Ensures total Untraced Anywhere parser fun _ ↦ Anywhere :=
    (show Alike idle idle parser parser from .elementary h).ensures (fun _ _ _ _ _ ↦ trivial)
      (fun _ _ ↦ trivial) fun _ ↦ .fail _
  exact (hanywhere.when fun _ _ ↦ trivial).bind hnext

/-- Behind anything. -/
theorem behind {scope : Scope} (hs : scope.Ending total) {parser : Parser α}
    {next : α → Parser β} (h : Alike scope scope parser parser)
    (hnext : ∀ value, Ends total Anywhere (next value)) : Ends total given (parser >>= next) := by
  have hanywhere : Ensures total Untraced Anywhere parser fun _ ↦ Anywhere :=
    h.ensures (fun _ _ _ _ _ ↦ trivial) (fun _ _ ↦ trivial) hs.keeps
  exact (hanywhere.when fun _ _ ↦ trivial).bind hnext

end Parser.Ends

namespace Grammar

variable {total : Nat} {scope : Scope} {given : Place → Prop}

theorem ends_variableName : Ends total given variableName := .map (.expect nofun rfl)

theorem ends_memberName : Ends total given memberName := .map (.expect nofun rfl)

theorem ends_identifier : Ends total given identifier := .map (.expect nofun rfl)

/-! ### Numbers -/

theorem settled_digits {cursor : Cursor} (hclosed : cursor.Closed)
    (h : digitKinds.contains cursor.kind = true) : cursor.advance.toPlace.Settled := by
  rw [digitKinds, KindSet.contains_ofList] at h
  have hkinds : ∀ kind ∈ [Kind.pureDigits, .digits],
      kind ≠ .endOfInput ∧ Continuation.leadsSet kind = false := by decide
  obtain ⟨hend, hkind⟩ := hkinds _ (List.contains_iff_mem.mp h)
  exact Cursor.settled_advance hclosed hend hkind

theorem ends_integer : Ends total given integer := by
  have hdigits : Ensures total Untraced given (consumeAny digitKinds) fun token? place ↦
      token?.isSome = true → place.Settled :=
    .consumeAny_to (fun _ hclosed hkind _ _ ↦ settled_digits hclosed hkind) fun _ _ _ h ↦ by cases h
  refine Ensures.bind hdigits fun token? ↦ ?_
  cases token? with
  | some token => exact .pure fun _ h ↦ h rfl
  | none => exact .fail _

theorem ends_numeral : Ends total given numeral := by
  have hadvance (count : Nat) : Ensures total Untraced
      (fun place ↦ digitKinds.contains (place.peekKind (count + 1)) = true) advance
        fun _ place ↦ digitKinds.contains (place.peekKind count) = true :=
    .advance_to fun cursor _ h ↦ by
      rwa [show cursor.advance.peekKind count = cursor.peekKind (count + 1) from
        Session.peekKind_passed ⟨cursor, none, []⟩ count]
  refine .look fun isDecimal ↦ .ite (fun hdecimal ↦ ?_) fun _ ↦ .map ends_integer
  have hdigits (place : Place) (h : given place ∧ atDecimal place = isDecimal) :
      digitKinds.contains (place.peekKind 2) = true := by
    have hplace := h.2.trans hdecimal
    simp only [atDecimal, Bool.and_eq_true] at hplace
    exact hplace.1.1.2
  refine Ensures.bind ((hadvance 1).when hdigits) fun _ ↦ .bind (hadvance 0) fun _ ↦ .bind
    (.advance_to fun cursor hclosed h ↦ ?_) fun _ ↦ .pure fun _ h ↦ h
  rw [Place.peekKind, Place.peek, Place.along_zero] at h
  exact settled_digits hclosed h

/-! ### Expressions -/

variable (hs : scope.Ending total)

include hs

theorem ends_expressionsUntil {close : Kind} (hend : close ≠ .endOfInput)
    (hclose : Continuation.leadsSet close = false) :
    Ends total given (expressionsUntil scope close) :=
  .behind hs (.separatedBy .expression (.nested _)) fun _ ↦
    Ensures.bind (Ends.expect hend hclose) fun _ ↦ .pure fun _ h ↦ h

theorem ends_optionalExpressionsUntil {close : Kind} (hend : close ≠ .endOfInput)
    (hclose : Continuation.leadsSet close = false) :
    Ends total given (optionalExpressionsUntil scope close) := by
  have hempty : Ensures total Untraced given (consume close)
      fun isEmpty place ↦ isEmpty = true → place.Settled :=
    .consume_to (fun _ hclosed hkind _ _ ↦ Cursor.settled_advance hclosed (hkind ▸ hend)
      (hkind ▸ hclose)) fun _ _ _ h ↦ by cases h
  refine hempty.bind fun isEmpty ↦ .ite (fun h ↦ ?_) fun _ ↦ ?_
  · exact .pure fun _ hplace ↦ hplace h
  · exact ends_expressionsUntil hs hend hclose

theorem ends_listItems : Ends total given (listItems scope) :=
  .skip (.expect _) fun _ ↦ ends_optionalExpressionsUntil hs nofun rfl

theorem ends_primary : Ends total given (primary scope) := by
  refine .look fun kind ↦ .look fun next ↦ ?_
  split
  · exact .done (.advance (fun _ h ↦ h.1.2) nofun rfl)
  · exact .done (.advance (fun _ h ↦ h.1.2) nofun rfl)
  · exact .done (.advance (fun _ h ↦ h.1.2) nofun rfl)
  · exact .done ends_numeral
  · exact .done ends_numeral
  · exact .done (.advance (fun _ h ↦ h.1.2) nofun rfl)
  · exact .done (ends_listItems hs)
  · exact .done ends_variableName
  · exact .done ends_memberName
  · refine Ensures.bind (Ends.advance (fun _ h ↦ h.1.2) nofun rfl) fun _ ↦ .ite (fun _ ↦ ?_) fun _ ↦
      .pure fun _ h ↦ h
    exact Ends.skip .advance fun _ ↦ .done ends_identifier
  · split
    · exact .skip .advance fun _ ↦ .skip .advance fun _ ↦ .skip (.expect _) fun _ ↦
        .done (ends_listItems hs)
    · exact .failMissing

theorem ends_operand : Ends total given (operand scope) := by
  refine .phrase (.look fun type? ↦ ?_)
  cases type? with
  | some type =>
    exact .skip .advance fun _ ↦ .skip .advance fun _ ↦ .skip .advance fun _ ↦
      .done (hs.expression _)
  | none =>
    refine .look fun kind ↦ ?_
    cases unaryOperator? kind with
    | some operator => exact .skip .advance fun _ ↦ .done (hs.expression _)
    | none =>
      refine .ite (fun _ ↦ ?_) fun _ ↦ .ite (fun _ ↦ ?_) fun _ ↦ ends_primary hs
      · exact .skip .advance fun _ ↦ .behind hs (.nested _) fun _ ↦ .done (.expect nofun rfl)
      · exact .done (hs.loop.when fun _ _ ↦ trivial)

omit hs in
theorem ends_target : Ends total given target := by
  refine .look fun kind ↦ ?_
  split
  · exact .map ends_variableName
  · exact .map ends_memberName
  · exact .failMissing

theorem ends_draft (left : Phrase .expression) (continuation : Continuation) :
    Ends total given (continuation.draft scope left) := by
  cases continuation with
  | path => exact .skip .advance fun _ ↦ .done ends_identifier
  | call => exact .skip .advance fun _ ↦ .done (ends_optionalExpressionsUntil hs nofun rfl)
  | listAccess => exact .skip .advance fun _ ↦ .done (ends_expressionsUntil hs nofun rfl)
  | annotationAccess => exact .skip .advance fun _ ↦ .done (ends_expressionsUntil hs nofun rfl)
  | binary operator => exact .skip .advance fun _ ↦ .done (hs.expression _)
  | assignment => exact .skip .advance fun _ ↦ .skip (.consume _) fun _ ↦ .done ends_target
  | setPredicate =>
    exact .behind hs (alike_consumeEither _ _) fun _ ↦ .behind hs (alike_consumeEither _ _)
      fun _ ↦ .skip (.expect _) fun _ ↦ .done (hs.expression _)
  | ternary =>
    exact .skip .advance fun _ ↦ .behind hs (.nested _) fun _ ↦ .skip (.expect _) fun _ ↦
      .done (hs.expression _)

theorem ends_continuation (least : Nat) (left : Phrase .expression) :
    Ends total Place.Settled (continuation scope least left) := by
  refine .look fun found ↦ ?_
  cases found with
  | none => exact Ensures.pure fun _ h ↦ h.1
  | some continuation =>
    refine .ite (fun _ ↦ Ensures.pure fun _ h ↦ h.1) fun _ ↦ .map ?_
    exact Ensures.phraseFrom_to _ (ends_draft hs left continuation)

theorem ends_expression (least : Nat) : Ends total given (expression scope least) :=
  Ensures.bind (ends_operand hs) fun operand ↦
    Ensures.iterate_keeps (ends_continuation hs least) operand

/-! ### Loops -/

theorem ends_loopControl : Ends total given (loopControl scope) :=
  .phrase (.behind hs alike_parity? fun _ ↦ .behind hs (.behind _ (.nested _)) fun _ ↦
    .behind hs (.behind _ alike_boundedRange) fun _ ↦
      .behind hs (.behind _ alike_boundedRange) fun _ ↦
        .behind hs (.behind _ (.nested _)) fun _ ↦ .done (.expect nofun rfl))

theorem ends_counter : Ends total given (counter scope) :=
  .phrase (Ensures.bind (Ends.behind hs (.nested _) fun _ ↦ .skip (.expect _) fun _ ↦
    .done ends_variableName) fun _ ↦ .pure fun _ h ↦ h)

theorem ends_counters : Ends total Place.Settled (counters scope) := by
  have hmore : Ends total Place.Settled (Parser.behind (.symbol .comma) (counter scope)) :=
    .consume (.map (ends_counter hs)) (Ensures.pure fun _ h ↦ h)
  refine .consume ?_ (Ensures.pure fun _ h ↦ h)
  exact Ensures.bind (ends_counter hs) fun _ ↦ .bind (.many_keeps hmore) fun _ ↦ .pure fun _ h ↦ h

theorem ends_loop : Ends total given (loop scope) :=
  .phrase (.skip (.expect _) fun _ ↦ .behind hs alike_counted fun _ ↦
    Ensures.bind (ends_loopControl hs) fun _ ↦ .bind (ends_counters hs) fun _ ↦ .pure fun _ h ↦ h)

end Grammar

/-- Under every limit expressions and loops end with tokens that lead to no set predicate. -/
theorem Rule.ends_inside (total limit room : Nat) : (inside limit room).Ending total := by
  have hkeeps (room : Nat) : ∀ rule, Ensures total Untraced Anywhere
      ((inside limit room).nested rule) fun _ ↦ Anywhere :=
    keeps_run (fun _ h ↦ h) limit room
  induction room with
  | zero => exact ⟨hkeeps 0, fun _ _ hfit _ ↦ ⟨hfit.closed, hfit.total_eq, trivial⟩,
      fun _ hfit _ ↦ ⟨hfit.closed, hfit.total_eq, trivial⟩⟩
  | succ room ih =>
    exact ⟨hkeeps (room + 1),
      fun least ↦ .enter (fun _ _ _ ↦ trivial) (fun _ _ _ _ ↦ trivial)
        (Grammar.ends_expression ih least),
      .enter (fun _ _ _ ↦ trivial) (fun _ _ _ _ ↦ trivial) (Grammar.ends_loop ih)⟩

end CorpusQuery
