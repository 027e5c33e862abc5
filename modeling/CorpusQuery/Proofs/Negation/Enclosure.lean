import CorpusQuery.Proofs.Extent.Discipline
import CorpusQuery.Proofs.Negation.Height
import CorpusQuery.Proofs.Spelling.Expression
import CorpusQuery.Proofs.Spelling.MarkerAttempt

/-!
The commas of an expression. Every bracket that an expression opens is closed in it again, and its
commas stand between brackets, unless a loop has begun before them (`Rule.encloses_inside`). A
marker closes its brackets too and begins no loop, so no expression that goes up to a negation
begins with a marker and a comma (`Grammar.leadingMarker_fails`).

Both are relations between the indices where a parser begins and where it ends. What is reflexive
and transitive is kept by a parser if the tokens that it passes keep it (`Parser.Traverses`).
-/

set_option autoImplicit false
set_option relaxedAutoImplicit false

namespace CorpusQuery

open CorpusQuery.Parser CorpusQuery.Grammar

/-! ### Contracts -/

namespace Parser

variable {α β : Type} {start : Place} {first : Nat} {kind : Kind} {kinds : KindSet}

/-- From an index of the token list the parser stops, if it returns, at an index that stands in a
relation to the first one. -/
abbrev Traverses (start : Place) (relation : Nat → Nat → Prop) (first : Nat) (parser : Parser α) :
    Prop :=
  From start first parser fun _ ↦ relation first

namespace Traverses

variable {relation : Nat → Nat → Prop} {parser : Parser α}

theorem map {f : α → β} (h : Traverses start relation first parser) :
    Traverses start relation first (f <$> parser) :=
  From.map h

theorem ite {condition : Prop} [Decidable condition] {yes no : Parser α}
    (hyes : condition → Traverses start relation first yes)
    (hno : ¬ condition → Traverses start relation first no) :
    Traverses start relation first (if condition then yes else no) :=
  From.ite hyes hno

theorem view {view : Place → α} {next : α → Parser β}
    (hnext : ∀ place, start.At first place → Traverses start relation first (next (view place))) :
    Traverses start relation first (look view >>= next) :=
  From.view hnext

theorem look {view : Place → α} {next : α → Parser β}
    (hnext : ∀ value, Traverses start relation first (next value)) :
    Traverses start relation first (look view >>= next) :=
  From.look hnext

theorem expect (hend : kind ≠ .endOfInput)
    (htoken : (start.peek first).kind = kind → relation first (first + 1)) :
    Traverses start relation first (Parser.expect kind) :=
  (From.expect_one hend).weaken fun _ _ _ ⟨hkind, hlast⟩ ↦ hlast ▸ htoken hkind

variable [IsPreorder Nat relation]

theorem done (value : α) : Traverses start relation first (pure value : Parser α) :=
  .pure (refl_of relation first)

theorem andThen {next : α → Parser β} (h : Traverses start relation first parser)
    (hnext : ∀ value middle, Traverses start relation middle (next value)) :
    Traverses start relation first (parser >>= next) :=
  From.bind h fun value middle _ hfirst ↦ (hnext value middle).weaken
    fun _ _ _ ↦ trans_of relation hfirst

/-- Passing a token that is known. -/
theorem pass {rest : Token → Parser β} (hend : (start.peek first).kind ≠ .endOfInput)
    (htoken : relation first (first + 1))
    (hrest : ∀ token, Traverses start relation (first + 1) (rest token)) :
    Traverses start relation first (Parser.advance >>= rest) :=
  From.pass hend fun token ↦ (hrest token).weaken fun _ _ _ ↦ trans_of relation htoken

theorem consume (hend : kind ≠ .endOfInput)
    (htoken : (start.peek first).kind = kind → relation first (first + 1)) :
    Traverses start relation first (Parser.consume kind) := by
  refine (From.consume_one hend).weaken fun found last _ hfound ↦ ?_
  cases found with
  | true => exact hfound.2 ▸ htoken hfound.1
  | false => exact (show last = first from hfound) ▸ refl_of relation last

theorem consumeAny (hend : kinds.contains .endOfInput = false)
    (htoken : kinds.contains (start.peek first).kind = true → relation first (first + 1)) :
    Traverses start relation first (Parser.consumeAny kinds) := by
  refine .consumeAny_to (fun cursor hclosed hkind hplace ↦ ?_) fun place _ hplace ↦ ?_
  · have hne : cursor.kind ≠ .endOfInput := by
      rintro heq
      rw [heq, hend] at hkind
      cases hkind
    have hnext := hplace.advance hclosed hne
    rw [hplace.kind_eq] at hkind
    exact ⟨hnext.1, hnext.2 ▸ Nat.le_succ first, hnext.2 ▸ htoken hkind⟩
  · exact ⟨hplace.1, Nat.le_of_eq hplace.2.symm, hplace.2 ▸ refl_of relation _⟩

theorem oneOf {table : List (Kind × α)} (hend : (KindSet.ofKeys table).contains .endOfInput = false)
    (htoken : (KindSet.ofKeys table).contains (start.peek first).kind = true →
      relation first (first + 1)) : Traverses start relation first (Parser.oneOf table) := by
  refine (consumeAny hend htoken).andThen fun token? _ ↦ ?_
  cases token? <;> exact .done _

theorem phraseFrom {category : Category} {body : Parser (Draft category)} {begin : Nat}
    (h : Traverses start relation first body) :
    Traverses start relation first (Parser.phraseFrom begin body) :=
  h.andThen fun _ _ ↦ .look fun _ ↦ .done _

theorem phrase {category : Category} {body : Parser (Draft category)}
    (h : Traverses start relation first body) :
    Traverses start relation first (Parser.phrase body) :=
  .look fun _ ↦ phraseFrom h

theorem iterate {step : α → Parser (Option α)}
    (h : ∀ value middle, Traverses start relation middle (step value)) (value : α) :
    Traverses start relation first (Parser.iterate step value) := by
  have hstep (value : α) (middle : Nat) (_ : first ≤ middle) (hmiddle : relation first middle) :
      From start middle (step value) fun next? last ↦
        next?.elim (relation first last) fun _ ↦ relation first last :=
    (h value middle).weaken fun next? _ _ hlast ↦ by
      cases next? <;> exact trans_of relation hmiddle hlast
  exact From.iterate hstep (refl_of relation first)

theorem separatedBy (hend : kind ≠ .endOfInput)
    (htoken : ∀ index, (start.peek index).kind = kind → relation index (index + 1))
    (h : ∀ middle, Traverses start relation middle parser) :
    Traverses start relation first (Parser.separatedBy kind parser) := by
  have hstep (items : List α) (middle : Nat) : Traverses start relation middle
      (do return (← Parser.behind kind parser).map (· :: items)) :=
    ((consume hend (htoken middle)).andThen fun _ middle ↦ .ite (fun _ ↦ (h middle).map)
      fun _ ↦ .done _).andThen fun _ _ ↦ .done _
  exact (h first).andThen fun _ _ ↦
    ((iterate hstep []).andThen fun _ _ ↦ .done _).andThen fun _ _ ↦ .done _

omit [IsPreorder Nat relation] in
theorem balanced (h : Traverses start start.Enclosed first parser) :
    Traverses start start.Balanced first parser :=
  From.weaken h fun _ _ _ henclosed ↦ henclosed.toBalanced

end Traverses

end Parser

/-- The expressions and loops of a scope enclose their commas. -/
structure Scope.Encloses (start : Place) (scope : Scope) : Prop where
  expression : ∀ least first, Traverses start start.Enclosed first (scope.expression least)
  loop : ∀ first, Traverses start start.Enclosed first scope.loop

namespace Grammar

variable {start : Place} {first : Nat} {kind : Kind} {scope : Scope}

/-! ### Names and numbers -/

section Numbers

variable {relation : Nat → Nat → Prop} [IsPreorder Nat relation]
  (hdigits : ∀ index, digitKinds.contains (start.peek index).kind = true →
    relation index (index + 1))
  (hdot : ∀ index, (start.peek index).kind = .symbol .dot → relation index (index + 1))

include hdigits

theorem traverses_integer : Traverses start relation first integer := by
  refine (Traverses.consumeAny rfl (hdigits first)).andThen fun token? _ ↦ ?_
  cases token? with
  | none => exact .fail
  | some token => exact .done _

include hdot

theorem traverses_numeral : Traverses start relation first numeral := by
  refine .view fun place hplace ↦ .ite (fun hdecimal ↦ ?_) fun _ ↦ (traverses_integer hdigits).map
  simp only [atDecimal, Bool.and_eq_true, beq_iff_eq, hplace.kind_eq,
    hplace.peekKind_eq] at hdecimal
  obtain ⟨⟨⟨⟨hwhole, hpoint⟩, hfraction⟩, -⟩, -⟩ := hdecimal
  exact .pass (ne_endOfInput_of_digits hwhole) (hdigits _ hwhole) fun _ ↦
    .pass (ne_of_eq_of_ne hpoint (by decide)) (hdot _ hpoint) fun _ ↦
      .pass (ne_endOfInput_of_digits hfraction) (hdigits _ hfraction) fun _ ↦ .done _

end Numbers

/-! ### Expressions -/

section Expressions

theorem enclosed_expect (h : kind.isFlat = true) :
    Traverses start start.Enclosed first (expect kind) :=
  .expect (Kind.isFlat_iff.mp h).2.2 fun hkind ↦ .token hkind h

theorem enclosed_consume (h : kind.isFlat = true) :
    Traverses start start.Enclosed first (consume kind) :=
  .consume (Kind.isFlat_iff.mp h).2.2 fun hkind ↦ .token hkind h

/-- Passing a token that has been seen. -/
theorem enclosed_pass {α : Type} {rest : Token → Parser α}
    (hkind : (start.peek first).kind = kind) (h : kind.isFlat = true)
    (hrest : ∀ token, Traverses start start.Enclosed (first + 1) (rest token)) :
    Traverses start start.Enclosed first (advance >>= rest) :=
  .pass (hkind ▸ (Kind.isFlat_iff.mp h).2.2) (.token hkind h) hrest

theorem enclosed_variableName : Traverses start start.Enclosed first variableName :=
  .map (enclosed_expect rfl)

theorem enclosed_memberName : Traverses start start.Enclosed first memberName :=
  .map (enclosed_expect rfl)

theorem enclosed_identifier : Traverses start start.Enclosed first identifier :=
  .map (enclosed_expect rfl)

theorem enclosed_numeral : Traverses start start.Enclosed first numeral := by
  refine traverses_numeral (fun index hdigits ↦ ?_) fun index hdot ↦ .token hdot rfl
  rcases contains_digitKinds.mp hdigits with hkind | hkind <;> exact .token hkind rfl

variable (hs : scope.Encloses start)

include hs

theorem balanced_expressions :
    Traverses start start.Balanced first (separatedBy (.symbol .comma) (scope.expression 0)) :=
  .separatedBy nofun (fun _ hkind ↦ .token hkind rfl) fun _ ↦ (hs.expression 0 _).balanced

theorem closes_expressionsUntil {close : Kind} (hend : close ≠ .endOfInput) :
    From start first (expressionsUntil scope close) fun _ ↦ start.Closes close first :=
  (balanced_expressions hs).bind fun _ middle _ hbalanced ↦ .demand hend fun _ hkind ↦
    .pure ⟨middle, hbalanced, hkind, rfl⟩

theorem closes_optionalExpressionsUntil {close : Kind} (hend : close ≠ .endOfInput) :
    From start first (optionalExpressionsUntil scope close) fun _ ↦ start.Closes close first := by
  refine (From.consume_one hend).bind fun found middle _ hfound ↦ ?_
  cases found with
  | true => exact .pure ⟨first, refl_of start.Balanced first, hfound⟩
  | false => exact (show middle = first from hfound) ▸ closes_expressionsUntil hs hend

theorem enclosed_listItems : Traverses start start.Enclosed first (listItems scope) :=
  From.demand (by nofun) fun _ hopen ↦ (closes_optionalExpressionsUntil hs (by nofun)).weaken
    fun _ _ _ hcloses ↦ hcloses.enclosed hopen rfl rfl

theorem enclosed_castTo {type : ValueType} {place : Place} (hplace : start.At first place)
    (hcast : castAt? place = some type) :
    Traverses start start.Enclosed first (castTo scope type) := by
  rw [castAt?_eq_some, hplace.kind_eq, hplace.peekKind_eq, hplace.peekKind_eq] at hcast
  obtain ⟨hopen, htype, hclose⟩ := hcast
  have hcloses : start.Closes (.symbol .rightParen) (first + 1) (first + 3) :=
    ⟨first + 2, .token htype rfl, hclose, rfl⟩
  refine From.pass (hopen ▸ nofun) fun _ ↦ .pass (htype ▸ nofun) fun _ ↦
    .pass (hclose ▸ nofun) fun _ ↦ (hs.expression _ _).bind fun _ _ _ hoperand ↦ .pure ?_
  exact trans_of start.Enclosed (hcloses.enclosed hopen rfl rfl) hoperand

theorem enclosed_unary {operator : UnaryOperator}
    (hoperator : unaryOperator? (start.peek first).kind = some operator) :
    Traverses start start.Enclosed first (unary scope operator) := by
  have hflat : (start.peek first).kind.isFlat = true := by
    unfold unaryOperator? at hoperator
    split at hoperator
    case h_5 => cases hoperator
    all_goals
      rename_i hkind
      rw [hkind]
      rfl
  exact enclosed_pass rfl hflat fun _ ↦ (hs.expression _ _).andThen fun _ _ ↦ .done _

theorem enclosed_wrapping (hopen : (start.peek first).kind = .symbol .leftParen) :
    Traverses start start.Enclosed first (wrapping scope) :=
  From.pass (hopen ▸ nofun) fun _ ↦ (hs.expression 0 _).bind fun _ middle _ hinner ↦
    .demand nofun fun _ hclose ↦ .pure
      (Place.Closes.enclosed ⟨middle, hinner.toBalanced, hclose, rfl⟩ hopen rfl rfl)

theorem enclosed_primary : Traverses start start.Enclosed first (primary scope) := by
  refine .view fun place hplace ↦ .view fun place' hplace' ↦ ?_
  rw [hplace.kind_eq, hplace'.peekKind_eq]
  generalize hkind : (start.peek first).kind = kind
  generalize hnext : (start.peek (first + 1)).kind = next
  split
  · exact enclosed_pass hkind rfl fun _ ↦ .done _
  · exact enclosed_pass hkind rfl fun _ ↦ .done _
  · exact enclosed_pass hkind rfl fun _ ↦ .done _
  · exact enclosed_numeral.andThen fun _ _ ↦ .done _
  · exact enclosed_numeral.andThen fun _ _ ↦ .done _
  · exact enclosed_pass hkind rfl fun _ ↦ .done _
  · exact (enclosed_listItems hs).andThen fun _ _ ↦ .done _
  · exact enclosed_variableName.andThen fun _ _ ↦ .done _
  · exact enclosed_memberName.andThen fun _ _ ↦ .done _
  · refine enclosed_pass hkind rfl fun _ ↦ .ite (fun hcolon ↦ ?_) fun _ ↦ .done _
    rw [hcolon] at hnext
    exact enclosed_pass hnext rfl fun _ ↦ enclosed_identifier.andThen fun _ _ ↦ .done _
  · split
    · rename_i htype
      have hword := lookup_valueTypes.mp htype
      subst hword
      refine enclosed_pass hkind rfl fun _ ↦ From.pass (hnext ▸ nofun) fun _ ↦ .demand nofun
        fun _ hclose ↦ (enclosed_listItems hs).bind fun _ _ _ hitems ↦ .pure ?_
      have hcloses : start.Closes (.symbol .rightBracket) (first + 1 + 1) (first + 1 + 1 + 1) :=
        ⟨_, refl_of start.Balanced _, hclose, rfl⟩
      exact trans_of start.Enclosed (hcloses.enclosed hnext rfl rfl) hitems
    · exact .failMissing

theorem enclosed_operand : Traverses start start.Enclosed first (operand scope) := by
  refine .phrase (.view fun place hplace ↦ ?_)
  cases hcast : castAt? place with
  | some type => exact enclosed_castTo hs hplace hcast
  | none =>
    refine .view fun place hplace ↦ ?_
    rw [hplace.kind_eq]
    cases hoperator : unaryOperator? (start.peek first).kind with
    | some operator => exact enclosed_unary hs hoperator
    | none =>
      exact .ite (enclosed_wrapping hs) fun _ ↦ .ite
        (fun _ ↦ (hs.loop first).andThen fun _ _ ↦ .done _) fun _ ↦ enclosed_primary hs

omit hs in
theorem enclosed_target : Traverses start start.Enclosed first target := by
  refine .look fun kind ↦ ?_
  split
  · exact enclosed_variableName.map
  · exact enclosed_memberName.map
  · exact .failMissing

omit hs in
theorem enclosed_consumeEither {other : Kind} (h : kind.isFlat = true)
    (hother : other.isFlat = true) :
    Traverses start start.Enclosed first (consumeEither kind other) :=
  (enclosed_consume h).andThen fun _ _ ↦ .ite (fun _ ↦ .done _) fun _ ↦ enclosed_consume hother

omit hs in
theorem isFlat_of_binary {operator : BinaryOperator} (h : binaryOperator? kind = some operator) :
    kind.isFlat = true := by
  unfold binaryOperator? at h
  split at h
  case h_25 => cases h
  all_goals rfl

theorem enclosed_draft (left : Phrase .expression) {continuation : Continuation}
    (h : continuation.Opens (start.peek first).kind) :
    Traverses start start.Enclosed first (continuation.draft scope left) := by
  cases continuation with
  | path =>
    exact enclosed_pass h rfl fun _ ↦ enclosed_identifier.andThen fun _ _ ↦ .done _
  | call =>
    exact From.pass (h ▸ nofun) fun _ ↦ (closes_optionalExpressionsUntil hs (by nofun)).bind
      fun _ _ _ hcloses ↦ .pure (hcloses.enclosed h rfl rfl)
  | listAccess =>
    exact From.pass (h ▸ nofun) fun _ ↦ (closes_expressionsUntil hs (by nofun)).bind
      fun _ _ _ hcloses ↦ .pure (hcloses.enclosed h rfl rfl)
  | annotationAccess =>
    exact From.pass (h ▸ nofun) fun _ ↦ (closes_expressionsUntil hs (by nofun)).bind
      fun _ _ _ hcloses ↦ .pure (hcloses.enclosed h rfl rfl)
  | binary operator =>
    exact enclosed_pass rfl (isFlat_of_binary h) fun _ ↦
      (hs.expression _ _).andThen fun _ _ ↦ .done _
  | assignment =>
    exact enclosed_pass h rfl fun _ ↦ .andThen (enclosed_consume rfl) fun _ _ ↦
      enclosed_target.andThen fun _ _ ↦ .done _
  | setPredicate =>
    exact .andThen (enclosed_consumeEither rfl rfl) fun _ _ ↦
      .andThen (enclosed_consumeEither rfl rfl) fun _ _ ↦ .andThen (enclosed_expect rfl)
        fun _ _ ↦ (hs.expression _ _).andThen fun _ _ ↦ .done _
  | ternary =>
    exact enclosed_pass h rfl fun _ ↦ (hs.expression _ _).andThen fun _ _ ↦
      .andThen (enclosed_expect rfl) fun _ _ ↦ (hs.expression _ _).andThen fun _ _ ↦ .done _

theorem enclosed_continuation (least : Nat) (left : Phrase .expression) :
    Traverses start start.Enclosed first (continuation scope least left) := by
  refine .view fun place hplace ↦ ?_
  cases hfound : Continuation.at? place with
  | none => exact .done _
  | some found =>
    have hopens := Continuation.opens_of_at? hfound
    rw [hplace.kind_eq] at hopens
    exact .ite (fun _ ↦ .done _) fun _ ↦ .map (.phraseFrom (enclosed_draft hs left hopens))

theorem enclosed_expression (least : Nat) :
    Traverses start start.Enclosed first (expression scope least) :=
  (enclosed_operand hs).andThen fun _ _ ↦
    .iterate (fun left _ ↦ enclosed_continuation hs least left) _

/-! ### Loops -/

theorem enclosed_boundedRange : Traverses start start.Enclosed first (boundedRange scope) := by
  refine .phrase (From.demand nofun fun _ hopen ↦ (hs.expression 0 _).balanced.bind
    fun _ _ _ hlower ↦ .demand nofun fun _ hcomma ↦ (hs.expression 0 _).balanced.bind
      fun _ middle _ hupper ↦ .demand nofun fun _ hclose ↦ .pure ?_)
  have hinner := trans_of start.Balanced (trans_of start.Balanced hlower (.token hcomma rfl)) hupper
  exact Place.Closes.enclosed ⟨middle, hinner, hclose, rfl⟩ hopen rfl rfl

omit hs in
theorem enclosed_parity? : Traverses start start.Enclosed first parity? :=
  .andThen (enclosed_consume rfl) fun _ _ ↦ .ite (fun _ ↦ .done _) fun _ ↦
    .andThen (enclosed_consume rfl) fun _ _ ↦ .done _

omit hs in
theorem enclosed_behind {α : Type} {parser : Parser α} (hflat : kind.isFlat = true)
    (h : ∀ middle, Traverses start start.Enclosed middle parser) :
    Traverses start start.Enclosed first (behind kind parser) :=
  .andThen (enclosed_consume hflat) fun _ middle ↦ .ite (fun _ ↦ (h middle).map) fun _ ↦ .done _

theorem enclosed_loopControl : Traverses start start.Enclosed first (loopControl scope) :=
  .phrase <| enclosed_parity?.andThen fun _ _ ↦
    .andThen (enclosed_behind rfl fun _ ↦ hs.expression 0 _) fun _ _ ↦
      .andThen (enclosed_behind rfl fun _ ↦ enclosed_boundedRange hs) fun _ _ ↦
        .andThen (enclosed_behind rfl fun _ ↦ enclosed_boundedRange hs) fun _ _ ↦
          .andThen (enclosed_behind rfl fun _ ↦ hs.expression 0 _) fun _ _ ↦
            .andThen (enclosed_expect rfl) fun _ _ ↦ .done _

theorem enclosed_counted : Traverses start start.Enclosed first (counted scope) :=
  (hs.expression _ _).andThen fun _ _ ↦ .andThen (enclosed_expect rfl) fun _ _ ↦
    enclosed_variableName.andThen fun _ _ ↦ .done _

theorem balanced_counters : Traverses start start.Balanced first (counters scope) := by
  refine .andThen (enclosed_consume rfl).balanced fun _ _ ↦ .ite (fun _ ↦ ?_) fun _ ↦ .done _
  refine .separatedBy nofun (fun _ hkind ↦ .token hkind rfl) fun _ ↦ Traverses.balanced ?_
  exact .phrase ((enclosed_counted hs).andThen fun _ _ ↦ .done _)

theorem enclosed_loop : Traverses start start.Enclosed first (loop scope) := by
  refine .phrase (From.demand nofun fun _ hforeach ↦ (enclosed_counted hs).balanced.bind
    fun _ _ _ hcounted ↦ (enclosed_loopControl hs).balanced.bind fun _ _ _ hcontrol ↦
      (balanced_counters hs).bind fun _ _ _ hcounters ↦ .pure ?_)
  have hrest := trans_of start.Balanced (trans_of start.Balanced hcounted hcontrol) hcounters
  exact (trans_of start.Balanced (.token hforeach rfl) hrest).enclosed hforeach

end Expressions

/-! ### Markers -/

section Markers

theorem level_signedNumeral : Traverses start start.Level first signedNumeral := by
  have hnumeral (index : Nat) : Traverses start start.Level index numeral := by
    refine traverses_numeral (fun index hdigits ↦ ?_) fun index hdot ↦ .token hdot rfl nofun rfl
    rcases contains_digitKinds.mp hdigits with hkind | hkind <;>
      exact .token hkind rfl nofun rfl
  refine .andThen (.oneOf rfl fun hsign ↦ ?_) fun sign? _ ↦ ?_
  · rw [KindSet.contains_ofKeys] at hsign
    obtain ⟨sign, hsign⟩ := Option.isSome_iff_exists.mp hsign
    rcases lookup_signs hsign with ⟨hkind, -⟩ | ⟨hkind, -⟩ <;> exact .token hkind rfl nofun rfl
  · cases sign? with
    | none => exact hnumeral _
    | some sign =>
      exact .look fun _ ↦ .ite (fun _ ↦ (hnumeral _).map) fun _ ↦
        From.skip (.expecting _) fun _ _ _ ↦ .fail

theorem level_markerArguments : Traverses start start.Level first markerArguments := by
  refine (From.consume_one (by nofun)).bind fun found middle _ hfound ↦ ?_
  cases found with
  | false => exact (show middle = first from hfound) ▸ Traverses.done _
  | true =>
    obtain ⟨hopen, rfl⟩ := hfound
    have harguments : Traverses start start.Level (first + 1)
        (separatedBy (.symbol .comma) signedNumeral) :=
      .separatedBy nofun (fun _ hkind ↦ .token hkind rfl nofun rfl) fun _ ↦ level_signedNumeral
    exact harguments.bind fun _ _ _ harguments ↦ .demand nofun fun _ hclose ↦
      .pure (harguments.wrap hopen hclose)

variable (hmarker : ∀ least first, Traverses start start.Level first (scope.marker least))

include hmarker

theorem level_markerOperand : Traverses start start.Level first (markerOperand scope) := by
  refine .phrase ((From.consume_one (by nofun)).bind fun found middle _ hfound ↦ ?_)
  cases found with
  | true =>
    obtain ⟨hopen, rfl⟩ := hfound
    exact (hmarker 0 _).bind fun _ _ _ hinner ↦ .demand nofun fun _ hclose ↦
      .pure (hinner.wrap hopen hclose)
  | false =>
    obtain rfl : middle = first := hfound
    refine From.test fun isCall hcall ↦ .ite (fun hfound ↦ ?_) fun _ ↦ .failMissing
    have hkind := beq_iff_eq.mp (hcall.trans hfound)
    exact Traverses.pass (hkind ▸ nofun) (.token hkind rfl nofun rfl) fun _ ↦
      level_markerArguments.andThen fun _ _ ↦ .done _

theorem level_markerContinuation (least : Nat) (left : Phrase .marker) :
    Traverses start start.Level first (markerContinuation scope least left) := by
  refine .view fun place hplace ↦ ?_
  rw [hplace.kind_eq]
  cases hconnective : Connective.ofKind? (start.peek first).kind with
  | none => exact .done _
  | some connective =>
    have htoken : (start.peek first).kind ≠ .endOfInput ∧ start.Level first (first + 1) := by
      unfold Connective.ofKind? at hconnective
      split at hconnective
      case h_5 => cases hconnective
      all_goals
        rename_i hkind
        exact ⟨hkind ▸ nofun, .token hkind rfl nofun rfl⟩
    exact .ite (fun _ ↦ .done _) fun _ ↦ .map (.phraseFrom (.pass htoken.1 htoken.2 fun _ ↦
      (hmarker _ _).andThen fun _ _ ↦ .done _))

theorem level_marker (least : Nat) : Traverses start start.Level first (marker scope least) :=
  (level_markerOperand hmarker).andThen fun _ _ ↦
    .iterate (fun left _ ↦ level_markerContinuation hmarker least left) _

/-- Where enclosed tokens go up to a negation, no marker with a comma behind it begins. -/
theorem leadingMarker_fails {last : Nat} (h : start.Enclosed first last)
    (hnegation : Continuation.isNegation (start.peek last).kind = true) {session : Session}
    (hclosed : start.Closed) (hplace : start.At first session.cursor.toPlace) :
    ∃ failure after, leadingMarker scope session = .error failure after := by
  have hnever : From start first (leadingMarker scope) fun _ _ ↦ False :=
    (hmarker 0 first).bind fun _ middle hle hlevel ↦ .demand nofun fun _ hcomma ↦
      absurd hcomma (h.not_comma hnegation hlevel hle)
  cases hrun : leadingMarker scope session with
  | ok marker after => exact (hnever.ok (hplace.1.fit hclosed) hplace hrun).2.2.elim
  | error failure after => exact ⟨failure, after, rfl⟩

end Markers

end Grammar

/-! ### Rules -/

theorem Rule.encloses_inside (start : Place) (limit room : Nat) :
    (inside limit room).Encloses start := by
  induction room with
  | zero =>
    exact ⟨fun _ _ _ hfit _ ↦ ⟨hfit.closed, hfit.total_eq, trivial⟩,
      fun _ _ hfit _ ↦ ⟨hfit.closed, hfit.total_eq, trivial⟩⟩
  | succ room ih =>
    exact ⟨fun least _ ↦ From.enter (Grammar.enclosed_expression ih least),
      fun _ ↦ From.enter (Grammar.enclosed_loop ih)⟩

theorem Rule.level_inside (start : Place) (limit room least first : Nat) :
    Traverses start start.Level first ((inside limit room).marker least) := by
  induction room generalizing least first with
  | zero => exact fun _ hfit _ ↦ ⟨hfit.closed, hfit.total_eq, trivial⟩
  | succ room ih => exact From.enter (Grammar.level_marker ih least)

end CorpusQuery
