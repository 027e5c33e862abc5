import CorpusQuery.Proofs.Coupling.Combinator

/-!
The grammar read in two parses side by side. Whatever a lawful coupling relates, every rule of the
grammar ends alike from related sessions on, or the first parse escapes (`Rule.coupled_body`). The
choices of the grammar are where this needs more than the laws of the coupling: the readings they
give up must not have come further than those they keep (`Coupling.Scopes`).
-/

set_option autoImplicit false
set_option relaxedAutoImplicit false

namespace CorpusQuery

open CorpusQuery.Parser

namespace Grammar

/-- Whether a brace stands behind a quantifier. -/
def groupQuestion : Parser Bool := do
  let _ ← quantifier
  look (·.kind == .symbol .leftBrace)

/-- A group, or nodes if there is none. -/
def groupedOrNot (scope : Scope) (isGrouping : Bool) : Parser (Draft .nodeStatement) :=
  if isGrouping then grouping scope else nodes scope

/-- A group behind its quantifier. -/
def groupBody (scope : Scope) (quantifier : Option (Phrase .quantifier)) :
    Parser (Draft .nodeStatement) := do
  let _ ← expect (.symbol .leftBrace)
  let statements ← nodeStatements scope
  let _ ← expect (.symbol .rightBrace)
  pure ⟨.grouping, .optional quantifier (.many statements .nil)⟩

/-- What follows the first node of nodes. -/
def nodesBehind (scope : Scope) (node : Phrase .node) : Parser (Draft .nodeStatement) := do
  let connected ← atEdge
  let isFragment ← if connected then pure true else check (.symbol .comma)
  if isFragment then
    let first ← elementFrom scope node
    let others ← many (behind (.symbol .comma) (element scope))
    pure ⟨.graphFragment, .many (first :: others) .nil⟩
  else
    pure ⟨.singleNode, .one node .nil⟩

/-- A proper node behind its quantifier. -/
def nodeBody (scope : Scope) (quantifier : Option (Phrase .quantifier)) : Parser (Draft .node) := do
  let _ ← expect (.symbol .leftBracket)
  let label ← label?
  let (marker, content) ← markedContent scope
  pure ⟨.properNode label,
    .optional quantifier
      (.optional marker (.optional content.constraint (.optional content.children .nil)))⟩

end Grammar

open CorpusQuery.Grammar

/-- The readings that a scope gives up never come further than those that it keeps in their
place. -/
structure Coupling.Retreats (c : Coupling) (scope : Scope) : Prop where
  marker : c.Drops (leadingMarker scope) (nodeContent scope)
  constraint : c.Drops (leadingConstraint scope)
    (attempt "node children" scope.depth (onlyChildren scope))
  selection : c.Drops (plainSelection scope)
    (attempt "structural selection" scope.depth (structuralSelection scope))
  grouping : ∀ session copy, c.sessions session copy →
    quantifierStart.contains session.cursor.kind = true → c.Ahead (groupQuestion session) →
      c.Escapes ((lookahead groupQuestion >>= groupedOrNot scope) session)

/-- Where there is no horizon, nothing is given up behind it. -/
theorem Coupling.Retreats.of_never {c : Coupling} (hpast : ∀ place, ¬ c.past place)
    (hbeyond : ∀ failure, ¬ c.beyond failure) (scope : Scope) : c.Retreats scope where
  marker _ _ _ _ _ _ _ _ _ _ h _ := absurd h (hbeyond _)
  constraint _ _ _ _ _ _ _ _ _ _ h _ := absurd h (hbeyond _)
  selection _ _ _ _ _ _ _ _ _ _ h _ := absurd h (hbeyond _)
  grouping session _ _ _ h := by
    cases hrun : groupQuestion session with
    | ok answer after =>
      rw [hrun] at h
      exact absurd h (hpast _)
    | error failure after =>
      rw [hrun] at h
      exact absurd h (hbeyond _)

/-- Two scopes whose rules are coupled and whose parsers move forward. -/
structure Coupling.Scopes (c : Coupling) (scope other : Scope) : Prop where
  nested : ∀ rule : Rule, Coupled c Anywhere (Tree.blurred c.blur) (scope.nested rule)
    (other.nested rule)
  progressive : scope.Progressive
  progressive_other : other.Progressive
  retreats : c.Retreats scope

namespace Grammar

variable {c : Coupling} {scope other : Scope} {given : Place → Prop} (hc : c.Lawful)

/-! ### Names and numbers -/

section Atoms

include hc

theorem coupled_variableName : Coupled c given id variableName variableName :=
  (Coupled.expect_text hc rfl).map _ fun _ _ h ↦ h

theorem coupled_memberName : Coupled c given id memberName memberName :=
  (Coupled.expect_text hc rfl).map _ fun _ _ h ↦ h

theorem coupled_identifier : Coupled c given id identifier identifier :=
  (Coupled.expect_text hc rfl).map _ fun _ _ h ↦ h

theorem coupled_label? : Coupled c given id label? label? := by
  refine (Coupled.check hc).bind_same fun isMember ↦
    (Coupled.look hc id fun _ _ _ hsees ↦ ?_).bind_same fun isLabel ↦ .ite ?_ (.pure rfl)
  · exact congrArg (· == _) hsees.next
  · exact (coupled_memberName hc).bind_same fun _ ↦ (Coupled.expect hc).bind fun _ _ _ ↦ .pure rfl

omit hc in
theorem hasText_of_digits (kind : Kind) (h : digitKinds.contains kind = true) :
    kind.hasText = true := by
  rw [digitKinds, KindSet.contains_ofList] at h
  rcases List.mem_pair.mp (List.contains_iff_mem.mp h) with rfl | rfl <;> rfl

theorem coupled_integer : Coupled c given id integer integer := by
  refine (Coupled.consumeAny hc hasText_of_digits).bind fun token? token?' htoken ↦ ?_
  cases token? with
  | none =>
    obtain rfl : token?' = none := Option.map_eq_none_iff.mp htoken.symm
    exact .fail hc
  | some token =>
    obtain ⟨token', rfl, htext⟩ := Option.map_eq_some_iff.mp htoken.symm
    exact .pure htext.symm

theorem coupled_numeral : Coupled c given id numeral numeral := by
  refine .look_then hc (fun _ _ _ hsees ↦ hsees.atDecimal_eq) fun isDecimal ↦ ?_
  cases isDecimal with
  | false => exact (coupled_integer hc).map id fun _ _ h ↦ congrArg Numeral.integer h
  | true =>
    -- The digits behind the point are seen before the first ones are passed.
    refine (Coupled.advance_text hc fun place hplace ↦ ?_).bind_given
      (fun _ place ↦ digitKinds.contains (place.peekKind 1) = true) ?_
      fun whole whole' hwhole ↦ ?_
    · have hdecimal := hplace.2
      simp only [atDecimal, Bool.and_eq_true] at hdecimal
      exact hasText_of_digits _ hdecimal.1.1.1.1
    · intro session copy value after _ hplace hrun
      cases hrun
      have hdecimal := hplace.2
      simp only [atDecimal, Bool.and_eq_true] at hdecimal
      exact (session.peekKind_passed 1).symm ▸ hdecimal.1.1.2
    refine (Coupled.advance hc).bind_given
      (fun _ place ↦ digitKinds.contains place.kind = true) ?_ fun _ _ _ ↦ ?_
    · intro session copy value after _ hplace hrun
      cases hrun
      exact session.kind_passed.symm ▸ hplace
    refine (Coupled.advance_text hc fun place ↦ hasText_of_digits _).bind
      fun fraction fraction' hfraction ↦ .pure ?_
    rw [hwhole, hfraction]

theorem coupled_signedNumeral : Coupled c given id signedNumeral signedNumeral := by
  refine .oneOf_then hc rfl (coupled_numeral hc) fun sign ↦ ?_
  refine (Coupled.look hc id fun _ _ hbehind hsees ↦ ?_).bind_same fun touching ↦ .ite ?_ ?_
  · exact hsees.touches hbehind
  · exact (coupled_numeral hc).map id fun _ _ h ↦ congrArg (Numeral.map (sign ++ ·)) h
  · exact .expecting_then hc (.fail hc)

end Atoms

/-! ### Expressions -/

variable (hs : c.Scopes scope other)

section Expressions

include hc hs

theorem coupled_expressionsUntil (close : Kind) :
    Coupled c given (List.map (Tree.blurred c.blur)) (expressionsUntil scope close)
      (expressionsUntil other close) := by
  refine (Coupled.separatedBy hc hs.progressive hs.progressive_other .expression .expression
    (hs.nested (.expression 0))).bind fun items items' hitems ↦ ?_
  exact (Coupled.expect hc).bind fun _ _ _ ↦ .pure hitems

theorem coupled_optionalExpressionsUntil (close : Kind) :
    Coupled c given (List.map (Tree.blurred c.blur)) (optionalExpressionsUntil scope close)
      (optionalExpressionsUntil other close) :=
  (Coupled.consume hc).bind_same fun _ ↦ .ite (.pure rfl) (coupled_expressionsUntil hc hs close)

theorem coupled_listItems :
    Coupled c given (List.map (Tree.blurred c.blur)) (listItems scope) (listItems other) :=
  (Coupled.expect hc).bind fun _ _ _ ↦ coupled_optionalExpressionsUntil hc hs _

omit hc hs in
theorem coupled_draft {category : Category} (form : Form category) {parts parts' : Parts form.slots}
    (h : parts.blurred c.blur = parts'.blurred c.blur) :
    Coupled c given (Draft.blurred c.blur) (pure ⟨form, parts⟩) (pure ⟨form, parts'⟩) :=
  .pure (by rw [Draft.blurred, Draft.blurred, h])

theorem coupled_primary :
    Coupled c given (Draft.blurred c.blur) (primary scope) (primary other) := by
  refine .look_then hc (fun _ _ _ hsees ↦ hsees.kind) fun kind ↦ ?_
  refine .look_then hc (fun _ _ _ hsees ↦ hsees.next) fun next ↦ ?_
  split
  · exact (Coupled.advance hc).bind fun _ _ _ ↦ .pure rfl
  · exact (Coupled.advance hc).bind fun _ _ _ ↦ .pure rfl
  · exact (Coupled.advance hc).bind fun _ _ _ ↦ .pure rfl
  · exact (coupled_numeral hc).bind_same fun _ ↦ .pure rfl
  · exact (coupled_numeral hc).bind_same fun _ ↦ .pure rfl
  · refine (Coupled.advance_text hc fun place hplace ↦ ?_).bind fun token token' htext ↦ ?_
    · rw [show place.kind = _ from hplace.1.2]
      rfl
    · rw [htext]
      exact .pure rfl
  · exact (coupled_listItems hc hs).bind fun items items' hitems ↦
      coupled_draft _ (by rw [Tree.blurred_many, Tree.blurred_many, hitems])
  · exact (coupled_variableName hc).bind_same fun _ ↦ .pure rfl
  · exact (coupled_memberName hc).bind_same fun _ ↦ .pure rfl
  · refine (Coupled.advance_text hc fun place hplace ↦ ?_).bind fun token token' htext ↦ .ite ?_ ?_
    · rw [show place.kind = _ from hplace.1.2]
      rfl
    · refine (Coupled.advance hc).bind fun _ _ _ ↦ (coupled_identifier hc).bind_same fun name ↦ ?_
      rw [htext]
      exact .pure rfl
    · rw [htext]
      exact .pure rfl
  · split
    · refine (Coupled.advance hc).bind fun _ _ _ ↦ (Coupled.advance hc).bind fun _ _ _ ↦
        (Coupled.expect hc).bind fun _ _ _ ↦
          (coupled_listItems hc hs).bind fun items items' hitems ↦ ?_
      exact coupled_draft _ (by rw [Tree.blurred_many, Tree.blurred_many, hitems])
    · exact .failMissing hc

theorem coupled_castTo (type : ValueType) :
    Coupled c given (Draft.blurred c.blur) (castTo scope type) (castTo other type) :=
  (Coupled.advance hc).bind fun _ _ _ ↦ (Coupled.advance hc).bind fun _ _ _ ↦
    (Coupled.advance hc).bind fun _ _ _ ↦ (hs.nested _).bind fun _ _ hoperand ↦
      coupled_draft _ (by simp only [Tree.blurred, hoperand])

theorem coupled_unary (operator : UnaryOperator) :
    Coupled c given (Draft.blurred c.blur) (unary scope operator) (unary other operator) :=
  (Coupled.advance hc).bind fun _ _ _ ↦ (hs.nested _).bind fun _ _ hoperand ↦
    coupled_draft _ (by simp only [Tree.blurred, hoperand])

theorem coupled_wrapping :
    Coupled c given (Draft.blurred c.blur) (wrapping scope) (wrapping other) :=
  (Coupled.advance hc).bind fun _ _ _ ↦ (hs.nested _).bind fun _ _ hinner ↦
    (Coupled.expect hc).bind fun _ _ _ ↦
      coupled_draft _ (by simp only [Tree.blurred, hinner])

theorem coupled_operand :
    Coupled c given (Tree.blurred c.blur) (operand scope) (operand other) := by
  refine .phrase hc (.look_then hc (fun _ _ _ hsees ↦ hsees.castAt?_eq) fun type? ↦ ?_)
  cases type? with
  | some type => exact coupled_castTo hc hs type
  | none =>
    refine .look_then hc (fun _ _ _ hsees ↦ hsees.kind) fun kind ↦ ?_
    cases unaryOperator? kind with
    | some operator => exact coupled_unary hc hs operator
    | none =>
      refine .ite (coupled_wrapping hc hs) (.ite ?_ (coupled_primary hc hs))
      exact (hs.nested .loop).anywhere.bind fun _ _ hloop ↦
        coupled_draft _ (by simp only [Tree.blurred, hloop])

omit hs in
theorem coupled_target : Coupled c given id target target := by
  refine .look_then hc (fun _ _ _ hsees ↦ hsees.kind) fun kind ↦ ?_
  split
  · exact (coupled_variableName hc).map id fun _ _ h ↦ congrArg Target.variableName h
  · exact (coupled_memberName hc).map id fun _ _ h ↦ congrArg Target.memberName h
  · exact .failMissing hc

omit hs in
theorem coupled_consumeEither (first second : Kind) :
    Coupled c given id (consumeEither first second) (consumeEither first second) :=
  (Coupled.consume hc).bind_same fun _ ↦ .ite (.pure rfl) (.consume hc)

theorem coupled_continuationDraft {left left' : Phrase .expression}
    (hleft : left.blurred c.blur = left'.blurred c.blur) (continuation : Continuation) :
    Coupled c given (Draft.blurred c.blur) (continuation.draft scope left)
      (continuation.draft other left') := by
  cases continuation with
  | path =>
    exact (Coupled.advance hc).bind fun _ _ _ ↦ (coupled_identifier hc).bind_same fun name ↦
      coupled_draft _ (by simp only [Tree.blurred, hleft])
  | call =>
    exact (Coupled.advance hc).bind fun _ _ _ ↦
      (coupled_optionalExpressionsUntil hc hs _).bind fun _ _ hitems ↦
        coupled_draft _ (by simp only [Tree.blurred, Tree.blurred_many, hleft, hitems])
  | listAccess =>
    exact (Coupled.advance hc).bind fun _ _ _ ↦
      (coupled_expressionsUntil hc hs _).bind fun _ _ hitems ↦
        coupled_draft _ (by simp only [Tree.blurred, Tree.blurred_many, hleft, hitems])
  | annotationAccess =>
    exact (Coupled.advance hc).bind fun _ _ _ ↦
      (coupled_expressionsUntil hc hs _).bind fun _ _ hitems ↦
        coupled_draft _ (by simp only [Tree.blurred, Tree.blurred_many, hleft, hitems])
  | binary operator =>
    exact (Coupled.advance hc).bind fun _ _ _ ↦ (hs.nested _).bind fun _ _ hright ↦
      coupled_draft _ (by simp only [Tree.blurred, hleft, hright])
  | assignment =>
    exact (Coupled.advance hc).bind fun _ _ _ ↦ (Coupled.consume hc).bind_same fun optional ↦
      (coupled_target hc).bind_same fun target ↦
        coupled_draft _ (by simp only [Tree.blurred, hleft])
  | setPredicate =>
    exact (coupled_consumeEither hc _ _).bind_same fun all ↦
      (coupled_consumeEither hc _ _).bind_same fun negated ↦ (Coupled.expect hc).bind fun _ _ _ ↦
        (hs.nested _).bind fun _ _ hset ↦
          coupled_draft _ (by simp only [Tree.blurred, hleft, hset])
  | ternary =>
    exact (Coupled.advance hc).bind fun _ _ _ ↦ (hs.nested _).bind fun _ _ hconsequence ↦
      (Coupled.expect hc).bind fun _ _ _ ↦ (hs.nested _).bind fun _ _ halternative ↦
        coupled_draft _ (by simp only [Tree.blurred, hleft, hconsequence, halternative])

omit hs in
/-- A phrase that continues another one starts where that one does. -/
theorem coupled_continued {category : Category} {left left' : Phrase category}
    (hleft : left.blurred c.blur = left'.blurred c.blur) {body body' : Parser (Draft category)}
    (h : Coupled c given (Draft.blurred c.blur) body body') :
    Coupled c given (Option.map (Tree.blurred c.blur)) (some <$> phraseFrom left.span.start body)
      (some <$> phraseFrom left'.span.start body') :=
  (Coupled.phraseFrom hc (Tree.start_eq_of_blurred_eq hleft) h).map _
    fun _ _ hphrase ↦ congrArg some hphrase

theorem coupled_continuation (least : Nat) {left left' : Phrase .expression}
    (hleft : left.blurred c.blur = left'.blurred c.blur) :
    Coupled c given (Option.map (Tree.blurred c.blur)) (continuation scope least left)
      (continuation other least left') := by
  refine .look_then hc (fun _ _ _ hsees ↦ hsees.at?_eq) fun continuation? ↦ ?_
  cases continuation? with
  | none => exact .pure rfl
  | some continuation =>
    exact .ite (.pure rfl)
      (coupled_continued hc hleft (coupled_continuationDraft hc hs hleft continuation))

theorem coupled_expression (least : Nat) :
    Coupled c given (Tree.blurred c.blur) (expression scope least) (expression other least) := by
  refine (coupled_operand hc hs).bind fun first first' hfirst ↦ ?_
  have hrounds (left left' : Phrase .expression)
      (hleft : left.blurred c.blur = left'.blurred c.blur) :
      Coupled c Anywhere (Option.map (Tree.blurred c.blur)) (continuation scope least left)
        (continuation other least left') :=
    coupled_continuation hc hs least hleft
  exact .iterate hc (fun _ _ _ _ ↦ hs.progressive.loops (.expression least))
    (fun _ _ _ _ ↦ hs.progressive_other.loops (.expression least)) hrounds hfirst

/-! ### Loops -/

theorem coupled_boundedRange :
    Coupled c given (Tree.blurred c.blur) (boundedRange scope) (boundedRange other) :=
  .phrase hc ((Coupled.expect hc).bind fun _ _ _ ↦ (hs.nested _).bind fun _ _ hlower ↦
    (Coupled.expect hc).bind fun _ _ _ ↦ (hs.nested _).bind fun _ _ hupper ↦
      (Coupled.expect hc).bind fun _ _ _ ↦
        coupled_draft _ (by simp only [Tree.blurred, hlower, hupper]))

omit hs in
theorem coupled_parity? : Coupled c given id parity? parity? :=
  (Coupled.consume hc).bind_same fun _ ↦
    .ite (.pure rfl) ((Coupled.consume hc).bind_same fun _ ↦ .pure rfl)

theorem coupled_loopControl :
    Coupled c given (Tree.blurred c.blur) (loopControl scope) (loopControl other) :=
  .phrase hc ((coupled_parity? hc).bind_same fun parity ↦
    (Coupled.behind hc (hs.nested (.expression 0))).bind fun _ _ homitted ↦
      (Coupled.behind hc (coupled_boundedRange hc hs)).bind fun _ _ hrange ↦
        (Coupled.behind hc (coupled_boundedRange hc hs)).bind fun _ _ hstep ↦
          (Coupled.behind hc (hs.nested (.expression 0))).bind fun _ _ haction ↦
            (Coupled.expect hc).bind fun _ _ _ ↦ coupled_draft _ (by
              simp only [Tree.blurred_optional, homitted, hrange, hstep, haction]))

theorem coupled_counted :
    Coupled c given (Prod.map (Tree.blurred c.blur) id) (counted scope) (counted other) :=
  (hs.nested _).anywhere.bind fun _ _ hsource ↦ (Coupled.expect hc).bind fun _ _ _ ↦
    (coupled_variableName hc).bind_same fun name ↦ .pure (by rw [Prod.map, Prod.map, hsource])

theorem coupled_counter :
    Coupled c given (Tree.blurred c.blur) (counter scope) (counter other) := by
  refine .phrase hc ((coupled_counted hc hs).bind fun (source, name) (source', name') h ↦ ?_)
  obtain ⟨hsource, rfl⟩ := Prod.mk.inj h
  exact coupled_draft _ (by simp only [Tree.blurred, hsource])

theorem coupled_counters :
    Coupled c given (List.map (Tree.blurred c.blur)) (counters scope) (counters other) :=
  (Coupled.consume hc).bind_same fun _ ↦
    .ite (.separatedBy hc hs.progressive hs.progressive_other .counter .counter
      (coupled_counter hc hs)) (.pure rfl)

theorem coupled_loop : Coupled c given (Tree.blurred c.blur) (loop scope) (loop other) := by
  refine .phrase hc ((Coupled.expect hc).bind fun _ _ _ ↦
    (coupled_counted hc hs).bind fun (source, name) (source', name') h ↦ ?_)
  obtain ⟨hsource, rfl⟩ := Prod.mk.inj h
  refine (coupled_loopControl hc hs).bind fun _ _ hcontrol ↦
    (coupled_counters hc hs).bind fun _ _ hcounters ↦ ?_
  exact coupled_draft _ (by simp only [Tree.blurred, Tree.blurred_many, hsource, hcontrol,
    hcounters])

end Expressions

/-! ### Quantifiers -/

section Quantifiers

include hc

theorem coupled_greed (possessive : Kind) :
    Coupled c given id (greed possessive) (greed possessive) :=
  (Coupled.consume hc).bind_same fun _ ↦
    .ite (.pure rfl) ((Coupled.consume hc).bind_same fun _ ↦ .pure rfl)

theorem coupled_countFrom (low : String) :
    Coupled c given (Draft.blurred c.blur) (countFrom low) (countFrom low) := by
  refine (Coupled.consume hc).bind_same fun isRange ↦ .ite ?_ ?_
  · exact (Coupled.expect_text hc rfl).bind fun high high' htext ↦
      (coupled_greed hc _).bind_same fun _ ↦ (Coupled.consume hc).bind_same fun _ ↦
        .pure (by rw [htext])
  · refine (Coupled.consume hc).bind_same fun atLeast ↦ .ite ?_
      ((Coupled.consume hc).bind_same fun atMost ↦ ?_)
    all_goals
      exact (coupled_greed hc _).bind_same fun _ ↦ (Coupled.consume hc).bind_same fun _ ↦ .pure rfl

theorem coupled_simpleQuantifier :
    Coupled c given (Tree.blurred c.blur) simpleQuantifier simpleQuantifier := by
  refine .phrase hc ((Coupled.look hc Token.lexeme fun place other _ hsees ↦ ?_).bind
    fun first first' hfirst ↦ ?_)
  · rw [Token.lexeme, Token.lexeme, show place.here.kind = other.here.kind from hsees.kind]
    cases htext : other.here.kind.hasText with
    | false => rfl
    | true => rw [hsees.text ((congrArg Kind.hasText hsees.kind).trans htext)]
  obtain ⟨hkind, htext⟩ := Lexeme.mk.inj hfirst
  rw [← hkind] at htext ⊢
  split
  · exact (Coupled.advance hc).bind fun _ _ _ ↦ .pure rfl
  · exact (Coupled.advance hc).bind fun _ _ _ ↦ .pure rfl
  · exact (Coupled.advance hc).bind fun _ _ _ ↦ (coupled_greed hc _).bind_same fun _ ↦ .pure rfl
  · exact (Coupled.advance hc).bind fun _ _ _ ↦ (coupled_greed hc _).bind_same fun _ ↦ .pure rfl
  · rename_i hdigits
    rw [hdigits] at htext
    exact (Coupled.advance hc).bind fun _ _ _ ↦
      (show first.text = first'.text from htext) ▸ coupled_countFrom hc _
  · exact .expecting_then hc (.fail hc)

end Quantifiers

section Patterns

include hc hs

theorem coupled_quantifier :
    Coupled c given (Tree.blurred c.blur) quantifier quantifier := by
  refine .phrase hc ((Coupled.consume hc).bind_same fun bounded ↦
    (Coupled.separatedBy hc hs.progressive hs.progressive_other .simpleQuantifier .simpleQuantifier
      (coupled_simpleQuantifier hc)).bind fun _ _ halternatives ↦
        .ite ((Coupled.expect hc).bind fun _ _ _ ↦ ?_) ?_)
  all_goals
    exact coupled_draft _ (by rw [Tree.blurred_many, Tree.blurred_many, halternatives])

theorem coupled_quantifier? :
    Coupled c given (Option.map (Tree.blurred c.blur)) quantifier? quantifier? :=
  (Coupled.checkAny hc).bind_same fun _ ↦
    .ite ((coupled_quantifier hc hs).map _ fun _ _ h ↦ congrArg some h) (.pure rfl)

/-! ### Markers -/

theorem coupled_markerArguments : Coupled c given id markerArguments markerArguments := by
  refine (Coupled.consume hc).bind_same fun _ ↦ .ite ?_ (.pure rfl)
  refine (Coupled.separatedBy hc hs.progressive hs.progressive_other .argument .argument
    (coupled_signedNumeral hc)).bind fun arguments arguments' harguments ↦
      (Coupled.expect hc).bind fun _ _ _ ↦ .pure ?_
  rwa [List.map_id, List.map_id] at harguments

theorem coupled_markerOperand :
    Coupled c given (Tree.blurred c.blur) (markerOperand scope) (markerOperand other) := by
  refine .phrase hc ((Coupled.consume hc).bind_same fun isWrapped ↦ .ite ?_ ?_)
  · exact (hs.nested (.marker 0)).bind fun _ _ hinner ↦ (Coupled.expect hc).bind fun _ _ _ ↦
      coupled_draft _ (by simp only [Tree.blurred, hinner])
  · refine .check_then hc fun isCall ↦ ?_
    cases isCall with
    | false => exact .failMissing hc
    | true =>
      refine (Coupled.advance_text hc fun place hplace ↦ ?_).bind fun name name' hname ↦
        (coupled_markerArguments hc hs).bind_same fun arguments ↦ .pure (by rw [hname])
      rw [beq_iff_eq.mp hplace.2]
      rfl

theorem coupled_markerContinuation (least : Nat) {left left' : Phrase .marker}
    (hleft : left.blurred c.blur = left'.blurred c.blur) :
    Coupled c given (Option.map (Tree.blurred c.blur)) (markerContinuation scope least left)
      (markerContinuation other least left') := by
  refine .look_then hc (fun _ _ _ hsees ↦ hsees.kind) fun kind ↦ ?_
  cases Connective.ofKind? kind with
  | none => exact .pure rfl
  | some connective =>
    refine .ite (.pure rfl) (coupled_continued hc hleft ((Coupled.advance hc).bind fun _ _ _ ↦
      (hs.nested (.marker _)).bind fun _ _ hright ↦ .pure ?_))
    cases connective <;> simp only [Connective.draft, Draft.blurred, Tree.blurred, hleft, hright]

theorem coupled_marker (least : Nat) :
    Coupled c given (Tree.blurred c.blur) (marker scope least) (marker other least) := by
  refine (coupled_markerOperand hc hs).bind fun first first' hfirst ↦ ?_
  have hrounds (left left' : Phrase .marker)
      (hleft : left.blurred c.blur = left'.blurred c.blur) :
      Coupled c Anywhere (Option.map (Tree.blurred c.blur)) (markerContinuation scope least left)
        (markerContinuation other least left') :=
    coupled_markerContinuation hc hs least hleft
  exact .iterate hc (fun _ _ _ _ ↦ hs.progressive.loops (.marker least))
    (fun _ _ _ _ ↦ hs.progressive_other.loops (.marker least)) hrounds hfirst

/-! ### Edges -/

omit hs in
theorem coupled_atEdge : Coupled c given id atEdge atEdge := by
  refine .expecting_then hc (.look hc id fun place other _ hsees ↦ ?_)
  rw [hsees.kind, hsees.atEdgeEnd_eq]

omit hs in
theorem coupled_halves (head tail : Kind) (hhead : head ≠ .endOfInput) :
    Coupled c given id (halves head tail) (halves head tail) := by
  refine .expect_then hc hhead fun _ _ ↦ .expecting_then hc
    ((Coupled.look hc id fun place other hbehind hsees ↦ ?_).bind_same fun complete ↦
      .ite ((Coupled.advance hc).bind fun _ _ _ ↦ .pure rfl) (.fail hc))
  rw [hsees.touches hbehind, hsees.kind]

omit hs in
theorem coupled_edgeEnd (head tail : Kind) (hhead : head ≠ .endOfInput) :
    Coupled c given id (edgeEnd head tail) (edgeEnd head tail) := by
  refine (Coupled.check hc).bind_same fun _ ↦
    (Coupled.look hc id fun _ _ _ hsees ↦ congrArg (· == tail) hsees.next).bind_same fun _ ↦
      .ite ?_ ?_
  · exact (coupled_halves hc head tail hhead).bind_same fun _ ↦ .pure rfl
  · exact (coupled_halves hc (.symbol .minus) _ nofun).bind_same fun _ ↦ .pure rfl

theorem coupled_edgeConstraint? :
    Coupled c given (Option.map (Tree.blurred c.blur)) (edgeConstraint? scope)
      (edgeConstraint? other) :=
  (Coupled.check hc).bind_same fun _ ↦ .ite (.pure rfl)
    ((hs.nested (.expression 0)).anywhere.map _ fun _ _ h ↦ congrArg some h)

theorem coupled_edge : Coupled c given (Tree.blurred c.blur) (edge scope) (edge other) := by
  refine .phrase hc ((Coupled.oneOf hc).bind_same fun ends? ↦ ?_)
  cases ends? with
  | some ends => exact .pure rfl
  | none =>
    exact (coupled_edgeEnd hc (.symbol .less) _ nofun).bind_same fun _ ↦
      (Coupled.expect hc).bind fun _ _ _ ↦ (coupled_label? hc).bind_same fun _ ↦
        (coupled_edgeConstraint? hc hs).bind fun _ _ hconstraint ↦
          (Coupled.expect hc).bind fun _ _ _ ↦
            (coupled_edgeEnd hc (.symbol .minus) _ nofun).bind_same fun _ ↦
              coupled_draft _ (by rw [Tree.blurred_optional, Tree.blurred_optional, hconstraint])

theorem coupled_elementFrom {source source' : Phrase .node}
    (hsource : source.blurred c.blur = source'.blurred c.blur) :
    Coupled c given (Tree.blurred c.blur) (elementFrom scope source)
      (elementFrom other source') := by
  refine .phraseFrom hc (Tree.start_eq_of_blurred_eq hsource)
    ((coupled_atEdge hc).bind_same fun connected ↦ .ite ?_ ?_)
  · exact (coupled_edge hc hs).bind fun _ _ hedge ↦ (hs.nested .node).bind fun _ _ htarget ↦
      coupled_draft _ (by simp only [Tree.blurred, hsource, hedge, htarget])
  · exact coupled_draft _ (by simp only [Tree.blurred, hsource])

theorem coupled_element :
    Coupled c given (Tree.blurred c.blur) (element scope) (element other) :=
  (hs.nested .node).anywhere.bind fun _ _ hsource ↦ coupled_elementFrom hc hs hsource

/-! ### Nodes -/

/-- Blurs the spans of the contents of a node. -/
def NodeContent.blurred (blur : Nat → Nat) (content : NodeContent) : NodeContent :=
  ⟨content.constraint.map (Tree.blurred blur), content.children.map (Tree.blurred blur)⟩

theorem coupled_children? :
    Coupled c given (Option.map (Tree.blurred c.blur)) (children? scope) (children? other) :=
  (Coupled.checkAny hc).bind_same fun _ ↦
    .ite ((hs.nested .structuralConstraint).anywhere.map _ fun _ _ h ↦ congrArg some h) (.pure rfl)

theorem coupled_leadingConstraint :
    Coupled c given (Tree.blurred c.blur) (leadingConstraint scope) (leadingConstraint other) := by
  refine (hs.nested (.expression 0)).anywhere.bind fun constraint constraint' hconstraint ↦
    (Coupled.check hc).bind_same fun closed ↦ .ite (.pure hconstraint)
      ((Coupled.look hc id fun _ _ _ hsees ↦ ?_).bind_same fun isBang ↦
        (Coupled.checkAny hc).bind_same fun hasChildren ↦ ?_)
  · exact congrArg (· == _) hsees.kind
  · rw [isInteger, isInteger, Tree.form_eq_of_blurred_eq hconstraint]
    exact .ite (.pure hconstraint) (.fail hc)

theorem coupled_onlyChildren :
    Coupled c given (NodeContent.blurred c.blur) (onlyChildren scope) (onlyChildren other) :=
  (coupled_children? hc hs).bind fun _ _ hchildren ↦ (Coupled.expect hc).bind fun _ _ _ ↦
    .pure (by rw [NodeContent.blurred, NodeContent.blurred, hchildren])

theorem coupled_nodeContent :
    Coupled c given (NodeContent.blurred c.blur) (nodeContent scope) (nodeContent other) := by
  rw [nodeContent_eq_either, nodeContent_eq_either]
  refine (Coupled.consume hc).bind_same fun isEmpty ↦ .ite (.pure rfl) ?_
  refine .either hc hs.retreats.constraint (coupled_leadingConstraint hc hs)
    (fun constraint constraint' hconstraint ↦ ?_)
    (.attempt hc _ _ _ (coupled_onlyChildren hc hs)) fun _ _ hcontent ↦ .pure hcontent
  exact (coupled_children? hc hs).bind fun _ _ hchildren ↦ (Coupled.expect hc).bind fun _ _ _ ↦
    .pure (by simp only [NodeContent.blurred, Option.map_some, hconstraint, hchildren])

theorem coupled_leadingMarker :
    Coupled c given (Tree.blurred c.blur) (leadingMarker scope) (leadingMarker other) :=
  (hs.nested (.marker 0)).anywhere.bind fun _ _ hmarker ↦
    (Coupled.expect hc).bind fun _ _ _ ↦ .pure hmarker

theorem coupled_markedContent :
    Coupled c given (Prod.map (Option.map (Tree.blurred c.blur)) (NodeContent.blurred c.blur))
      (markedContent scope) (markedContent other) := by
  rw [markedContent_eq_either, markedContent_eq_either]
  refine .either hc hs.retreats.marker (coupled_leadingMarker hc hs)
    (fun marker marker' hmarker ↦ ?_)
    (coupled_nodeContent hc hs) fun content content' hcontent ↦ .pure ?_
  · exact (coupled_nodeContent hc hs).bind fun _ _ hcontent ↦
      .pure (by simp only [Prod.map_apply, Option.map_some, hmarker, hcontent])
  · rw [Prod.map_apply, Prod.map_apply, hcontent]

theorem coupled_nodeBody {quantifier quantifier' : Option (Phrase .quantifier)}
    (hquantifier : quantifier.map (Tree.blurred c.blur) = quantifier'.map (Tree.blurred c.blur)) :
    Coupled c given (Draft.blurred c.blur) (nodeBody scope quantifier)
      (nodeBody other quantifier') := by
  refine (Coupled.expect hc).bind fun _ _ _ ↦ (coupled_label? hc).bind_same fun label ↦
    (coupled_markedContent hc hs).bind fun (marker, content) (marker', content') h ↦ ?_
  obtain ⟨hmarker, hcontent⟩ := Prod.mk.inj h
  obtain ⟨hconstraint, hchildren⟩ := NodeContent.mk.inj hcontent
  exact coupled_draft _ (by
    simp only [Tree.blurred_optional, hquantifier, hmarker, hconstraint, hchildren])

theorem coupled_node : Coupled c given (Tree.blurred c.blur) (node scope) (node other) := by
  refine .phrase hc (.look_then hc (fun _ _ _ hsees ↦ hsees.dummyAt?_eq) fun dummy? ↦ ?_)
  cases dummy? with
  | some cardinality =>
    exact (Coupled.advance hc).bind fun _ _ _ ↦ (Coupled.advance hc).bind fun _ _ _ ↦
      (Coupled.advance hc).bind fun _ _ _ ↦ .pure rfl
  | none =>
    exact (coupled_quantifier? hc hs).bind fun _ _ hquantifier ↦ coupled_nodeBody hc hs hquantifier

/-! ### Node statements -/

theorem coupled_nodeStatement? :
    Coupled c given (Option.map (Tree.blurred c.blur)) (nodeStatement? scope)
      (nodeStatement? other) :=
  (Coupled.checkAny hc).bind_same fun _ ↦
    .ite ((hs.nested (.nodeStatement 0)).anywhere.map _ fun _ _ h ↦ congrArg some h) (.pure rfl)

theorem coupled_nodeStatements :
    Coupled c given (List.map (Tree.blurred c.blur)) (nodeStatements scope)
      (nodeStatements other) :=
  (hs.nested (.nodeStatement 0)).anywhere.bind fun _ _ hfirst ↦
    (Coupled.many hc hs.progressive hs.progressive_other .nodeStatement .nodeStatement
      (coupled_nodeStatement? hc hs)).bind fun _ _ hothers ↦
        .pure (by rw [List.map_cons, List.map_cons, hfirst, hothers])

theorem coupled_groupQuestion : Coupled c given id groupQuestion groupQuestion :=
  (coupled_quantifier hc hs).bind fun _ _ _ ↦
    .look hc id fun _ _ _ hsees ↦ congrArg (· == _) hsees.kind

theorem coupled_groupBody {quantifier quantifier' : Option (Phrase .quantifier)}
    (hquantifier : quantifier.map (Tree.blurred c.blur) = quantifier'.map (Tree.blurred c.blur)) :
    Coupled c given (Draft.blurred c.blur) (groupBody scope quantifier)
      (groupBody other quantifier') :=
  (Coupled.expect hc).bind fun _ _ _ ↦ (coupled_nodeStatements hc hs).bind fun _ _ hstatements ↦
    (Coupled.expect hc).bind fun _ _ _ ↦ coupled_draft _ (by
      simp only [Tree.blurred_optional, Tree.blurred_many, hquantifier, hstatements])

theorem coupled_grouping :
    Coupled c given (Draft.blurred c.blur) (grouping scope) (grouping other) :=
  (coupled_quantifier? hc hs).bind fun _ _ hquantifier ↦ coupled_groupBody hc hs hquantifier

theorem coupled_sequence :
    Coupled c given (Draft.blurred c.blur) (sequence scope) (sequence other) := by
  refine (Coupled.many hc hs.progressive hs.progressive_other .arrangement .arrangement
    ((Coupled.oneOf hc).weaken _ fun _ _ h ↦ congrArg (Option.map id) h)).bind
      fun arrangements arrangements' harrangements ↦
        (coupled_nodeStatements hc hs).bind fun _ _ hstatements ↦ ?_
  rw [List.map_id, List.map_id] at harrangements
  rw [harrangements]
  exact coupled_draft _ (by rw [Tree.blurred_many, Tree.blurred_many, hstatements])

theorem coupled_nodesBehind {node node' : Phrase .node}
    (hnode : node.blurred c.blur = node'.blurred c.blur) :
    Coupled c given (Draft.blurred c.blur) (nodesBehind scope node) (nodesBehind other node') := by
  refine (coupled_atEdge hc).bind_same fun _ ↦
    .ite ((Coupled.pure rfl).bind_same fun _ ↦ ?_) ((Coupled.check hc).bind_same fun _ ↦ ?_)
  all_goals
    refine .ite ?_ (coupled_draft _ (by simp only [Tree.blurred, hnode]))
    exact (coupled_elementFrom hc hs hnode).bind fun _ _ hfirst ↦
      (Coupled.many hc hs.progressive hs.progressive_other (.behind .element) (.behind .element)
        (.behind hc (coupled_element hc hs))).bind fun _ _ hothers ↦
          coupled_draft _ (by
            simp only [Tree.blurred_many, List.map_cons, hfirst, hothers])

theorem coupled_nodes : Coupled c given (Draft.blurred c.blur) (nodes scope) (nodes other) :=
  (hs.nested .node).anywhere.bind fun _ _ hnode ↦ coupled_nodesBehind hc hs hnode

omit hc hs in
/-- The question whether a group follows, and what depends on its answer. -/
theorem atGrouping_bind (scope : Scope) :
    atGrouping >>= groupedOrNot scope = (do
      let isBrace ← check (.symbol .leftBrace)
      if isBrace then
        grouping scope
      else
        let isQuantifier ← checkAny quantifierStart
        if isQuantifier then lookahead groupQuestion >>= groupedOrNot scope else nodes scope) := by
  rw [atGrouping, bind_assoc]
  refine bind_congr fun isBrace ↦ ?_
  cases isBrace with
  | true => rfl
  | false =>
    rw [if_neg Bool.false_ne_true, if_neg Bool.false_ne_true, bind_assoc]
    refine bind_congr fun isQuantifier ↦ ?_
    cases isQuantifier <;> rfl

theorem coupled_groupedOrNot (isGrouping : Bool) :
    Coupled c given (Draft.blurred c.blur) (groupedOrNot scope isGrouping)
      (groupedOrNot other isGrouping) :=
  .ite (coupled_grouping hc hs) (coupled_nodes hc hs)

theorem coupled_nodeStatementOperand :
    Coupled c given (Tree.blurred c.blur) (nodeStatementOperand scope)
      (nodeStatementOperand other) := by
  refine .phrase hc ((Coupled.checkAny hc).bind_same fun _ ↦ .ite (coupled_sequence hc hs) ?_)
  change Coupled c Anywhere _ (atGrouping >>= groupedOrNot scope)
    (atGrouping >>= groupedOrNot other)
  rw [atGrouping_bind, atGrouping_bind]
  refine (Coupled.check hc).bind_same fun _ ↦ .ite (coupled_grouping hc hs)
    (.checkAny_then hc fun isQuantifier ↦ ?_)
  cases isQuantifier with
  | false => exact coupled_nodes hc hs
  | true =>
    exact .lookahead_then hc (coupled_groupQuestion hc hs) (coupled_groupedOrNot hc hs)
      fun session copy hsessions hplace ↦ hs.retreats.grouping session copy hsessions hplace.2

theorem coupled_nodeStatementContinuation (least : Nat) {left left' : Phrase .nodeStatement}
    (hleft : left.blurred c.blur = left'.blurred c.blur) :
    Coupled c given (Option.map (Tree.blurred c.blur)) (nodeStatementContinuation scope least left)
      (nodeStatementContinuation other least left') :=
  .ite (.pure rfl) ((Coupled.checkAny hc).bind_same fun _ ↦ .ite
    (coupled_continued hc hleft ((Coupled.advance hc).bind fun _ _ _ ↦
      (hs.nested (.nodeStatement _)).bind fun _ _ hright ↦
        coupled_draft _ (by simp only [Tree.blurred, hleft, hright]))) (.pure rfl))

theorem coupled_nodeStatement (least : Nat) :
    Coupled c given (Tree.blurred c.blur) (nodeStatement scope least)
      (nodeStatement other least) := by
  refine (coupled_nodeStatementOperand hc hs).bind fun first first' hfirst ↦ ?_
  have hrounds (left left' : Phrase .nodeStatement)
      (hleft : left.blurred c.blur = left'.blurred c.blur) :
      Coupled c Anywhere (Option.map (Tree.blurred c.blur))
        (nodeStatementContinuation scope least left)
        (nodeStatementContinuation other least left') :=
    coupled_nodeStatementContinuation hc hs least hleft
  exact .iterate hc (fun _ _ _ _ ↦ hs.progressive.loops (.nodeStatement least))
    (fun _ _ _ _ ↦ hs.progressive_other.loops (.nodeStatement least)) hrounds hfirst

omit hs in
theorem coupled_hitsLimit? :
    Coupled c given (Option.map (Tree.blurred c.blur)) hitsLimit? hitsLimit? := by
  refine (Coupled.check hc).bind_same fun _ ↦ .ite ?_ (.check_then hc fun isCount ↦ ?_)
  · exact (Coupled.phrase hc ((Coupled.advance hc).bind fun _ _ _ ↦ .pure rfl)).map _
      fun _ _ h ↦ congrArg some h
  · refine .look_then hc (fun _ _ _ hsees ↦ congrArg (· == _) hsees.next) fun isLimit ↦ ?_
    cases isCount with
    | false => exact .pure rfl
    | true =>
      refine .ite ((Coupled.phrase hc ((Coupled.advance_text hc fun place hplace ↦ ?_).bind
        fun limit limit' hlimit ↦ (Coupled.advance hc).bind fun _ _ _ ↦
          .pure (by rw [hlimit]))).map _ fun _ _ h ↦ congrArg some h) (.pure rfl)
      rw [beq_iff_eq.mp hplace.1.2]
      rfl

theorem coupled_structuralConstraint :
    Coupled c given (Tree.blurred c.blur) (structuralConstraint scope)
      (structuralConstraint other) := by
  refine .phrase hc ((coupled_hitsLimit? hc).bind fun _ _ hlimit ↦
    (Coupled.many hc hs.progressive hs.progressive_other .matchFlag .matchFlag
      ((Coupled.oneOf hc).weaken _ fun _ _ h ↦ congrArg (Option.map id) h)).bind
        fun flags flags' hflags ↦ (coupled_nodeStatements hc hs).bind fun _ _ hstatements ↦ ?_)
  rw [List.map_id, List.map_id] at hflags
  rw [hflags]
  exact coupled_draft _ (by
    simp only [Tree.blurred_optional, Tree.blurred_many, hlimit, hstatements])

/-! ### Queries -/

theorem coupled_clause (word connective : Keyword) :
    Coupled c given (Option.map (Tree.blurred c.blur)) (scope.clause word connective)
      (other.clause word connective) :=
  .behind hc ((Coupled.expect hc).bind fun _ _ _ ↦ hs.nested (.expression 0))

theorem coupled_binding : Coupled c given (Tree.blurred c.blur) binding binding := by
  refine .phrase hc ((Coupled.oneOf hc).bind_same fun modifier ↦
    (Coupled.separatedBy hc hs.progressive hs.progressive_other .memberName .memberName
      (coupled_memberName hc)).bind fun members members' hmembers ↦
        (Coupled.expect hc).bind fun _ _ _ ↦ (coupled_identifier hc).bind_same fun source ↦ ?_)
  rw [List.map_id, List.map_id] at hmembers
  rw [hmembers]
  exact .pure rfl

theorem coupled_bindings :
    Coupled c given (List.map (Tree.blurred c.blur)) bindings bindings :=
  (Coupled.consume hc).bind_same fun _ ↦
    .ite (.separatedBy hc hs.progressive hs.progressive_other .binding .binding
      (coupled_binding hc hs)) (.pure rfl)

theorem coupled_payload :
    Coupled c given (Tree.blurred c.blur) (payload scope) (payload other) := by
  refine .phrase hc ((Coupled.check hc).bind_same fun _ ↦
    (Coupled.look hc id fun _ _ _ hsees ↦ congrArg (· == _) hsees.next).bind_same fun _ ↦
      .ite ((Coupled.advance hc).bind fun _ _ _ ↦ .pure rfl) ?_)
  exact (coupled_bindings hc hs).bind fun _ _ hbindings ↦
    (coupled_clause hc hs _ _).bind fun _ _ hfilter ↦ (Coupled.expect hc).bind fun _ _ _ ↦
      (hs.nested .selection).bind fun _ _ hselection ↦ coupled_draft _ (by
        simp only [Tree.blurred, Tree.blurred_optional, Tree.blurred_many, hbindings, hfilter,
          hselection])

theorem coupled_having? :
    Coupled c given (Option.map (Tree.blurred c.blur)) (having? scope) (having? other) :=
  .behind hc (hs.nested (.expression 0))

theorem coupled_lane : Coupled c given (Tree.blurred c.blur) (lane scope) (lane other) := by
  refine .phrase hc ((Coupled.expect hc).bind fun _ _ _ ↦
    (coupled_identifier hc).bind_same fun name ↦
      (Coupled.behind hc (coupled_memberName hc)).bind fun label label' hlabel ↦
        (hs.nested .structuralConstraint).bind fun _ _ hconstraint ↦ ?_)
  rw [Option.map_id, id, id] at hlabel
  rw [hlabel]
  exact coupled_draft _ (by simp only [Tree.blurred, hconstraint])

theorem coupled_plainSelection :
    Coupled c given (Draft.blurred c.blur) (plainSelection scope) (plainSelection other) :=
  (hs.nested (.expression 0)).anywhere.bind fun _ _ hconstraint ↦
    (Coupled.expect hc).bind fun _ _ _ ↦
      coupled_draft _ (by simp only [Tree.blurred, hconstraint])

theorem coupled_structuralSelection :
    Coupled c given (Draft.blurred c.blur) (structuralSelection scope)
      (structuralSelection other) := by
  refine (Coupled.check hc).bind_same fun isLane ↦ .ite ?_ ?_
  · exact (Coupled.separatedBy hc hs.progressive hs.progressive_other .lane .lane
      (coupled_lane hc hs)).bind fun _ _ hlanes ↦ (coupled_having? hc hs).bind fun _ _ hhaving ↦
        coupled_draft _ (by
          simp only [Tree.blurred, Tree.blurred_optional, Tree.blurred_many, hlanes, hhaving])
  · exact (hs.nested .structuralConstraint).anywhere.bind fun _ _ hconstraint ↦
      (coupled_having? hc hs).bind fun _ _ hhaving ↦
        coupled_draft _ (by
          simp only [Tree.blurred, Tree.blurred_optional, hconstraint, hhaving])

theorem coupled_selection :
    Coupled c given (Tree.blurred c.blur) (selection scope) (selection other) := by
  rw [selection_eq_either, selection_eq_either]
  exact .phrase hc (.either hc hs.retreats.selection (coupled_plainSelection hc hs)
    (fun _ _ hdraft ↦ .pure hdraft)
    (.attempt hc _ _ _ (coupled_structuralSelection hc hs)) fun _ _ hdraft ↦ .pure hdraft)

/-! ### Groups and results -/

theorem coupled_groupExpression :
    Coupled c given (Tree.blurred c.blur) (groupExpression scope) (groupExpression other) := by
  refine .phrase hc ((Coupled.expect hc).bind fun _ _ _ ↦ (hs.nested (.expression 0)).bind
    fun _ _ hselector ↦ (coupled_clause hc hs _ _).bind fun _ _ hfilter ↦
      (Coupled.expect hc).bind fun _ _ _ ↦ (Coupled.expect_text hc rfl).bind
        fun label label' hlabel ↦ (Coupled.behind hc (hs.nested (.expression 0))).bind
          fun _ _ hreplacement ↦ ?_)
  rw [hlabel]
  exact coupled_draft _ (by
    simp only [Tree.blurred, Tree.blurred_optional, hselector, hfilter, hreplacement])

theorem coupled_group : Coupled c given (Tree.blurred c.blur) (group scope) (group other) :=
  .phrase hc ((Coupled.expect hc).bind fun _ _ _ ↦
    (Coupled.separatedBy hc hs.progressive hs.progressive_other .groupExpression .groupExpression
      (coupled_groupExpression hc hs)).bind fun _ _ hexpressions ↦
        coupled_draft _ (by rw [Tree.blurred_many, Tree.blurred_many, hexpressions]))

omit hs in
theorem coupled_resultLimit? :
    Coupled c given (Option.map (Tree.blurred c.blur)) resultLimit? resultLimit? := by
  refine (Coupled.check hc).bind_same fun _ ↦ .ite
    ((Coupled.phrase hc ?_).map _ fun _ _ h ↦ congrArg some h) (.pure rfl)
  exact (Coupled.advance hc).bind fun _ _ _ ↦ (Coupled.consume hc).bind_same fun _ ↦
    (coupled_integer hc).bind_same fun _ ↦ .pure rfl

theorem coupled_orderExpression :
    Coupled c given (Tree.blurred c.blur) (orderExpression scope) (orderExpression other) := by
  refine .phrase hc ((hs.nested (.expression 0)).anywhere.bind fun _ _ hexpression ↦
    (Coupled.oneOf hc).bind_same fun direction? ↦ ?_)
  cases direction? with
  | some direction => exact coupled_draft _ (by simp only [Tree.blurred, hexpression])
  | none => exact .failMissing hc

theorem coupled_orders :
    Coupled c given (List.map (Tree.blurred c.blur)) (orders scope) (orders other) :=
  (Coupled.consume hc).bind_same fun _ ↦ .ite ((Coupled.expect hc).bind fun _ _ _ ↦
    .separatedBy hc hs.progressive hs.progressive_other .orderExpression .orderExpression
      (coupled_orderExpression hc hs)) (.pure rfl)

theorem coupled_result :
    Coupled c given (Tree.blurred c.blur) (result scope) (result other) := by
  refine (Coupled.look hc c.blur fun _ _ _ hsees ↦ hsees.start).bind fun start start' hstart ↦
    (coupled_resultLimit? hc).bind fun _ _ hlimit ↦ (coupled_orders hc hs).bind fun _ _ horder ↦
      (Coupled.look hc c.blur fun _ _ _ hsees ↦ hsees.stop).bind fun stop stop' hstop ↦ .pure ?_
  simp only [Tree.blurred, Tree.blurred_optional, Tree.blurred_many, Span.blurred, hstart,
    hc.blur_max hstop hstart, hlimit, horder]

end Patterns

end Grammar

/-! ### Rules and entries -/

variable {c : Coupling} {scope other : Scope}

theorem Rule.coupled_body (hc : c.Lawful) (hs : c.Scopes scope other) (rule : Rule) :
    Coupled c Anywhere (Tree.blurred c.blur) (rule.body scope) (rule.body other) := by
  cases rule with
  | expression least => exact coupled_expression hc hs least
  | loop => exact coupled_loop hc hs
  | structuralConstraint => exact coupled_structuralConstraint hc hs
  | nodeStatement least => exact coupled_nodeStatement hc hs least
  | node => exact coupled_node hc hs
  | marker least => exact coupled_marker hc hs least
  | payload => exact coupled_payload hc hs
  | selection => exact coupled_selection hc hs

/-- Rules that are coupled where there is no room for any other are coupled however much room there
is. -/
theorem Coupling.scopes_inside (hc : c.Lawful) {limit limit' more : Nat}
    (hretreats : ∀ room, c.Retreats (Rule.inside limit room))
    (hcutoff : ∀ rule : Rule, Coupled c Anywhere (Tree.blurred c.blur) (rule.run limit 0)
      (rule.run limit' more)) (room : Nat) :
    c.Scopes (Rule.inside limit room) (Rule.inside limit' (room + more)) := by
  have hprogressive (room : Nat) := Rule.progressive_inside limit room
  have hprogressive' (room : Nat) := Rule.progressive_inside limit' room
  induction room with
  | zero =>
    rw [Nat.zero_add]
    exact ⟨hcutoff, hprogressive 0, hprogressive' more, hretreats 0⟩
  | succ room ih =>
    refine ⟨fun rule ↦ ?_, hprogressive _, hprogressive' _, hretreats _⟩
    rw [Nat.add_right_comm]
    exact .enter hc (rule.coupled_body hc ih)

/-- Where a parse that has met its limit is no longer followed, all rules are coupled where there is
no room for any other. -/
theorem Coupling.cutoff_of_spent (hc : c.Lawful)
    (hspent : ∀ overflow, c.spent overflow ↔ overflow ≠ none)
    (limit limit' more : Nat) (rule : Rule) :
    Coupled c Anywhere (Tree.blurred c.blur) (rule.run limit 0) (rule.run limit' more) where
  sticky session h := by
    obtain ⟨failure, hfailure⟩ := Option.ne_none_iff_exists'.mp ((hspent _).mp h)
    refine (hspent _).mpr ?_
    simp only [Rule.run, exceed, Coupling.final, hfailure]
    exact Option.some_ne_none _
  forward session hpast := hc.beyond_fail session _ hpast
  follows session _ _ _ := by
    refine .inl (.inl ((hspent _).mpr ?_))
    cases hoverflow : session.overflow <;>
      simp only [Rule.run, exceed, Coupling.final, hoverflow] <;> exact Option.some_ne_none _

theorem Entry.coupled_body (hc : c.Lawful) (hs : c.Scopes scope other) (entry : Entry) :
    Coupled c Anywhere (Tree.blurred c.blur) (entry.body scope) (entry.body other) := by
  cases entry with
  | expression => exact hs.nested (.expression 0)
  | nodeStatement => exact hs.nested (.nodeStatement 0)
  | structuralConstraint => exact hs.nested .structuralConstraint
  | selection => exact hs.nested .selection
  | payload => exact hs.nested .payload
  | group => exact coupled_group hc hs
  | result => exact coupled_result hc hs

theorem Entry.coupled_complete (hc : c.Lawful) (hs : c.Scopes scope other) (entry : Entry) :
    Coupled c Anywhere (Tree.blurred c.blur) (entry.complete scope) (entry.complete other) :=
  (entry.coupled_body hc hs).bind fun _ _ hphrase ↦ (Coupled.expect hc).bind fun _ _ _ ↦
    .pure hphrase

end CorpusQuery
