import CorpusQuery.Proofs.Choice.Returns
import CorpusQuery.Proofs.Nesting.Cutoff
import CorpusQuery.Proofs.Vocabulary.KindSet

/-!
The kinds with which the rules begin. A rule refuses every token of another kind on the spot: it
fails at it and leaves the cursor where it is, however it would have gone on (`Parser.Refuses`). And
there is no kind too many, for with each of them a token list begins that the rule reads to its end.
So a rule may be asked for only where one of its kinds is at hand, and nothing that could have been
read is passed over (`Beginning.kinds_exact`).
-/

set_option autoImplicit false
set_option relaxedAutoImplicit false

namespace CorpusQuery

open CorpusQuery.Parser CorpusQuery.Grammar

/-! ### Refusals -/

namespace Parser

variable {α β : Type} {place : Place} {parser : Parser α} {kind : Kind}

/-- From every session at the place the parser fails at the token at hand and leaves the cursor
where it is. -/
def Refuses (place : Place) (parser : Parser α) : Prop :=
  ∀ session : Session, session.cursor.toPlace = place →
    ∃ failure after, parser session = .error failure after ∧ failure.token = place.here ∧
      after.cursor.toPlace = place

namespace Refuses

theorem bind (h : Refuses place parser) (next : α → Parser β) :
    Refuses place (parser >>= next) := by
  intro session hplace
  obtain ⟨failure, after, hrun, htoken, hafter⟩ := h session hplace
  exact ⟨failure, after, bind_of_error hrun next, htoken, hafter⟩

/-- What stays at the place with a known value leaves it to the rest to refuse. -/
theorem behind_here {next : α → Parser β} {value : α}
    (h : Returns place parser fun found after ↦ found = value ∧ after = place)
    (hnext : Refuses place (next value)) : Refuses place (parser >>= next) := by
  intro session hplace
  obtain ⟨found, after, hrun, rfl, hafter⟩ := h session hplace
  rw [bind_of_ok hrun]
  exact hnext after hafter

theorem look {view : Place → α} {next : α → Parser β} (h : Refuses place (next (view place))) :
    Refuses place (Parser.look view >>= next) :=
  behind_here .look h

theorem fail (cause : Cause) : Refuses place (Parser.fail cause : Parser α) :=
  fun session hplace ↦ ⟨_, session, rfl, congrArg Place.here hplace, hplace⟩

theorem failMissing (what : String) (kinds : KindSet) :
    Refuses place (Parser.failMissing what kinds : Parser α) :=
  fun session hplace ↦
    ⟨_, session.tested kinds, rfl, congrArg Place.here hplace, hplace⟩

theorem expect (h : place.kind ≠ kind) : Refuses place (Parser.expect kind) :=
  fun session hplace ↦ ⟨_, session.tested (.single kind),
    expect_of_ne fun hkind ↦ h ((congrArg Place.kind hplace).symm.trans hkind),
    congrArg Place.here hplace, hplace⟩

theorem exceed (limit : Nat) : Refuses place (Parser.exceed limit : Parser α) :=
  fun _ hplace ↦ ⟨_, _, rfl, congrArg Place.here hplace, hplace⟩

theorem phrase {category : Category} {body : Parser (Draft category)} (h : Refuses place body) :
    Refuses place (Parser.phrase body) :=
  look (h.bind _)

theorem enter {title : String} {depth : Nat} (h : Refuses place parser) :
    Refuses place (Parser.enter title depth parser) := by
  intro session hplace
  obtain ⟨failure, after, hrun, htoken, hafter⟩ := h (entered title depth session) hplace
  exact ⟨failure, _, enter_of_error hrun, htoken, hafter⟩

end Refuses

end Parser

/-! ### Kinds outside of a set -/

theorem KindSet.ne_of_not_mem {kinds : KindSet} {kind member : Kind} (h : kind ∉ kinds)
    (hmember : member ∈ kinds) : kind ≠ member := by
  rintro rfl
  exact h hmember

namespace Grammar

variable {place : Place} {scope : Scope}

/-! ### The rules refuse -/

theorem refuses_simpleQuantifier (h : place.kind ∉ quantifierStart) :
    Refuses place simpleQuantifier := by
  refine .phrase (.look ?_)
  have hkind : place.here.kind ∉ quantifierStart := h
  generalize place.here.kind = kind at hkind
  split
  case h_6 => exact .behind_here (fun session hplace ↦ ⟨(), _, rfl, rfl, hplace⟩) (.fail _)
  all_goals exact absurd (by decide) hkind

theorem refuses_quantifier (h : place.kind ∉ quantifierStart) : Refuses place quantifier := by
  have hless : place.kind ≠ .symbol .less := KindSet.ne_of_not_mem h (by decide)
  have halternatives : Refuses place (separatedBy (.symbol .pipe) simpleQuantifier) :=
    (refuses_simpleQuantifier h).bind _
  exact .phrase (.behind_here (.consume_none hless) (halternatives.bind _))

theorem refuses_primary (h : place.kind ∉ expressionStart) : Refuses place (primary scope) := by
  refine .look (.look ?_)
  have htype : valueTypes.lookup place.kind = none := by
    rw [← Option.not_isSome_iff_eq_none, ← KindSet.contains_ofKeys]
    exact fun hmem ↦ h (by rw [expressionStart, KindSet.mem_union]; exact .inr hmem)
  generalize place.kind = kind at h htype
  split
  case h_11 =>
    rw [htype]
    exact .failMissing _ _
  all_goals exact absurd (by decide) h

theorem refuses_operand (h : place.kind ∉ expressionStart) : Refuses place (operand scope) := by
  have hparen : place.kind ≠ .symbol .leftParen := KindSet.ne_of_not_mem h (by decide)
  have hforeach : place.kind ≠ .keyword .foreach := KindSet.ne_of_not_mem h (by decide)
  have hcast : castAt? place = none := if_neg fun hopen ↦ hparen hopen.1
  have hunary : unaryOperator? place.kind = none := by
    generalize place.kind = kind at h
    unfold unaryOperator?
    split
    case h_5 => rfl
    all_goals exact absurd (by decide) h
  refine .phrase (.look ?_)
  rw [hcast]
  refine .look ?_
  rw [hunary]
  dsimp only
  rw [if_neg hparen, if_neg hforeach]
  exact refuses_primary h

theorem refuses_expression (h : place.kind ∉ expressionStart) (least : Nat) :
    Refuses place (expression scope least) := (refuses_operand h).bind _

theorem refuses_marker (h : place.kind ∉ markerStart) (least : Nat) :
    Refuses place (marker scope least) := by
  have hparen : place.kind ≠ .symbol .leftParen := KindSet.ne_of_not_mem h (by decide)
  have hname : place.kind ≠ .identifier := KindSet.ne_of_not_mem h (by decide)
  refine .bind (.phrase (.behind_here (.consume_none hparen) (.behind_here .check ?_))) _
  rw [beq_eq_false_iff_ne.mpr hname]
  exact .failMissing _ _

theorem refuses_node (h : place.kind ∉ nodeStart) : Refuses place (node scope) := by
  have hbracket : place.kind ≠ .symbol .leftBracket := KindSet.ne_of_not_mem h (by decide)
  have hquantifier : place.kind ∉ quantifierStart :=
    fun hmem ↦ h (KindSet.mem_union.mpr (.inr hmem))
  have hdummy : dummyAt? place = none := if_neg fun hopen ↦ hbracket hopen.1
  have hnone : Returns place quantifier? fun found after ↦ found = none ∧ after = place := by
    refine Returns.checkAny.bind_here ?_
    rw [Bool.eq_false_iff.mpr hquantifier]
    exact .pure ⟨rfl, rfl⟩
  refine .phrase (.look ?_)
  rw [hdummy]
  exact .behind_here hnone ((Refuses.expect hbracket).bind _)

/-- Without a brace and without a quantifier there is no group. -/
theorem returns_atGrouping (hbrace : place.kind ≠ .symbol .leftBrace)
    (hquantifier : place.kind ∉ quantifierStart) :
    Returns place atGrouping fun found after ↦ found = false ∧ after = place := by
  refine Returns.check.bind_here ?_
  rw [beq_eq_false_iff_ne.mpr hbrace]
  refine Returns.checkAny.bind_here ?_
  rw [Bool.eq_false_iff.mpr hquantifier]
  exact .pure ⟨rfl, rfl⟩

theorem refuses_nodeStatement (h : place.kind ∉ nodeStatementStart)
    (hnode : Refuses place scope.node) (least : Nat) :
    Refuses place (nodeStatement scope least) := by
  simp only [nodeStatementStart, nodeStart, KindSet.mem_union, KindSet.mem_single, not_or] at h
  obtain ⟨⟨⟨-, hquantifier⟩, harrangement⟩, hbrace⟩ := h
  refine .bind (.phrase (.behind_here .checkAny ?_)) _
  rw [Bool.eq_false_iff.mpr harrangement]
  exact .behind_here (returns_atGrouping hbrace hquantifier) (hnode.bind _)

theorem refuses_structuralConstraint (h : place.kind ∉ structuralStart)
    (hstatement : Refuses place (scope.nodeStatement 0)) :
    Refuses place (structuralConstraint scope) := by
  have hfirst : place.kind ≠ .keyword .first := KindSet.ne_of_not_mem h (by decide)
  have hdigits : place.kind ≠ .pureDigits := KindSet.ne_of_not_mem h (by decide)
  simp only [structuralStart, KindSet.mem_union, not_or] at h
  obtain ⟨⟨-, hflags⟩, -⟩ := h
  have hstatements : Refuses place (nodeStatements scope) := hstatement.bind _
  exact .phrase (.behind_here (returns_hitsLimit?_none hfirst fun hkind ↦ absurd hkind hdigits)
    (.behind_here (.many_none (.oneOf_none (Bool.eq_false_iff.mpr hflags))) (hstatements.bind _)))

end Grammar

namespace Rule

variable {place : Place} (limit room : Nat)

/-- A rule refuses where its body refuses, and everywhere if there is no room for it. -/
theorem refuses_run {rule : Rule}
    (h : ∀ room, Refuses place (rule.body (inside limit room))) :
    Refuses place (rule.run limit room) := by
  cases room with
  | zero => exact .exceed limit
  | succ room => exact .enter (h room)

theorem refuses_node (h : place.kind ∉ nodeStart) : Refuses place (node.run limit room) :=
  refuses_run limit room fun _ ↦ Grammar.refuses_node h

theorem refuses_nodeStatement (h : place.kind ∉ nodeStatementStart) (least : Nat) :
    Refuses place ((nodeStatement least).run limit room) := by
  have hnode : place.kind ∉ nodeStart := by
    simp only [nodeStatementStart, KindSet.mem_union, not_or] at h
    exact h.1.1
  refine refuses_run limit room fun room ↦ ?_
  have hnested : Refuses place (inside limit room).node := refuses_node limit room hnode
  exact Grammar.refuses_nodeStatement h hnested least

theorem refuses_structuralConstraint (h : place.kind ∉ structuralStart) :
    Refuses place (structuralConstraint.run limit room) := by
  have hstatement : place.kind ∉ nodeStatementStart := by
    simp only [structuralStart, KindSet.mem_union, not_or] at h
    exact h.1.1
  refine refuses_run limit room fun room ↦ ?_
  have hnested : Refuses place ((inside limit room).nodeStatement 0) :=
    refuses_nodeStatement limit room hstatement 0
  exact Grammar.refuses_structuralConstraint h hnested

end Rule

/-! ### Beginnings -/

/-- What a set of kinds is given for. -/
inductive Beginning where
  | expression
  | marker
  | quantifier
  | node
  | nodeStatement
  | structuralConstraint
  deriving DecidableEq, Repr

namespace Beginning

/-- The kinds with which it begins. -/
def kinds : Beginning → KindSet
  | .expression => expressionStart
  | .marker => markerStart
  | .quantifier => quantifierStart
  | .node => nodeStart
  | .nodeStatement => nodeStatementStart
  | .structuralConstraint => structuralStart

abbrev category : Beginning → Category
  | .expression => .expression
  | .marker => .marker
  | .quantifier => .quantifier
  | .node => .node
  | .nodeStatement => .nodeStatement
  | .structuralConstraint => .structuralConstraint

/-- Reads it when so many more rules may be entered below the limit. -/
def reader (limit room : Nat) : (beginning : Beginning) → Parser (Phrase beginning.category)
  | .expression => (Rule.expression 0).run limit room
  | .marker => (Rule.marker 0).run limit room
  | .quantifier => Grammar.quantifier
  | .node => Rule.node.run limit room
  | .nodeStatement => (Rule.nodeStatement 0).run limit room
  | .structuralConstraint => Rule.structuralConstraint.run limit room

theorem refuses_reader {beginning : Beginning} {place : Place} (limit room : Nat)
    (h : place.kind ∉ beginning.kinds) : Refuses place (beginning.reader limit room) := by
  cases beginning with
  | expression => exact Rule.refuses_run limit room fun _ ↦ refuses_expression h 0
  | marker => exact Rule.refuses_run limit room fun _ ↦ refuses_marker h 0
  | quantifier => exact refuses_quantifier h
  | node => exact Rule.refuses_node limit room h
  | nodeStatement => exact Rule.refuses_nodeStatement limit room h 0
  | structuralConstraint => exact Rule.refuses_structuralConstraint limit room h

/-! ### Where each kind begins something -/

/-- What can stand behind a first token of a kind. -/
def behind : Beginning → Kind → List Kind
  | .quantifier, .symbol .less => [.symbol .star, .symbol .greater]
  | .quantifier, _ => []
  | .marker, .symbol .leftParen => [.identifier, .symbol .rightParen]
  | .marker, _ => []
  | .expression, .symbol .leftBrace => [.symbol .rightBrace]
  | .expression, .symbol .leftParen => [.keyword .null, .symbol .rightParen]
  | .expression, .keyword .foreach => [.identifier, .keyword .asKw, .variableName, .keyword .endKw]
  | .expression, kind =>
    if (unaryOperator? kind).isSome then [.keyword .null]
    else if (valueTypes.lookup kind).isSome then
      [.symbol .leftBracket, .symbol .rightBracket, .symbol .leftBrace, .symbol .rightBrace]
    else []
  | _, .symbol .leftBracket => [.symbol .rightBracket]
  | _, .symbol .leftBrace =>
    [.symbol .leftBracket, .symbol .rightBracket, .symbol .rightBrace]
  | _, .symbol .less =>
    [.symbol .star, .symbol .greater, .symbol .leftBracket, .symbol .rightBracket]
  | _, _ => [.symbol .leftBracket, .symbol .rightBracket]

/-- Tokens of some kinds, each with a blank behind it. -/
def spread (start : Nat) : List Kind → List Token
  | [] => []
  | kind :: rest => ⟨kind, kind.text, ⟨start, start + 1⟩⟩ :: spread (start + 2) rest

/-- A token list that begins with a kind. -/
def sample (beginning : Beginning) (kind : Kind) : List Token :=
  spread 0 (kind :: beginning.behind kind)

/-- Whether the sample for a kind is read to its end with room for five rules. -/
def readsSample (beginning : Beginning) (kind : Kind) : Bool :=
  match beginning.reader 5 5 (.ofTokens (beginning.sample kind)) with
  | .ok _ after => after.cursor.atEnd && after.overflow.isNone
  | .error _ _ => false

theorem readsSample_of_mem (beginning : Beginning) :
    ∀ kind ∈ beginning.kinds.toList, beginning.readsSample kind = true := by
  cases beginning with
  | expression => decide +kernel
  | marker => decide +kernel
  | quantifier => decide +kernel
  | node => decide +kernel
  | nodeStatement => decide +kernel
  | structuralConstraint => decide +kernel

/-- A reader that has room enough reads the same with more room under a higher limit. -/
theorem refines_reader (beginning : Beginning) (limit more room : Nat) :
    Refines (beginning.reader limit room) (beginning.reader (limit + more) (room + more)) := by
  cases beginning with
  | expression => exact Rule.refines_run limit more room _
  | marker => exact Rule.refines_run limit more room _
  | quantifier => exact fun _ _ ↦ rfl
  | node => exact Rule.refines_run limit more room _
  | nodeStatement => exact Rule.refines_run limit more room _
  | structuralConstraint => exact Rule.refines_run limit more room _

/-- With each of its kinds something begins that is read to its end and within the limit. -/
theorem exists_reading {beginning : Beginning} {kind : Kind} (h : kind ∈ beginning.kinds) :
    ∃ tokens, tokens.head?.map Token.kind = some kind ∧ ∀ more, ∃ phrase after,
      beginning.reader (5 + more) (5 + more) (.ofTokens tokens) = .ok phrase after ∧
        after.cursor.atEnd = true ∧ after.overflow = none := by
  have hreads := beginning.readsSample_of_mem kind (KindSet.mem_toList.mpr h)
  refine ⟨beginning.sample kind, rfl, fun more ↦ ?_⟩
  unfold readsSample at hreads
  cases hrun : beginning.reader 5 5 (.ofTokens (beginning.sample kind)) with
  | error failure after =>
    rw [hrun] at hreads
    cases hreads
  | ok phrase after =>
    simp only [hrun, Bool.and_eq_true, Option.isNone_iff_eq_none] at hreads
    have hsame := beginning.refines_reader 5 more 5 (.ofTokens (beginning.sample kind))
      (by rw [leave_of_ok hrun]; exact hreads.2)
    exact ⟨phrase, after, hsame.trans hrun, hreads⟩

/-! ### Gates -/

/-- Reads it if one of its kinds is at hand. -/
def gate (beginning : Beginning) (limit room : Nat) :
    Parser (Option (Phrase beginning.category)) := do
  let found ← checkAny beginning.kinds
  if found then some <$> beginning.reader limit room else pure none

/-- Where a gate lets nothing through, there is nothing to read. -/
theorem refuses_of_gate {beginning : Beginning} {limit room : Nat} {session after : Session}
    (h : beginning.gate limit room session = .ok none after) :
    Refuses session.cursor.toPlace (beginning.reader limit room) := by
  apply refuses_reader
  intro hmem
  have hfound : checkAny beginning.kinds session = .ok true (session.tested beginning.kinds) :=
    congrArg (fun found ↦ EStateM.Result.ok found _) hmem
  rw [gate, bind_of_ok hfound, if_pos rfl, map_eq_pure_bind] at h
  obtain ⟨phrase, between, -, hnone⟩ := bind_eq_ok h
  cases hnone

/-- The sets of kinds with which the rules begin are exact. At a token of another kind the rule
fails, at that token and without a move, whatever the room below the limit; with each of the kinds
something begins that the rule reads to its end and within the limit; and the gates of the grammar,
which ask for the kinds first, pass over nothing that could have been read. -/
theorem kinds_exact :
    (∀ (beginning : Beginning) (limit room : Nat) (place : Place), place.kind ∉ beginning.kinds →
        Refuses place (beginning.reader limit room)) ∧
      (∀ (beginning : Beginning) (kind : Kind), kind ∈ beginning.kinds →
        ∃ tokens, tokens.head?.map Token.kind = some kind ∧ ∀ more, ∃ phrase after,
          beginning.reader (5 + more) (5 + more) (.ofTokens tokens) = .ok phrase after ∧
            after.cursor.atEnd = true ∧ after.overflow = none) ∧
      (∀ (beginning : Beginning) (limit room : Nat) (session after : Session),
        beginning.gate limit room session = .ok none after →
          Refuses session.cursor.toPlace (beginning.reader limit room)) ∧
      ∀ limit room, Grammar.quantifier? = Beginning.quantifier.gate limit room ∧
        children? (Rule.inside limit room) = Beginning.structuralConstraint.gate limit room ∧
        nodeStatements (Rule.inside limit room) =
          (do
            let first ← Beginning.nodeStatement.reader limit room
            let others ← many (Beginning.nodeStatement.gate limit room)
            pure (first :: others)) := by
  refine ⟨fun _ limit room _ h ↦ refuses_reader limit room h, fun _ _ h ↦ exists_reading h,
    fun _ _ _ _ _ h ↦ refuses_of_gate h, fun limit room ↦ ?_⟩
  exact ⟨rfl, rfl, rfl⟩

end Beginning

end CorpusQuery
