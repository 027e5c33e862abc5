import CorpusQuery.Proofs.Coupling.Combinator

/-!
Parsers that do return. `Parser.Returns` says of a parser that from every session at a place it
returns a value at a place as promised, and `Parser.Fails` that from there it always fails. Where a
part is known to return, what is built around it returns as well: a node statement that the input
ends behind can be read as a structural constraint, a structural constraint as a selection if no
plain one can be read, and a selection behind its keyword as a payload.
-/

set_option autoImplicit false
set_option relaxedAutoImplicit false

namespace CorpusQuery

open CorpusQuery.Grammar

/-- The last token is at hand, and it is the end of the input. -/
structure Place.AtLast (place : Place) : Prop where
  ahead_eq : place.ahead = []
  kind_eq : place.kind = .endOfInput

namespace Parser

variable {α β γ : Type}

/-- From every session at the place the parser returns a value at a place as promised. -/
def Returns (place : Place) (parser : Parser α) (promised : α → Place → Prop) : Prop :=
  ∀ session : Session, session.cursor.toPlace = place →
    ∃ value after, parser session = .ok value after ∧ promised value after.cursor.toPlace

/-- From every session at the place the parser fails. -/
def Fails (place : Place) (parser : Parser α) : Prop :=
  ∀ session : Session, session.cursor.toPlace = place →
    ∃ failure after, parser session = .error failure after

namespace Returns

variable {place : Place} {promised : α → Place → Prop} {kind : Kind} {kinds : KindSet}

theorem weaken {parser : Parser α} {promised' : α → Place → Prop}
    (h : Returns place parser promised)
    (hpromised : ∀ value after, promised value after → promised' value after) :
    Returns place parser promised' := by
  intro session hplace
  obtain ⟨value, after, hrun, hafter⟩ := h session hplace
  exact ⟨value, after, hrun, hpromised _ _ hafter⟩

theorem pure {value : α} (h : promised value place) : Returns place (pure value) promised :=
  fun session hplace ↦ ⟨value, session, rfl, hplace ▸ h⟩

theorem bind {parser : Parser α} {next : α → Parser β} {promised' : β → Place → Prop}
    (h : Returns place parser promised)
    (hnext : ∀ value after, promised value after → Returns after (next value) promised') :
    Returns place (parser >>= next) promised' := by
  intro session hplace
  obtain ⟨value, after, hrun, hafter⟩ := h session hplace
  rw [bind_of_ok hrun]
  exact hnext value _ hafter after rfl

/-- A parser that returns a known value on the spot. -/
theorem bind_here {parser : Parser α} {next : α → Parser β} {promised' : β → Place → Prop}
    {value : α} (h : Returns place parser fun found after ↦ found = value ∧ after = place)
    (hnext : Returns place (next value) promised') : Returns place (parser >>= next) promised' :=
  h.bind fun _ _ ⟨hfound, hafter⟩ ↦ hfound ▸ hafter ▸ hnext

/-! ### Tokens -/

theorem look {see : Place → α} :
    Returns place (look see) fun found after ↦ found = see place ∧ after = place :=
  fun session hplace ↦ ⟨_, session, rfl, by rw [hplace], hplace⟩

theorem check : Returns place (check kind) fun found after ↦
    found = (place.kind == kind) ∧ after = place :=
  fun session hplace ↦ ⟨_, session.tested (.single kind), rfl, by rw [← hplace], hplace⟩

theorem checkAny : Returns place (checkAny kinds) fun found after ↦
    found = kinds.contains place.kind ∧ after = place :=
  fun session hplace ↦ ⟨_, session.tested kinds, rfl, by rw [← hplace], hplace⟩

theorem consume_none (h : place.kind ≠ kind) : Returns place (consume kind) fun found after ↦
    found = false ∧ after = place :=
  fun _ hplace ↦
    ⟨_, _, consume_of_ne fun hkind ↦ h (hplace ▸ hkind), rfl, hplace⟩

theorem oneOf_none {table : List (Kind × α)}
    (h : (KindSet.ofKeys table).contains place.kind = false) :
    Returns place (oneOf table) fun found after ↦ found = none ∧ after = place := by
  intro session hplace
  refine ⟨_, _, oneOf_of_lookup_none ?_, rfl, hplace⟩
  rw [KindSet.contains_ofKeys] at h
  rw [show session.cursor.kind = place.kind from congrArg Place.kind hplace]
  exact Option.not_isSome_iff_eq_none.mp (Bool.eq_false_iff.mp h)

theorem behind_none {body : Parser α} (h : place.kind ≠ kind) :
    Returns place (behind kind body) fun found after ↦ found = none ∧ after = place :=
  (consume_none h).bind_here (.pure ⟨rfl, rfl⟩)

theorem expect {next? : Option Place} (hkind : place.kind = kind) (hnext : place.next? = next?) :
    Returns place (expect kind) fun _ after ↦ after = next?.getD place := by
  intro session hplace
  refine ⟨_, _, expect_of_kind (by rw [← hkind, ← hplace]), ?_⟩
  have hsame : (session.tested (.single kind)).cursor.next? = next? :=
    (congrArg Place.next? hplace).trans hnext
  rw [Session.passed, Cursor.advance, hsame]
  cases next? with
  | none => exact hplace
  | some next => rfl

/-- The last token stays at hand. -/
theorem expect_last (h : place.AtLast) :
    Returns place (Parser.expect .endOfInput) fun _ after ↦ after = place := by
  have hnext : place.next? = none := by rw [Place.next?, h.ahead_eq]
  exact expect h.kind_eq hnext

/-! ### Phrases, repetition and choice -/

theorem phrase {category : Category} {body : Parser (Draft category)}
    {promised : Phrase category → Place → Prop}
    (h : Returns place body fun draft after ↦
      ∀ span, promised (.phrase draft.form span draft.parts) after) :
    Returns place (phrase body) promised :=
  look.bind_here (h.bind fun _ _ hdraft ↦ look.bind fun _ _ ⟨_, hafter⟩ ↦ .pure (hafter ▸ hdraft _))

theorem many_none {item : Parser (Option α)}
    (h : Returns place item fun found after ↦ found = none ∧ after = place) :
    Returns place (many item) fun items after ↦ items = [] ∧ after = place := by
  have hloop : Returns place (iterate (fun items ↦ do return (← item).map (· :: items)) [])
      fun items after ↦ items = [] ∧ after = place := by
    intro session hplace
    have hstep : Returns place (do return (← item).map (· :: [])) fun found after ↦
        found = none ∧ after = place := h.bind_here (.pure ⟨rfl, rfl⟩)
    obtain ⟨found, after, hrun, rfl, hafter⟩ := hstep session hplace
    exact ⟨[], after, iterate_of_none hrun, rfl, hafter⟩
  exact hloop.bind_here (.pure ⟨rfl, rfl⟩)

variable {title : String} {depth : Nat} {first : Parser α} {next : α → Parser γ}
  {second : Parser β} {rest : β → Parser γ} {promised' : γ → Place → Prop}

theorem attempt {parser : Parser α} (h : Returns place parser promised) :
    Returns place (attempt title depth parser) promised := by
  intro session hplace
  obtain ⟨value, after, hrun, hafter⟩ := h session hplace
  exact ⟨value, after, attempt_of_ok hrun _ _, hafter⟩

theorem either_first (h : Returns place first promised)
    (hnext : ∀ value after, promised value after → Returns after (next value) promised') :
    Returns place (either title depth first next second rest) promised' := by
  intro session hplace
  obtain ⟨value, after, hrun, hafter⟩ := h session hplace
  rw [either_of_ok hrun]
  exact hnext value _ hafter after rfl

theorem either_second {promised : β → Place → Prop} (hfails : Fails place first)
    (h : Returns place second promised)
    (hrest : ∀ value after, promised value after → Returns after (rest value) promised') :
    Returns place (either title depth first next second rest) promised' := by
  intro session hplace
  obtain ⟨failure, after, hrun⟩ := hfails session hplace
  obtain ⟨value, last, hagain, hlast⟩ := h (rewound title depth session after) hplace
  rw [either_of_error_ok hrun hagain]
  exact hrest value _ hlast last rfl

theorem enter {body : Parser α} (h : Returns place body promised) :
    Returns place (enter title depth body) promised := by
  intro session hplace
  obtain ⟨value, after, hrun, hafter⟩ := h (entered title depth session) hplace
  exact ⟨value, _, enter_of_ok hrun, hafter⟩

end Returns

/-! ### Phrases up to the end -/

/-- From the place on the parser reads a phrase, but for its spans, up to the last token. -/
def Reads {category : Category} (place : Place) (parser : Parser (Phrase category))
    (phrase : Phrase category) : Prop :=
  Returns place parser fun read after ↦ read.same phrase = true ∧ after.AtLast

end Parser

namespace Phrase

/-! ### Phrases around a single part -/

/-- A structural constraint without a limit and flags that is a single statement. -/
def soleStatement (statement : Phrase .nodeStatement) : Phrase .structuralConstraint :=
  .phrase (.structuralConstraint []) statement.span (.optional none (.many [statement] .nil))

/-- A selection by a structural constraint, with no constraint on the matches. -/
def soleStructure (constraint : Phrase .structuralConstraint) : Phrase .selection :=
  .phrase .structuralSelection constraint.span (.one constraint (.optional none .nil))

/-- A selection by a plain constraint. -/
def soleConstraint (constraint : Phrase .expression) : Phrase .selection :=
  .phrase .plainSelection constraint.span (.one constraint .nil)

/-- A query without bindings and a filter. -/
def soleSelection (selection : Phrase .selection) : Phrase .payload :=
  .phrase .query selection.span (.many [] (.optional none (.one selection .nil)))

end Phrase

namespace Grammar

open CorpusQuery.Parser

variable {scope : Scope} {place : Place}

theorem returns_hitsLimit?_none (hfirst : place.kind ≠ .keyword .first)
    (hhits : place.kind = .pureDigits → place.peekKind 1 ≠ .keyword .hits) :
    Returns place hitsLimit? fun limit after ↦ limit = none ∧ after = place := by
  refine Returns.check.bind_here ?_
  rw [beq_eq_false_iff_ne.mpr hfirst, if_neg Bool.false_ne_true]
  refine Returns.check.bind_here (Returns.look.bind_here ?_)
  rw [if_neg]
  · exact .pure ⟨rfl, rfl⟩
  · rw [Bool.and_eq_true, beq_iff_eq, beq_iff_eq]
    exact fun hboth ↦ hhits hboth.1 hboth.2

/-- A node statement up to the end is a structural constraint if it does not begin like the limit or
the flags of one. -/
theorem reads_soleStatement {statement : Phrase .nodeStatement}
    (h : Reads place (scope.nodeStatement 0) statement) (hfirst : place.kind ≠ .keyword .first)
    (hhits : place.kind = .pureDigits → place.peekKind 1 ≠ .keyword .hits)
    (hflags : (KindSet.ofKeys matchFlags).contains place.kind = false) :
    Reads place (structuralConstraint scope) (.soleStatement statement) := by
  refine .phrase ((returns_hitsLimit?_none hfirst hhits).bind_here
    ((Returns.many_none (.oneOf_none hflags)).bind_here ?_))
  have hstatements : Returns place (nodeStatements scope) fun statements after ↦
      (∃ read : Phrase .nodeStatement, statements = [read] ∧ read.same statement = true) ∧
        after.AtLast := by
    refine h.bind fun read after hread ↦ ?_
    have hend : nodeStatementStart.contains after.kind = false := by
      rw [hread.2.kind_eq]
      rfl
    refine (Returns.many_none (Returns.checkAny.bind_here ?_)).bind_here
      (.pure ⟨⟨read, rfl, hread.1⟩, hread.2⟩)
    rw [hend, if_neg Bool.false_ne_true]
    exact .pure ⟨rfl, rfl⟩
  refine hstatements.bind fun statements after h ↦ .pure fun span ↦ ⟨?_, h.2⟩
  obtain ⟨⟨read, rfl, hread⟩, -⟩ := h
  rw [Tree.same_iff] at hread ⊢
  simp only [Phrase.soleStatement, Tree.bare, Tree.optional, Tree.many, List.foldr_cons,
    List.foldr_nil, hread]

/-- A structural constraint up to the end is a selection where no plain one can be read. -/
theorem reads_soleStructure {constraint : Phrase .structuralConstraint}
    (h : Reads place scope.structuralConstraint constraint)
    (hplain : Fails place (plainSelection scope)) (hlane : place.kind ≠ .keyword .lane) :
    Reads place (selection scope) (.soleStructure constraint) := by
  rw [selection_eq_either]
  refine .phrase (.either_second hplain (.attempt (Returns.check.bind_here ?_))
    fun draft _ hdraft ↦ .pure hdraft)
  rw [beq_eq_false_iff_ne.mpr hlane, if_neg Bool.false_ne_true]
  refine h.bind fun read after hread ↦ ?_
  refine (Returns.behind_none (hread.2.kind_eq ▸ nofun)).bind_here (.pure fun span ↦ ⟨?_, hread.2⟩)
  have hsame := hread.1
  rw [Tree.same_iff] at hsame ⊢
  simp only [Phrase.soleStructure, Tree.bare, Tree.optional, hsame]

/-- An expression up to the end is a selection. -/
theorem reads_soleConstraint {constraint : Phrase .expression}
    (h : Reads place (scope.expression 0) constraint) :
    Reads place (selection scope) (.soleConstraint constraint) := by
  rw [selection_eq_either]
  refine .phrase (.either_first (h.bind fun read after hread ↦
    (Returns.expect_last hread.2).bind fun _ last hlast ↦ .pure fun span ↦ ⟨?_, hlast ▸ hread.2⟩)
    fun draft _ hdraft ↦ .pure hdraft)
  have hsame := hread.1
  rw [Tree.same_iff] at hsame ⊢
  simp only [Phrase.soleConstraint, Tree.bare, hsame]

/-- A selection up to the end behind its keyword is a payload. -/
theorem reads_soleSelection {next : Place} {selection : Phrase .selection}
    (hkind : place.kind = .keyword .find) (hnext : place.next? = some next)
    (h : Reads next scope.selection selection) :
    Reads place (payload scope) (.soleSelection selection) := by
  refine .phrase (Returns.check.bind_here (Returns.look.bind_here ?_))
  rw [hkind, show (Kind.keyword .find == .keyword .all) = false from rfl, Bool.false_and,
    if_neg Bool.false_ne_true]
  have hbindings : Returns place bindings fun found after ↦ found = [] ∧ after = place :=
    (Returns.consume_none (hkind ▸ nofun)).bind_here (.pure ⟨rfl, rfl⟩)
  refine hbindings.bind_here ((Returns.behind_none (hkind ▸ nofun)).bind_here
    ((Returns.expect hkind hnext).bind fun _ after hafter ↦ ?_))
  obtain rfl : after = next := hafter
  refine h.bind fun read last hread ↦ .pure fun span ↦ ⟨?_, hread.2⟩
  have hsame := hread.1
  rw [Tree.same_iff] at hsame ⊢
  simp only [Phrase.soleSelection, Tree.bare, Tree.optional, Tree.many, List.foldr_nil, hsame]

end Grammar

end CorpusQuery
