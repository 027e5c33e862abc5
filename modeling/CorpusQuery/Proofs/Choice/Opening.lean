import CorpusQuery.Proofs.Choice.Halt

/-!
How node statements begin. A node statement that can be read passes an opening bracket, and before
the first one it passes nothing but quantifiers, braces and arrangements; a structural constraint
may have its limit and its flags before these (`opens_run_structuralConstraint`). So where an
expression halts a structural constraint goes on.
-/

set_option autoImplicit false
set_option relaxedAutoImplicit false

namespace CorpusQuery

open CorpusQuery.Parser

namespace Place

variable {start place : Place} {base : Nat} {kinds : KindSet}

/-- From an index on only tokens of the given kinds have been passed. -/
structure Leading (start : Place) (kinds : KindSet) (base : Nat) (place : Place) : Prop where
  begins : start.Begins place
  base_le : base ≤ place.position
  contains : ∀ index, base ≤ index → index < place.position →
    kinds.contains (start.peek index).kind = true

/-- From an index on an opening bracket has been passed, and before it only tokens of the given
kinds. -/
structure Opened (start : Place) (kinds : KindSet) (base : Nat) (place : Place) : Prop where
  begins : start.Begins place
  first : ∃ first, base ≤ first ∧ first < place.position ∧
    (start.peek first).kind = .symbol .leftBracket ∧
      ∀ index, base ≤ index → index < first → kinds.contains (start.peek index).kind = true

theorem Leading.advance (cursor : Cursor) (h : Leading start kinds base cursor.toPlace)
    (hkind : kinds.contains cursor.kind = true) :
    Leading start kinds base cursor.advance.toPlace := by
  refine ⟨h.begins.advance, Nat.le_trans h.base_le (Cursor.position_le_advance cursor),
    fun index hle hlt ↦ ?_⟩
  by_cases hindex : index < cursor.position
  · exact h.contains index hle hindex
  · by_cases hahead : cursor.ahead = []
    · rw [Cursor.position_advance_of_nil hahead] at hlt
      exact absurd hlt hindex
    · rw [Cursor.position_advance_of_ne_nil hahead] at hlt
      obtain rfl : index = cursor.position := by omega
      rwa [← h.begins.here_eq]

theorem Leading.opened (cursor : Cursor) (h : Leading start kinds base cursor.toPlace)
    (hclosed : cursor.Closed) (hkind : cursor.kind = .symbol .leftBracket) :
    Opened start kinds base cursor.advance.toPlace := by
  refine ⟨h.begins.advance, cursor.position, h.base_le, ?_, ?_, h.contains⟩
  · exact Cursor.position_lt_advance hclosed (hkind ▸ nofun)
  · rw [← h.begins.here_eq]
    exact hkind

theorem Opened.advance (cursor : Cursor) (h : Opened start kinds base cursor.toPlace) :
    Opened start kinds base cursor.advance.toPlace := by
  obtain ⟨first, hle, hlt, hfirst⟩ := h.first
  exact ⟨h.begins.advance, first, hle, Nat.lt_of_lt_of_le hlt (Cursor.position_le_advance cursor),
    hfirst⟩

end Place

/-- What passing a token keeps, every rule keeps. -/
theorem Rule.keeps_run {total : Nat} {given : Place → Prop}
    (hadvance : ∀ cursor : Cursor, given cursor.toPlace → given cursor.advance.toPlace)
    (limit room : Nat) (rule : Rule) :
    Ensures total Untraced given (rule.run limit room) fun _ ↦ given := by
  induction room generalizing rule with
  | zero => exact fun _ hfit _ ↦ ⟨hfit.closed, hfit.total_eq, trivial⟩
  | succ room ih =>
    exact .enter (fun _ _ _ ↦ trivial) (fun _ _ _ _ ↦ trivial)
      ((rule.alike_inside limit room).ensures (fun _ _ _ _ _ ↦ trivial) hadvance ih)

open CorpusQuery.Place

namespace Grammar

variable {start : Place} {total base : Nat} {kinds : KindSet} {scope : Scope}

/-! ### Quantifiers -/

section Quantifiers

variable (hkinds : ∀ kind ∈ statementOpening, kind ∈ kinds)

include hkinds

/-- A token that may stand before the first bracket may be passed. -/
theorem leads_consume {kind : Kind} (hkind : kind ∈ statementOpening) :
    Ensures total Untraced (Leading start kinds base) (consume kind)
      fun _ ↦ Leading start kinds base :=
  .consume_to (fun cursor _ heq h ↦ h.advance cursor (heq ▸ hkinds _ hkind)) fun _ _ h ↦ h

theorem leads_expect {kind : Kind} (hkind : kind ∈ statementOpening) :
    Ensures total Untraced (Leading start kinds base) (expect kind)
      fun _ ↦ Leading start kinds base :=
  .expect_to fun cursor _ heq h ↦ h.advance cursor (heq ▸ hkinds _ hkind)

theorem leads_greed {possessive : Kind} (hkind : possessive ∈ statementOpening) :
    Ensures total Untraced (Leading start kinds base) (greed possessive)
      fun _ ↦ Leading start kinds base :=
  (leads_consume hkinds (by decide)).bind fun _ ↦ .ite (fun _ ↦ .pure fun _ h ↦ h) fun _ ↦
    (leads_consume hkinds hkind).bind fun _ ↦ .pure fun _ h ↦ h

theorem leads_countFrom (low : String) :
    Ensures total Untraced (Leading start kinds base) (countFrom low)
      fun _ ↦ Leading start kinds base := by
  refine (leads_consume hkinds (by decide)).bind fun _ ↦ .ite (fun _ ↦ ?_) fun _ ↦ ?_
  · exact (leads_expect hkinds (by decide)).bind fun _ ↦ (leads_greed hkinds (by decide)).bind
      fun _ ↦ (leads_consume hkinds (by decide)).bind fun _ ↦ .pure fun _ h ↦ h
  · refine (leads_consume hkinds (by decide)).bind fun _ ↦ .ite (fun _ ↦ .pure_bind ?_) fun _ ↦
      (leads_consume hkinds (by decide)).bind fun _ ↦ ?_
    all_goals
      exact (leads_greed hkinds (by decide)).bind fun _ ↦
        (leads_consume hkinds (by decide)).bind fun _ ↦ .pure fun _ h ↦ h

theorem leads_simpleQuantifier :
    Ensures total Untraced (Leading start kinds base) simpleQuantifier
      fun _ ↦ Leading start kinds base := by
  refine .phrase_to ((Ensures.look _).bind fun first ↦ ?_)
  have hadvance (hkind : first.kind ∈ statementOpening) :
      Ensures total Untraced
        (fun place ↦ Leading start kinds base place ∧ place.here = first) advance
        fun _ ↦ Leading start kinds base :=
    .advance_to fun cursor _ h ↦
      h.1.advance cursor (by
        have hhere := hkinds _ hkind
        rwa [← h.2] at hhere)
  split <;> rename_i hkind
  · exact (hadvance (hkind ▸ by decide)).bind fun _ ↦ .pure fun _ h ↦ h
  · exact (hadvance (hkind ▸ by decide)).bind fun _ ↦ .pure fun _ h ↦ h
  · exact (hadvance (hkind ▸ by decide)).bind fun _ ↦ (leads_greed hkinds (by decide)).bind
      fun _ ↦ .pure fun _ h ↦ h
  · exact (hadvance (hkind ▸ by decide)).bind fun _ ↦ (leads_greed hkinds (by decide)).bind
      fun _ ↦ .pure fun _ h ↦ h
  · exact (hadvance (hkind ▸ by decide)).bind fun _ ↦ leads_countFrom hkinds _
  · exact (Ensures.expecting _).bind fun _ ↦ .fail _

theorem leads_quantifier :
    Ensures total Untraced (Leading start kinds base) quantifier
      fun _ ↦ Leading start kinds base :=
  .phrase_to ((leads_consume hkinds (by decide)).bind fun _ ↦
    (Ensures.separatedBy_keeps (leads_simpleQuantifier hkinds)
      (leads_consume hkinds (by decide))).bind fun _ ↦
        .ite (fun _ ↦ (leads_expect hkinds (by decide)).bind fun _ ↦ .pure fun _ h ↦ h)
          fun _ ↦ .pure fun _ h ↦ h)

theorem leads_quantifier? :
    Ensures total Untraced (Leading start kinds base) quantifier?
      fun _ ↦ Leading start kinds base := by
  refine ((Ensures.checkAny _).weaken (fun _ h ↦ h) fun _ _ h ↦ h.1).bind fun _ ↦
    .ite (fun _ ↦ .map ?_) fun _ ↦ .pure fun _ h ↦ h
  exact leads_quantifier hkinds

end Quantifiers

theorem leads_oneOf {α : Type} {table : List (Kind × α)}
    (htable : ∀ kind ∈ KindSet.ofKeys table, kind ∈ kinds) :
    Ensures total Untraced (Leading start kinds base) (oneOf table)
      fun _ ↦ Leading start kinds base := by
  have hconsume : Ensures total Untraced (Leading start kinds base)
      (consumeAny (.ofKeys table)) fun _ ↦ Leading start kinds base :=
    .consumeAny_to (fun cursor _ hkind h ↦ h.advance cursor (htable _ hkind)) fun _ _ h ↦ h
  refine hconsume.bind fun token? ↦ ?_
  cases token? <;> exact .pure fun _ h ↦ h

/-! ### Nodes and their statements -/

/-- Once a bracket has been passed, that stays so. -/
theorem opened_alike
    (hscope : ∀ rule, Ensures total Untraced (Opened start kinds base) (scope.nested rule)
      fun _ ↦ Opened start kinds base)
    {α : Type} {parser : Parser α} (h : Alike scope scope parser parser) :
    Ensures total Untraced (Opened start kinds base) parser fun _ ↦ Opened start kinds base :=
  h.ensures (fun _ _ _ _ _ ↦ trivial) Opened.advance hscope

/-- The rules of a scope keep an opening bracket behind them, and those that read node statements
pass one. -/
structure Opens (start : Place) (total : Nat) (kinds : KindSet) (base : Nat) (scope : Scope) :
    Prop where
  covers : ∀ kind ∈ statementOpening, kind ∈ kinds
  keeps : ∀ rule, Ensures total Untraced (Opened start kinds base) (scope.nested rule)
    fun _ ↦ Opened start kinds base
  node : Ensures total Untraced (Leading start kinds base) scope.node
    fun _ ↦ Opened start kinds base
  nodeStatement : ∀ least, Ensures total Untraced (Leading start kinds base)
    (scope.nodeStatement least) fun _ ↦ Opened start kinds base

section Statements

variable (hs : Opens start total kinds base scope)

include hs

theorem opens_node :
    Ensures total Untraced (Leading start kinds base) (node scope)
      fun _ ↦ Opened start kinds base := by
  refine .phrase_to ((Ensures.look _).bind fun dummy? ↦ ?_)
  have hkeep : Ensures total Untraced (Opened start kinds base) advance
      fun _ ↦ Opened start kinds base :=
    .advance_to fun cursor _ h ↦ h.advance cursor
  cases dummy? with
  | some cardinality =>
    refine (Ensures.advance_to fun cursor hclosed h ↦ ?_).bind fun _ ↦ hkeep.bind fun _ ↦
      hkeep.bind fun _ ↦ .pure fun _ h ↦ h
    exact h.1.opened cursor hclosed (kind_of_dummyAt? h.2)
  | none =>
    refine ((leads_quantifier? hs.covers).when fun _ h ↦ h.1).bind fun _ ↦
      (Ensures.expect_to fun cursor hclosed hkind h ↦ h.opened cursor hclosed hkind).bind fun _ ↦ ?_
    exact (opened_alike hs.keeps alike_label?).bind fun _ ↦
      (opened_alike hs.keeps alike_markedContent).bind fun _ ↦ .pure fun _ h ↦ h

theorem opens_nodes :
    Ensures total Untraced (Leading start kinds base) (nodes scope)
      fun _ ↦ Opened start kinds base := by
  refine hs.node.bind fun node ↦ opened_alike hs.keeps (.bind alike_atEdge fun _ ↦
    .ite (.bind (.pure _) fun _ ↦ ?_) (.bind (.elementary (.check _)) fun _ ↦ ?_))
  all_goals
    refine .ite ?_ (.pure _)
    exact .bind (alike_elementFrom node) fun _ ↦ .bind (.many (.behind .element) (.behind _
      (.bind (.nested .node) fun source ↦ alike_elementFrom source))) fun _ ↦ .pure _

theorem opens_nodeStatements :
    Ensures total Untraced (Leading start kinds base) (nodeStatements scope)
      fun _ ↦ Opened start kinds base := by
  refine (hs.nodeStatement 0).bind fun _ ↦ opened_alike hs.keeps
    (.bind (.many .nodeStatement ?_) fun _ ↦ .pure _)
  exact .bind (.elementary (.checkAny _)) fun _ ↦
    .ite ((Alike.nested (.nodeStatement 0)).map _) (.pure _)

theorem opens_grouping :
    Ensures total Untraced (Leading start kinds base) (grouping scope)
      fun _ ↦ Opened start kinds base :=
  (leads_quantifier? hs.covers).bind fun _ ↦ (leads_expect hs.covers (by decide)).bind fun _ ↦
    (opens_nodeStatements hs).bind fun _ ↦
      opened_alike hs.keeps (.bind (.elementary (.expect _)) fun _ ↦ .pure _)

theorem opens_sequence :
    Ensures total Untraced (Leading start kinds base) (sequence scope)
      fun _ ↦ Opened start kinds base := by
  refine (Ensures.many_keeps (leads_oneOf fun kind hkind ↦ hs.covers kind ?_)).bind fun _ ↦
    (opens_nodeStatements hs).bind fun _ ↦ .pure fun _ h ↦ h
  rw [KindSet.mem_iff] at hkind ⊢
  rw [statementOpening, KindSet.contains_union, hkind, Bool.or_true]

theorem leads_atGrouping :
    Ensures total Untraced (Leading start kinds base) atGrouping
      fun _ ↦ Leading start kinds base := by
  refine ((Ensures.check _).weaken (fun _ h ↦ h) fun _ _ h ↦ h.1).bind fun _ ↦
    .ite (fun _ ↦ .pure fun _ h ↦ h) fun _ ↦
      ((Ensures.checkAny _).weaken (fun _ h ↦ h) fun _ _ h ↦ h.1).bind fun _ ↦
        .ite (fun _ ↦ ?_) fun _ ↦ .pure fun _ h ↦ h
  exact .lookahead ((leads_quantifier hs.covers).bind fun _ ↦ .look _)

theorem opens_nodeStatementOperand :
    Ensures total Untraced (Leading start kinds base) (nodeStatementOperand scope)
      fun _ ↦ Opened start kinds base :=
  .phrase_to (((Ensures.checkAny _).weaken (fun _ h ↦ h) fun _ _ h ↦ h.1).bind fun _ ↦
    .ite (fun _ ↦ opens_sequence hs) fun _ ↦ (leads_atGrouping hs).bind fun _ ↦
      .ite (fun _ ↦ opens_grouping hs) fun _ ↦ opens_nodes hs)

theorem opens_nodeStatement (least : Nat) :
    Ensures total Untraced (Leading start kinds base) (nodeStatement scope least)
      fun _ ↦ Opened start kinds base :=
  (opens_nodeStatementOperand hs).bind fun first ↦ opened_alike hs.keeps
    (.iterate (.nodeStatement least) (alike_nodeStatementContinuation least) first)

/-! ### Structural constraints -/

variable (hopening : ∀ kind ∈ opening, kind ∈ kinds)

include hopening

omit hs in
theorem leads_hitsLimit? :
    Ensures total Untraced (Leading start kinds base) hitsLimit?
      fun _ ↦ Leading start kinds base := by
  refine (Ensures.check _).bind fun isFirst ↦ .ite (fun hfirst ↦ .map (.phrase_to ?_)) fun _ ↦ ?_
  · refine (Ensures.advance_to fun cursor _ h ↦ h.1.advance cursor ?_).bind fun _ ↦
      .pure fun _ h ↦ h
    rw [beq_iff_eq.mp (h.2.trans hfirst)]
    exact hopening _ (by decide)
  · refine (Ensures.check _).bind fun isCount ↦ (Ensures.look _).bind fun isLimit ↦
      .ite (fun hboth ↦ .map (.phrase_to ?_)) fun _ ↦ .pure fun _ h ↦ h.1.1.1
    obtain ⟨hcount, hlimit⟩ := Bool.and_eq_true_iff.mp hboth
    have hdigits : Ensures total Untraced
        (fun place ↦ ((Leading start kinds base place ∧ (place.kind == .keyword .first) = isFirst) ∧
          (place.kind == .pureDigits) = isCount) ∧
            (place.peekKind 1 == .keyword .hits) = isLimit) advance
        fun _ place ↦ Leading start kinds base place ∧ place.kind = .keyword .hits := by
      refine .advance_to fun cursor _ h ↦ ⟨h.1.1.1.advance cursor ?_, ?_⟩
      · rw [beq_iff_eq.mp (h.1.2.trans hcount)]
        exact hopening _ (by decide)
      · exact (Session.kind_passed ⟨cursor, none, []⟩).trans (beq_iff_eq.mp (h.2.trans hlimit))
    refine hdigits.bind fun _ ↦ (Ensures.advance_to fun cursor _ h ↦ h.1.advance cursor ?_).bind
      fun _ ↦ .pure fun _ h ↦ h
    rw [h.2]
    exact hopening _ (by decide)

theorem opens_structuralConstraint :
    Ensures total Untraced (Leading start kinds base) (structuralConstraint scope)
      fun _ ↦ Opened start kinds base := by
  refine .phrase_to ((leads_hitsLimit? hopening).bind fun _ ↦
    (Ensures.many_keeps (leads_oneOf fun kind hkind ↦ hopening kind ?_)).bind fun _ ↦
      (opens_nodeStatements hs).bind fun _ ↦ .pure fun _ h ↦ h)
  rw [KindSet.mem_iff] at hkind ⊢
  rw [opening, KindSet.contains_union, KindSet.contains_union, hkind, Bool.or_true, Bool.true_or]

end Statements

/-! ### Rules -/

theorem opens_inside (hcovers : ∀ kind ∈ statementOpening, kind ∈ kinds) (limit room : Nat) :
    Opens start total kinds base (Rule.inside limit room) := by
  induction room with
  | zero =>
    exact ⟨hcovers, Rule.keeps_run Opened.advance limit 0,
      fun _ hfit _ ↦ ⟨hfit.closed, hfit.total_eq, trivial⟩,
      fun _ _ hfit _ ↦ ⟨hfit.closed, hfit.total_eq, trivial⟩⟩
  | succ room ih =>
    exact ⟨hcovers, Rule.keeps_run Opened.advance limit (room + 1),
      .enter (fun _ _ _ ↦ trivial) (fun _ _ _ _ ↦ trivial) (opens_node ih),
      fun least ↦ .enter (fun _ _ _ ↦ trivial) (fun _ _ _ _ ↦ trivial)
        (opens_nodeStatement ih least)⟩

theorem statementOpening_subset {kind : Kind} (h : kind ∈ statementOpening) : kind ∈ opening := by
  rw [KindSet.mem_iff] at h ⊢
  rw [opening, KindSet.contains_union, KindSet.contains_union, h, Bool.true_or, Bool.true_or]

/-- A structural constraint passes an opening bracket, and before it nothing that would let an
expression pass it. -/
theorem opens_run_structuralConstraint (limit room : Nat) :
    Ensures total Untraced (Leading start opening base) (Rule.structuralConstraint.run limit room)
      fun _ ↦ Opened start opening base := by
  cases room with
  | zero => exact fun _ hfit _ ↦ ⟨hfit.closed, hfit.total_eq, trivial⟩
  | succ room =>
    exact .enter (fun _ _ _ ↦ trivial) (fun _ _ _ _ ↦ trivial)
      (opens_structuralConstraint (opens_inside (fun _ ↦ statementOpening_subset) limit room)
        fun _ h ↦ h)

end Grammar

end CorpusQuery
