import CorpusQuery.Proofs.Precedence.Grammar
import CorpusQuery.Proofs.Shape.Basic

/-!
Contracts about shapes. What a loop has read depends on the token it ended at, so a contract here
says what a parser returns and what cannot stand behind it. `Parser.Ensures.many_until` carries an
invariant through the items of a list, and `Parser.Ensures.many_led` says of a list without items
that none was there. `Stated` and `Marked` are what holds between the steps of the two loops that
join node statements and markers, and `Scope.Shaping` is what the rules of a scope promise.
-/

set_option autoImplicit false
set_option relaxedAutoImplicit false

namespace CorpusQuery

open CorpusQuery.Parser CorpusQuery.Grammar

/-- The parts have the shape that the form asks for, and so has every phrase among them. -/
def Draft.Shaped {category : Category} (draft : Draft category) : Prop :=
  draft.form.Shapes draft.parts ∧ draft.parts.Shaped

namespace Parser

variable {α β : Type} {total : Nat} {kept : List Event → Option Failure → Prop}
  {given : Place → Prop}

namespace Ensures

/-- What holds of every phrase that can be made of a draft holds of the one that is made. -/
theorem phraseFrom_of_draft {category : Category} {promised : Phrase category → Place → Prop}
    (start : Nat) {body : Parser (Draft category)}
    (h : Ensures total kept given body fun draft place ↦
      ∀ span, promised (.phrase draft.form span draft.parts) place) :
    Ensures total kept given (Parser.phraseFrom start body) promised :=
  h.bind fun _ ↦ (Ensures.look _).bind fun _ ↦ .pure fun _ hplace ↦ hplace.1 _

theorem phrase_of_draft {category : Category} {promised : Phrase category → Place → Prop}
    {body : Parser (Draft category)}
    (h : Ensures total kept given body fun draft place ↦
      ∀ span, promised (.phrase draft.form span draft.parts) place) :
    Ensures total kept given (Parser.phrase body) promised :=
  (Ensures.look _).bind fun start ↦ phraseFrom_of_draft start (h.when fun _ hplace ↦ hplace.1)

/-- Items are read until there are none. -/
theorem many_until {scope : Scope} (hscope : scope.Progressive) {item : Parser (Option α)}
    (hrepeated : Repeated scope item) (holds : List α → Place → Prop) {promised : Place → Prop}
    (hitem : ∀ items, Ensures total kept (holds items) item fun value? place ↦
      value?.elim (holds items place ∧ promised place) fun value ↦ holds (value :: items) place) :
    Ensures total kept (holds []) (Parser.many item) fun items place ↦
      holds items.reverse place ∧ promised place := by
  refine (iterate_until (fun _ _ _ _ ↦ hscope.loops (.items hrepeated)) (fun items ↦ ?_) []).bind
    fun items ↦ .pure fun _ h ↦ items.reverse_reverse.symm ▸ h
  refine (hitem items).bind fun value? ↦ .pure fun _ h ↦ ?_
  cases value? with
  | none => exact h
  | some value => exact h

/-- Behind a separator that is missing nothing has changed. -/
theorem behind_elim {kind : Kind} {body : Parser α} {holds : α → Prop}
    (h : Yields total body holds) : Ensures total Untraced given (Parser.behind kind body)
      fun value? place ↦ value?.elim (given place ∧ place.kind ≠ kind) holds := by
  have hfound : Ensures total Untraced given (Parser.consume kind) fun found place ↦
      found = false → given place ∧ place.kind ≠ kind :=
    .consume_to (fun _ _ _ _ ↦ nofun) fun _ hkind hplace _ ↦ ⟨hplace, hkind⟩
  refine hfound.bind fun found ↦ .ite (fun _ ↦ .map ?_) fun hmissing ↦ .pure fun _ hplace ↦
    hplace (Bool.eq_false_iff.mpr hmissing)
  exact Ensures.weaken h (fun _ _ ↦ trivial) fun _ _ hvalue ↦ hvalue

/-- Where no entry is found nothing has changed. -/
theorem oneOf_elim {table : List (Kind × α)} :
    Ensures total kept given (Parser.oneOf table) fun entry? place ↦
      entry?.elim (given place ∧ (KindSet.ofKeys table).contains place.kind = false)
        fun _ ↦ True := by
  have htoken : Ensures total kept given (Parser.consumeAny (.ofKeys table)) fun token? place ↦
      token?.elim (given place ∧ (KindSet.ofKeys table).contains place.kind = false)
        fun token ↦ (KindSet.ofKeys table).contains token.kind = true :=
    .consumeAny_to (fun _ _ hkind _ ↦ hkind) fun _ hkind hplace ↦ ⟨hplace, hkind⟩
  refine htoken.bind fun token? ↦ ?_
  cases token? with
  | none => exact .pure fun _ h ↦ h
  | some token =>
    refine .pure fun _ hkind ↦ ?_
    rw [Option.elim_some, KindSet.contains_ofKeys] at hkind
    obtain ⟨entry, hentry⟩ := Option.isSome_iff_exists.mp hkind
    rw [hentry]
    trivial

/-- Where not one item is read there was none at the place as it was given. -/
theorem many_led {scope : Scope} (hscope : scope.Progressive) {item : Parser (Option α)}
    (hrepeated : Repeated scope item) {holds : α → Prop} {absent : Place → Prop}
    (hitem : ∀ before : Place → Prop, Ensures total kept before item fun value? place ↦
      value?.elim (before place ∧ absent place) holds) :
    Ensures total kept given (Parser.many item) fun items place ↦
      (∀ value ∈ items, holds value) ∧ (items ≠ [] ∨ given place ∧ absent place) := by
  have hstep (items : List α) : Ensures total kept
      (fun place ↦ (∀ value ∈ items, holds value) ∧ (items ≠ [] ∨ given place)) item
      fun value? place ↦ value?.elim
        (((∀ value ∈ items, holds value) ∧ (items ≠ [] ∨ given place)) ∧ absent place) fun value ↦
          (∀ other ∈ value :: items, holds other) ∧ (value :: items ≠ [] ∨ given place) := by
    refine .known (fun place h ↦ h.1) fun hitems ↦ (hitem _).weaken (fun _ h ↦ h) ?_
    rintro (_ | value) place h
    · exact h
    · exact ⟨List.forall_mem_cons.mpr ⟨h, hitems⟩, .inl (List.cons_ne_nil _ _)⟩
  refine (many_until hscope hrepeated _ hstep).weaken
    (fun place h ↦ ⟨List.forall_mem_nil _, .inr h⟩) fun items place h ↦ ?_
  obtain ⟨⟨hitems, hnone⟩, habsent⟩ := h
  exact ⟨fun value hmem ↦ hitems value (List.mem_reverse.mpr hmem),
    hnone.imp (fun hne heq ↦ hne (congrArg List.reverse heq)) fun h ↦ ⟨h, habsent⟩⟩

end Ensures

namespace Yields

variable {holds : α → Prop}

theorem shapedFrom {category : Category} {body : Parser (Draft category)} {start : Nat}
    (h : Yields total body Draft.Shaped) :
    Yields total (Parser.phraseFrom start body) Tree.Shaped :=
  Ensures.phraseFrom_of_draft start (Ensures.weaken h (fun _ h ↦ h) fun _ _ hdraft _ ↦ hdraft)

theorem shaped {category : Category} {body : Parser (Draft category)}
    (h : Yields total body Draft.Shaped) : Yields total (Parser.phrase body) Tree.Shaped :=
  .skip (.look _) fun _ ↦ h.shapedFrom

/-- There is at least one item. -/
theorem series {separator : Kind} {item : Parser α} (h : Yields total item holds) :
    Yields total (Parser.separatedBy separator item) fun values ↦
      values ≠ [] ∧ ∀ value ∈ values, holds value :=
  h.bind fun _ hfirst ↦ (many h.behind).bind fun _ hothers ↦
    .pure ⟨List.cons_ne_nil _ _, List.forall_mem_cons.mpr ⟨hfirst, hothers⟩⟩

end Yields

end Parser

/-! ### Contracts -/

/-- Neither a node statement nor the next alternative of one begins here. -/
structure Place.EndsStatements (place : Place) : Prop where
  statement : nodeStatementStart.contains place.kind = false
  alternative : disjunctionKinds.contains place.kind = false

/-- What is read of a node statement of a level up to the place. -/
structure Stated (least : Nat) (statement : Phrase .nodeStatement) (place : Place) : Prop where
  shaped : statement.Shaped
  undivided : nodeDisjunctionLevel < least → statement.form ≠ .nodeDisjunction
  swallowed : statement.Swallows → place.EndsStatements

/-- No alternative goes on at the place that a statement of the level takes in. -/
def Exhausted (least : Nat) (place : Place) : Prop :=
  least ≤ nodeDisjunctionLevel → disjunctionKinds.contains place.kind = false

/-- What is read of a marker of a level up to the place. -/
structure Marked (least : Nat) (marker : Phrase .marker) (place : Place) : Prop where
  shaped : marker.Shaped
  binds : ∀ connective, marker.form.connective? = some connective → least ≤ connective.level
  leaves : ∀ connective, marker.form.connective? = some connective →
    ∀ next, Connective.ofKind? place.kind = some next → next.level ≤ connective.level

/-- No connective goes on at the place that binds as tightly as the level. -/
def Grammar.Connective.EndsAt (least : Nat) (place : Place) : Prop :=
  ∀ next, ofKind? place.kind = some next → next.level < least

/-- The phrases that the rules of a scope read are shaped, and statements and markers of a level
take in what goes on behind them. -/
structure Scope.Shaping (total : Nat) (scope : Scope) : Prop where
  progressive : scope.Progressive
  nested : ∀ rule, Yields total (scope.nested rule) Tree.Shaped
  nodeStatement : ∀ least, Ensures total Untraced Anywhere (scope.nodeStatement least)
    fun statement place ↦ Stated least statement place ∧ Exhausted least place
  marker : ∀ least, Ensures total Untraced Anywhere (scope.marker least)
    fun marker place ↦ Marked least marker place ∧ Connective.EndsAt least place

namespace Scope.Shaping

variable {total : Nat} {scope : Scope} (hs : scope.Shaping total)

include hs

/-- A parser whose value does not matter. -/
theorem skip {α β : Type} {parser : Parser α} {next : α → Parser β} {holds : β → Prop}
    (h : Alike scope scope parser parser) (hnext : ∀ value, Yields total (next value) holds) :
    Yields total (parser >>= next) holds := by
  have hany : Yields total parser fun _ ↦ True :=
    h.ensures (fun _ _ _ _ _ ↦ trivial) (fun _ h ↦ h)
      fun rule ↦ Ensures.weaken (hs.nested rule) (fun _ h ↦ h) fun _ _ _ ↦ trivial
  exact hany.bind fun value _ ↦ hnext value

end Scope.Shaping

/-! ### Forms and places -/

/-- Neither a sequence nor a disjunction. -/
def Form.isSimple : Form .nodeStatement → Bool
  | .sequence _ | .nodeDisjunction => false
  | _ => true

/-- Behind a statement that is neither a sequence nor a disjunction anything may stand. -/
theorem Stated.of_simple {draft : Draft .nodeStatement} (h : draft.Shaped)
    (hsimple : draft.form.isSimple = true) (least : Nat) (span : Span) (place : Place) :
    Stated least (.phrase draft.form span draft.parts) place := by
  obtain ⟨form, parts⟩ := draft
  cases form with
  | sequence arrangements => cases hsimple
  | nodeDisjunction => cases hsimple
  | _ => exact ⟨h, fun _ ↦ nofun, False.elim⟩

/-- Whether an edge begins here. -/
def Place.startsEdge (place : Place) : Bool :=
  (KindSet.ofKeys edgeGlyphs).contains place.kind || atEdgeEnd place

end CorpusQuery
