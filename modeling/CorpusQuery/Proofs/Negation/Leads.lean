import CorpusQuery.Proofs.Extent.Discipline
import CorpusQuery.Proofs.Spelling.Expression
import CorpusQuery.Proofs.Spelling.MarkerAttempt
import CorpusQuery.Proofs.Standalone.Grammar

/-!
What the first tokens of an expression tell of it. An expression that is nothing but an integer is
one token, and so is one that begins with a name and a colon behind it, since no continuation begins
with a colon (`Rule.leads_inside`). So a node takes an expression neither for a count nor for its
own label unless it is that short.
-/

set_option autoImplicit false
set_option relaxedAutoImplicit false

namespace CorpusQuery

open CorpusQuery.Parser CorpusQuery.Grammar

/-- What the first two tokens of an expression say of where it ends. -/
structure Place.Leads (start : Place) (first : Nat) (expression : Phrase .expression)
    (last : Nat) : Prop where
  starts : expressionStart.contains (start.peek first).kind = true
  integer : isInteger expression = true →
    digitKinds.contains (start.peek first).kind = true ∧ last = first + 1
  labelled : (start.peek first).kind = .memberName →
    (start.peek (first + 1)).kind = .symbol .colon → last = first + 1

theorem Parser.From.phraseFrom_of_draft {start : Place} {first begin : Nat} {category : Category}
    {body : Parser (Draft category)} {holds : Phrase category → Nat → Prop}
    (h : From start first body fun draft last ↦
      ∀ span, holds (.phrase draft.form span draft.parts) last) :
    From start first (Parser.phraseFrom begin body) holds :=
  h.bind fun _ _ _ hdraft ↦ .look fun _ ↦ .pure (hdraft _)

namespace Grammar

variable {start : Place} {first last : Nat} {kind : Kind} {expression : Phrase .expression}
  {scope : Scope}

theorem leads_of_kind (hkind : (start.peek first).kind = kind)
    (hstarts : expressionStart.contains kind = true) (hmember : kind ≠ .memberName)
    (hinteger : isInteger expression = false) : start.Leads first expression last := by
  subst hkind
  refine ⟨hstarts, fun h ↦ ?_, fun h ↦ absurd h hmember⟩
  rw [hinteger] at h
  cases h

theorem integer_one : From start first integer fun _ last ↦ last = first + 1 := by
  have hdigits : From start first (consumeAny digitKinds) fun token? last ↦
      token?.isSome = true → last = first + 1 := by
    refine .consumeAny_to (fun cursor hclosed hkind hplace ↦ ?_) fun place _ hplace ↦ ?_
    · have hnext := hplace.advance hclosed (ne_endOfInput_of_digits hkind)
      exact ⟨hnext.1, hnext.2 ▸ Nat.le_succ first, fun _ ↦ hnext.2⟩
    · exact ⟨hplace.1, Nat.le_of_eq hplace.2.symm, nofun⟩
  refine hdigits.bind fun token? middle _ hlast ↦ ?_
  cases token? with
  | none => exact .fail
  | some token => exact .pure (hlast rfl)

theorem numeral_one : From start first numeral fun numeral last ↦
    ∀ text, numeral = .integer text → last = first + 1 :=
  .look fun _ ↦ .ite
    (fun _ ↦ .skip .advance fun _ _ _ ↦ .skip .advance fun _ _ _ ↦ .skip .advance fun _ _ _ ↦
      .pure nofun)
    fun _ ↦ .map (integer_one.weaken fun _ _ _ hlast _ _ ↦ hlast)

theorem leads_numeral (hdigits : digitKinds.contains (start.peek first).kind = true) :
    From start first (do
      let numeral ← numeral
      pure ⟨.number numeral, .nil⟩ : Parser (Draft .expression)) fun draft last ↦
        ∀ span, start.Leads first (.phrase draft.form span draft.parts) last := by
  refine numeral_one.bind fun numeral _ _ hlast ↦ .pure fun _ ↦ ⟨?_, fun h ↦ ⟨hdigits, ?_⟩, ?_⟩
  · rcases contains_digitKinds.mp hdigits with hkind | hkind <;> rw [hkind] <;> rfl
  · cases numeral with
    | integer text => exact hlast text rfl
    | decimal text => cases h
  · intro hmember
    rw [hmember] at hdigits
    cases hdigits

theorem starts_of_type (type : ValueType) :
    expressionStart.contains (.keyword type.keyword) = true := by
  cases type <;> rfl

theorem starts_of_unary {operator : UnaryOperator} (h : unaryOperator? kind = some operator) :
    expressionStart.contains kind = true ∧ kind ≠ .memberName := by
  unfold unaryOperator? at h
  split at h
  case h_5 => cases h
  all_goals exact ⟨rfl, nofun⟩

/-- Nothing goes on with a colon. -/
theorem Continuation.at?_of_colon {place : Place} (h : place.kind = .symbol .colon) :
    at? place = none := by
  rw [at?, atSetPredicate_of_kind h rfl rfl (by decide), h]
  rfl

section Productions

variable (limit room : Nat)

theorem leads_primary : From start first (primary (Rule.inside limit room)) fun draft last ↦
    ∀ span, start.Leads first (.phrase draft.form span draft.parts) last := by
  refine .view fun place hplace ↦ .view fun place' hplace' ↦ ?_
  rw [hplace.kind_eq]
  generalize hkind : (start.peek first).kind = kind
  generalize place'.peekKind 1 = next
  have hitems (index : Nat) : From start index (listItems (Rule.inside limit room))
      fun _ _ ↦ True := alike_listItems.from_inside
  split
  · exact .skip .advance fun _ _ _ ↦ .pure fun _ ↦ leads_of_kind hkind rfl nofun rfl
  · exact .skip .advance fun _ _ _ ↦ .pure fun _ ↦ leads_of_kind hkind rfl nofun rfl
  · exact .skip .advance fun _ _ _ ↦ .pure fun _ ↦ leads_of_kind hkind rfl nofun rfl
  · exact leads_numeral (hkind ▸ rfl)
  · exact leads_numeral (hkind ▸ rfl)
  · exact .skip .advance fun _ _ _ ↦ .pure fun _ ↦ leads_of_kind hkind rfl nofun rfl
  · exact (hitems _).bind fun _ _ _ _ ↦ .pure fun _ ↦ leads_of_kind hkind rfl nofun rfl
  · exact .map (.skip (.expect _) fun _ _ _ ↦ .pure fun _ ↦ leads_of_kind hkind rfl nofun rfl)
  · have hname : From start first memberName fun _ last ↦ last = first + 1 :=
      .map ((From.expect_one (by nofun)).weaken fun _ _ _ hlast ↦ hlast.2)
    exact hname.bind fun _ _ _ hlast ↦ .pure fun _ ↦ ⟨hkind ▸ rfl, nofun, fun _ _ ↦ hlast⟩
  · refine .skip .advance fun _ _ _ ↦ .ite (fun _ ↦ .skip .advance fun _ _ _ ↦ ?_) fun _ ↦
      .pure fun _ ↦ leads_of_kind hkind rfl nofun rfl
    exact .map (.skip (.expect _) fun _ _ _ ↦ .pure fun _ ↦ leads_of_kind hkind rfl nofun rfl)
  · split
    · rename_i htype
      refine .skip .advance fun _ _ _ ↦ .skip .advance fun _ _ _ ↦ .skip (.expect _) fun _ _ _ ↦
        (hitems _).bind fun _ _ _ _ ↦ .pure fun _ ↦ leads_of_kind hkind ?_ ?_ rfl
      all_goals rw [lookup_valueTypes.mp htype]
      · exact starts_of_type _
      · nofun
    · exact .failMissing

theorem leads_castTo (type : ValueType) (hopen : (start.peek first).kind = .symbol .leftParen) :
    From start first (castTo (Rule.inside limit room) type) fun draft last ↦
      ∀ span, start.Leads first (.phrase draft.form span draft.parts) last :=
  .skip .advance fun _ _ _ ↦ .skip .advance fun _ _ _ ↦ .skip .advance fun _ _ _ ↦
    (Alike.nested (.expression _)).from_inside.bind fun _ _ _ _ ↦ .pure fun _ ↦
      leads_of_kind hopen rfl nofun rfl

theorem leads_operand : From start first (operand (Rule.inside limit room)) fun operand last ↦
    start.Leads first operand last := by
  refine .look fun _ ↦ .phraseFrom_of_draft (.view fun place hplace ↦ ?_)
  cases hcast : castAt? place with
  | some type =>
    refine leads_castTo limit room type ?_
    rw [← hplace.kind_eq]
    exact (castAt?_eq_some.mp hcast).1
  | none =>
    refine .view fun place hplace ↦ ?_
    rw [hplace.kind_eq]
    generalize hkind : (start.peek first).kind = kind
    cases hoperator : unaryOperator? kind with
    | some operator =>
      obtain ⟨hstarts, hmember⟩ := starts_of_unary hoperator
      exact .skip .advance fun _ _ _ ↦ (Alike.nested (.expression _)).from_inside.bind
        fun _ _ _ _ ↦ .pure fun _ ↦ leads_of_kind hkind hstarts hmember rfl
    | none =>
      refine .ite (fun hopen ↦ ?_) fun _ ↦ .ite (fun hforeach ↦ ?_) fun _ ↦ leads_primary limit room
      · exact .skip .advance fun _ _ _ ↦ (Alike.nested (.expression 0)).from_inside.bind
          fun _ _ _ _ ↦ .skip (.expect _) fun _ _ _ ↦ .pure fun _ ↦
            leads_of_kind (hkind.trans hopen) rfl nofun rfl
      · exact (Alike.nested .loop).from_inside.bind fun _ _ _ _ ↦ .pure fun _ ↦
          leads_of_kind (hkind.trans hforeach) rfl nofun rfl

/-- No continuation makes a bare integer. -/
theorem compound_draft (left : Phrase .expression) (continuation : Continuation) :
    From start first (continuation.draft (Rule.inside limit room) left) fun draft _ ↦
      ∀ span, isInteger (.phrase draft.form span draft.parts) = false := by
  have hpass {α : Type} {parser : Parser α} {index : Nat}
      (h : Alike (Rule.inside limit room) (Rule.inside limit room) parser parser) :
      From start index parser fun _ _ ↦ True := h.from_inside
  cases continuation with
  | path =>
    exact .skip .advance fun _ _ _ ↦ (hpass alike_identifier).bind fun _ _ _ _ ↦ .pure fun _ ↦ rfl
  | call =>
    exact .skip .advance fun _ _ _ ↦ (hpass (alike_optionalExpressionsUntil _)).bind
      fun _ _ _ _ ↦ .pure fun _ ↦ rfl
  | listAccess =>
    exact .skip .advance fun _ _ _ ↦ (hpass (alike_expressionsUntil _)).bind
      fun _ _ _ _ ↦ .pure fun _ ↦ rfl
  | annotationAccess =>
    exact .skip .advance fun _ _ _ ↦ (hpass (alike_expressionsUntil _)).bind
      fun _ _ _ _ ↦ .pure fun _ ↦ rfl
  | binary operator =>
    exact .skip .advance fun _ _ _ ↦ (hpass (.nested (.expression _))).bind
      fun _ _ _ _ ↦ .pure fun _ ↦ rfl
  | assignment =>
    exact .skip .advance fun _ _ _ ↦ .skip (.consume _) fun _ _ _ ↦ (hpass alike_target).bind
      fun _ _ _ _ ↦ .pure fun _ ↦ rfl
  | setPredicate =>
    exact (hpass (alike_consumeEither _ _)).bind fun _ _ _ _ ↦
      (hpass (alike_consumeEither _ _)).bind fun _ _ _ _ ↦ .skip (.expect _) fun _ _ _ ↦
        (hpass (.nested (.expression _))).bind fun _ _ _ _ ↦ .pure fun _ ↦ rfl
  | ternary =>
    exact .skip .advance fun _ _ _ ↦ (hpass (.nested (.expression 0))).bind fun _ _ _ _ ↦
      .skip (.expect _) fun _ _ _ ↦ (hpass (.nested (.expression _))).bind
        fun _ _ _ _ ↦ .pure fun _ ↦ rfl

theorem leads_continuation (least : Nat) {left : Phrase .expression} {middle : Nat}
    (h : start.Leads first left middle) :
    From start middle (continuation (Rule.inside limit room) least left) fun next? last ↦
      next?.elim (start.Leads first left last) (start.Leads first · last) := by
  refine .view fun place hplace ↦ ?_
  cases hfound : Continuation.at? place with
  | none => exact .pure h
  | some found =>
    refine .ite (fun _ ↦ .pure h) fun _ ↦ .map (.phraseFrom_of_draft ?_)
    refine (compound_draft limit room left found).weaken fun draft last _ hdraft span ↦ ?_
    refine ⟨h.starts, fun hinteger ↦ ?_, fun hmember hcolon ↦ ?_⟩
    · rw [hdraft] at hinteger
      cases hinteger
    · have hkind : place.kind = .symbol .colon := by
        rw [hplace.kind_eq, h.labelled hmember hcolon, hcolon]
      rw [Continuation.at?_of_colon hkind] at hfound
      cases hfound

theorem leads_expression (least : Nat) :
    From start first (Grammar.expression (Rule.inside limit room) least) (start.Leads first) :=
  (leads_operand limit room).bind fun _ _ _ hoperand ↦
    .iterate (fun _ _ _ hleft ↦ leads_continuation limit room least hleft) hoperand

end Productions

end Grammar

theorem Rule.leads_inside (start : Place) (limit room least first : Nat) :
    From start first ((inside limit room).expression least) (start.Leads first) := by
  cases room with
  | zero => exact fun _ hfit _ ↦ ⟨hfit.closed, hfit.total_eq, trivial⟩
  | succ room => exact .enter (Grammar.leads_expression limit room least)

end CorpusQuery
