import CorpusQuery.Proofs.Spelling.Expression
import CorpusQuery.Proofs.Spelling.Quantifier
import CorpusQuery.Proofs.Spelling.Shadow

/-!
The attempts at a constraint. A node and a selection try an expression where a statement about nodes
may follow instead. Before the first bracket of such a statement an expression finds numbers,
operators and negations only, and it ends behind a number, where no token that has a synonym
follows; so it reads no more in a copy than in the tokens.
-/

set_option autoImplicit false
set_option relaxedAutoImplicit false

namespace CorpusQuery

open CorpusQuery.Parser

/-! ### Before the first bracket -/

namespace Region

variable {later : List Wording}

theorem head_isArgument (h : Region later) :
    ∀ wording ∈ later.head?, wording.isArgument = false := by
  intro wording hwording
  cases h <;> cases hwording <;> rfl

theorem head_ne (h : Region later) : ∀ wording ∈ later.head?, wording ≠ .choice .conjunction := by
  rintro wording hwording rfl
  cases h with
  | choice hsynonym _ =>
    cases hwording
    cases hsynonym
  | _ => cases hwording

end Region

/-- Behind a token before the first bracket a statement about nodes goes on. -/
theorem Open.tail {wording : Wording} {later : List Wording} (h : Open (wording :: later))
    (hlater : Region later) : Open later where
  toOrderly := h.toOrderly.tail
  head := hlater.head_isArgument
  head_ne := hlater.head_ne
  region := hlater

/-- The kinds of the tokens up to the first bracket of a statement about nodes. -/
def Kind.isRegional (kind : Kind) : Bool :=
  kind.isBorder || kind.isOpener || kind == .pureDigits || kind == .keyword .not ||
    kind == .symbol .bang || kind == .keyword .all || kind == .symbol .star

/-- Those of them that may stand behind a number. -/
def Kind.isCounting (kind : Kind) : Bool :=
  kind.isBorder || kind.isOpener || kind == .pureDigits

namespace Abreast

variable {session copy : Session}

theorem open_kin (h : Abreast Open session copy) : Kin session.cursor.here copy.cursor.here := by
  obtain ⟨-, ahead, hopen, hspells, hready⟩ := h
  exact hready.kin hopen.toSettled hspells

/-- The token at hand in the copy is one that may stand before the first bracket. -/
theorem isRegional (h : Abreast Open session copy) : copy.cursor.kind.isRegional = true := by
  obtain ⟨-, ahead, hopen, -, hready⟩ := h
  obtain ⟨wording, later, rfl⟩ : ∃ wording later, ahead = wording :: later := by
    cases hopen.region <;> exact ⟨_, _, rfl⟩
  obtain ⟨token, rest, hrest, hkind⟩ := hready.printed.first
  obtain ⟨rfl, -⟩ := List.cons.inj hrest
  rw [Place.kind, hkind]
  cases hopen.region with
  | border hborder => simp [Wording.kind, Wording.usual, Kind.isRegional, hborder]
  | opener hopener _ => simp [Wording.kind, Wording.usual, Kind.isRegional, hopener]
  | digits _ _ => rfl
  | @choice synonym _ hsynonym _ => cases synonym <;> first | rfl | cases hsynonym

theorem isCounting (h : Abreast Counted session copy) : copy.cursor.kind.isCounting = true := by
  obtain ⟨-, ahead, hcounted, -, hready⟩ := h
  obtain ⟨wording, later, rfl⟩ : ∃ wording later, ahead = wording :: later := by
    cases hcounted.region <;> exact ⟨_, _, rfl⟩
  obtain ⟨token, rest, hrest, hkind⟩ := hready.printed.first
  obtain ⟨rfl, -⟩ := List.cons.inj hrest
  rw [Place.kind, hkind]
  cases hcounted.region with
  | border hborder => simp [Wording.kind, Wording.usual, Kind.isCounting, hborder]
  | opener hopener _ => simp [Wording.kind, Wording.usual, Kind.isCounting, hopener]
  | digits _ _ => rfl
  | choice hsynonym _ => exact absurd rfl (hcounted.unquantified _ hsynonym)

theorem open_of_counted (h : Abreast Counted session copy) : Abreast Open session copy :=
  ⟨h.1, h.2.imp fun _ hahead ↦ ⟨hahead.1.toOpen, hahead.2⟩⟩

/-- A kind without synonyms is there for both or for none. -/
theorem kind_iff_open (h : Abreast Open session copy) {kind : Kind}
    (hkind : kind.isSynonym = false) : session.cursor.kind = kind ↔ copy.cursor.kind = kind := by
  obtain ⟨hother, husual⟩ := Kind.of_isSynonym hkind
  refine ⟨fun heq ↦ ?_, fun heq ↦ ?_⟩
  · exact (h.open_kin.eq_of_other ((congrArg Kind.isOther heq).trans hother)).trans heq
  · exact (h.open_kin.eq_of_usual ((congrArg Kind.isUsual heq).trans husual)).trans heq

/-- Behind a number the kinds of the tokens at hand are the same. -/
theorem kind_eq_counted (h : Abreast Counted session copy) :
    session.cursor.kind = copy.cursor.kind := by
  obtain ⟨-, ahead, hcounted, hspells, hready⟩ := h
  rcases hcounted.toSettled.alias_head hspells hready.printed with heq | ⟨synonym, hhead, -⟩
  · exact heq
  · cases synonym with
    | negation => exact absurd hhead (hcounted.unquantified _ rfl)
    | universal => exact absurd hhead (hcounted.unquantified _ rfl)
    | disjunction =>
      cases hcounted.region <;> cases hhead
      rename_i hsynonym
      cases hsynonym
    | conjunction => exact absurd rfl (hcounted.head_ne _ hhead)

/-- A token that is not the border is passed in both. -/
theorem pass_open (h : Abreast Open session copy) (hborder : copy.cursor.kind.isBorder = false) :
    Abreast Open session.passed copy.passed := by
  have hregional := h.isRegional
  obtain ⟨hclosing, ahead, hopen, hspells, hready⟩ := h
  have hend : copy.cursor.kind ≠ .endOfInput := by
    intro heq
    rw [heq] at hregional
    cases hregional
  have hpass {wording : Wording} {later : List Wording} (hsingle : wording.isSingle = true)
      (hopen : Open (wording :: later)) (hlater : Region later)
      (hspells : Spells (wording :: later) session.rest)
      (hready : Ready session copy (wording :: later)) :
      Abreast Open session.passed copy.passed := by
    obtain ⟨hclosing', hspells', hready', -⟩ := hready.pass hclosing hspells hsingle hend
    exact ⟨hclosing', later, hopen.tail hlater, hspells', hready'⟩
  cases hopen.region with
  | border hkind =>
    obtain ⟨token, rest, hrest, hfirst⟩ := hready.printed.first
    obtain ⟨rfl, -⟩ := List.cons.inj hrest
    rw [Place.kind, hfirst] at hborder
    cases hkind.symm.trans hborder
  | opener _ hlater => exact hpass rfl hopen hlater hspells hready
  | digits _ hlater => exact hpass rfl hopen hlater hspells hready
  | choice _ hlater => exact hpass rfl hopen hlater hspells hready

end Abreast

/-! ### Behind a number -/

/-- Two sessions side by side behind a number before the first bracket. -/
def Numbered (session copy : Session) : Prop :=
  Abreast Counted session copy ∧ copy.cursor.previousKind? = some .pureDigits

namespace Numbered

variable {session copy : Session}

theorem tied : Tied Numbered where
  overflow h := (Abreast.tied Counted).overflow h.1
  closing h := (Abreast.tied Counted).closing h.1
  still hstill hstill' h :=
    ⟨(Abreast.tied Counted).still hstill hstill' h.1, by rw [hstill'.place]; exact h.2⟩

/-- A number is passed in both. -/
theorem of_pass (h : Abreast Open session copy) (hkind : copy.cursor.kind = .pureDigits) :
    Numbered session.passed copy.passed := by
  obtain ⟨hclosing, ahead, hopen, hspells, hready⟩ := h
  obtain ⟨wording, later, rfl⟩ : ∃ wording later, ahead = wording :: later := by
    cases hopen.region <;> exact ⟨_, _, rfl⟩
  obtain ⟨token, rest, hrest, hfirst⟩ := hready.printed.first
  obtain ⟨rfl, -⟩ := List.cons.inj hrest
  have hwording : wording.kind = .pureDigits := hfirst.symm.trans hkind
  have hend : copy.cursor.kind ≠ .endOfInput := hkind ▸ nofun
  obtain ⟨next, others, hahead, -⟩ := hready.closing.ahead hend
  have hprevious : copy.passed.cursor.previousKind? = some .pureDigits := by
    rw [Place.previousKind?, Session.behind_passed hahead]
    exact congrArg some hkind
  cases hopen.region with
  | border hborder => exact absurd hwording (Kind.ne_pureDigits_of_isBorder hborder)
  | opener hopener _ =>
    rw [Wording.kind] at hwording
    cases hwording
    cases hopener
  | digits hnext hlater =>
    obtain ⟨hclosing', hspells', hready', -⟩ := hready.pass hclosing hspells rfl hend
    exact ⟨⟨hclosing', _, ⟨hopen.tail hlater, hnext⟩, hspells', hready'⟩, hprevious⟩
  | @choice synonym _ _ _ => cases synonym <;> cases hwording

/-- An operator is passed in both. -/
theorem pass (h : Numbered session copy) (hborder : copy.cursor.kind.isBorder = false) :
    Abreast Open session.passed copy.passed :=
  h.1.open_of_counted.pass_open hborder

end Numbered

/-! ### Expressions before the first bracket -/

namespace Grammar

variable {scope : Scope}

/-- What is decided by an expression that was read. -/
def integerView (draft : Draft .expression) : Bool :=
  isInteger (.phrase draft.form .zero draft.parts)

/-- Only ternaries and operators go on behind a number before the first bracket. -/
theorem Continuation.of_numbered {session copy : Session} (h : Numbered session copy) :
    at? session.cursor.toPlace = at? copy.cursor.toPlace ∧
      ∀ continuation, at? copy.cursor.toPlace = some continuation →
        copy.cursor.kind.isBorder = false ∧
          (continuation = .ternary ∨ ∃ operator, continuation = .binary operator) := by
  have hcounting := h.1.isCounting
  have hfollows (kinds : KindSet) (hkinds : kinds.contains .pureDigits = false) :
      follows copy.cursor.toPlace kinds = false := by
    rw [follows, h.2]
    exact hkinds
  have hset : atSetPredicate copy.cursor.toPlace = false := by
    have huniversal : isUniversal copy.cursor.kind = false := by
      rw [← Bool.not_eq_true, isUniversal, Bool.or_eq_true, beq_iff_eq, beq_iff_eq]
      rintro (heq | heq) <;> rw [heq] at hcounting <;> cases hcounting
    have hzero : copy.cursor.peekKind 0 = copy.cursor.kind :=
      congrArg Token.kind (Place.along_zero _ _)
    rw [atSetPredicate, huniversal]
    simp only [Bool.false_eq_true, if_false, hzero]
    refine beq_false_of_ne ?_
    split
    · rename_i hnegation
      have hborder : copy.cursor.kind.isBorder = false := by
        rw [isNegation, Bool.or_eq_true, beq_iff_eq, beq_iff_eq] at hnegation
        rcases hnegation with heq | heq <;> rw [heq] <;> rfl
      have hnext := (h.pass hborder).isRegional
      rw [Session.kind_passed] at hnext
      intro heq
      rw [heq] at hnext
      cases hnext
    · rw [hzero]
      intro heq
      rw [heq] at hcounting
      cases hcounting
  refine ⟨?_, fun continuation hat ↦ ?_⟩
  · obtain ⟨-, ahead, hcounted, hspells, hready⟩ := h.1
    rcases at?_of_ready hready hcounted.toPlain hspells with heq | ⟨-, -, hhead⟩
    · exact heq.symm
    · exact absurd hhead (hcounted.unquantified _ rfl)
  · unfold at? at hat
    rw [hset, hfollows callable (by decide), hfollows listAccessible (by decide),
      hfollows annotationAccessible (by decide)] at hat
    generalize copy.cursor.kind = kind at hcounting hat ⊢
    simp only [Bool.false_eq_true, if_false] at hat
    split at hat
    · cases hcounting
    · cases hat
    · cases hat
    · cases hat
    · cases hcounting
    · cases hat
      exact ⟨rfl, .inl rfl⟩
    · obtain ⟨operator, hoperator, rfl⟩ := Option.map_eq_some_iff.mp hat
      refine ⟨Bool.eq_false_iff.mpr fun hborder ↦ ?_, .inr ⟨operator, rfl⟩⟩
      unfold Kind.isBorder at hborder
      split at hborder <;> first | cases hoperator | cases hborder

/-- Two constructions of a phrase that do the same from a session on. -/
theorem phrase_congr {category : Category} {body body' : Parser (Draft category)}
    {session : Session} (h : body session = body' session) :
    phrase body session = phrase body' session := by
  simp only [phrase, phraseFrom, bind, EStateM.bind, look, h]

/-! ### Operands at hand -/

section Operands

variable {session : Session}

theorem operand_of_unary {operator : UnaryOperator}
    (hparen : session.cursor.kind ≠ .symbol .leftParen)
    (h : unaryOperator? session.cursor.kind = some operator) :
    operand scope session = phrase (unary scope operator) session := by
  have hcast : look castAt? session = .ok none session := by
    rw [look, castAt?, if_neg fun h ↦ hparen h.1]
  have hkind : look Place.kind session = .ok session.cursor.kind session := rfl
  refine phrase_congr ?_
  rw [bind_of_ok hcast]
  dsimp only
  rw [bind_of_ok hkind, h]

theorem operand_of_primary (hparen : session.cursor.kind ≠ .symbol .leftParen)
    (hforeach : session.cursor.kind ≠ .keyword .foreach)
    (h : unaryOperator? session.cursor.kind = none) :
    operand scope session = phrase (primary scope) session := by
  have hcast : look castAt? session = .ok none session := by
    rw [look, castAt?, if_neg fun h ↦ hparen h.1]
  have hkind : look Place.kind session = .ok session.cursor.kind session := rfl
  refine phrase_congr ?_
  rw [bind_of_ok hcast]
  dsimp only
  rw [bind_of_ok hkind, h]
  dsimp only
  rw [if_neg hparen, if_neg hforeach]

theorem primary_of_digits (h : session.cursor.kind = .pureDigits) :
    primary scope session = (numeral >>= fun numeral ↦ pure ⟨.number numeral, .nil⟩) session := by
  have hkind : look Place.kind session = .ok .pureDigits session := by rw [look, h]
  rw [primary, bind_of_ok hkind]
  rfl

theorem primary_of_brace (h : session.cursor.kind = .symbol .leftBrace) :
    primary scope session =
      (listItems scope >>= fun items ↦ pure ⟨.list none, .many items .nil⟩) session := by
  have hkind : look Place.kind session = .ok (.symbol .leftBrace) session := by rw [look, h]
  rw [primary, bind_of_ok hkind]
  rfl

theorem primary_of_regional (h : session.cursor.kind.isRegional = true)
    (hdigits : session.cursor.kind ≠ .pureDigits)
    (hbrace : session.cursor.kind ≠ .symbol .leftBrace) :
    primary scope session = failMissing "an expression" expressionStart session := by
  have hkind : look Place.kind session = .ok session.cursor.kind session := rfl
  have hnext : look (·.peekKind 1) session = .ok (session.cursor.peekKind 1) session := rfl
  have htype : valueTypes.lookup session.cursor.kind = none := by
    refine Option.eq_none_iff_forall_ne_some.mpr fun type htype ↦ ?_
    rw [lookup_valueTypes.mp htype] at h
    cases type <;> cases h
  rw [primary, bind_of_ok hkind, bind_of_ok hnext]
  generalize session.cursor.kind = kind at h hdigits hbrace htype
  split
  case h_4 => exact absurd rfl hdigits
  case h_7 => exact absurd rfl hbrace
  case h_11 => rw [htype]
  all_goals cases h

end Operands

section Shadows

variable (hscope : scope.Progressive) (hnested : ∀ rule, Sticky (scope.nested rule))
  (hexpression : ∀ least, Shadows (Abreast Open) Numbered isInteger (scope.expression least)
    (scope.expression least))

theorem open_overflow {session copy : Session} (h : Abreast Open session copy) :
    copy.overflow = none := (Abreast.tied Open).overflow h

include hexpression in
/-- Behind an operator an operand is read. -/
theorem shadows_operandBehind {link : Session → Session → Prop}
    (hpass : ∀ session copy, link session copy → Abreast Open session.passed copy.passed)
    (least : Nat) {draft draft' : Phrase .expression → Draft .expression}
    (hdraft : ∀ operand operand', integerView (draft operand) = integerView (draft' operand')) :
    Shadows link Numbered integerView
      (advance >>= fun _ ↦ scope.expression least >>= fun operand ↦ pure (draft operand))
      (advance >>= fun _ ↦ scope.expression least >>= fun operand ↦ pure (draft' operand)) := by
  have hadvance : Shadows link (Abreast Open) (fun _ ↦ ()) advance advance :=
    .advance fun session copy hlink ↦
      have hpassed := hpass session copy hlink
      have hoverflow : copy.passed.overflow = none := open_overflow hpassed
      ⟨hoverflow, rfl, hpassed⟩
  refine hadvance.bind fun _ _ _ ↦ (hexpression least).bind fun operand operand' _ ↦ ?_
  exact .pure (hdraft operand operand') fun _ _ hlink ↦ ⟨Numbered.tied.overflow hlink, hlink⟩

theorem shadows_number :
    Shadows (fun session copy ↦ Abreast Open session copy ∧ copy.cursor.kind = .pureDigits)
      Numbered integerView (numeral >>= fun numeral ↦ pure ⟨.number numeral, .nil⟩)
      (numeral >>= fun numeral ↦ pure ⟨.number numeral, .nil⟩) := by
  have hrun {session : Session} (hkind : session.cursor.kind = .pureDigits)
      (hnext : session.cursor.peekKind 1 ≠ .symbol .dot) :
      numeral session = .ok (.integer session.cursor.here.text)
        (session.tested digitKinds).passed := by
    have hdecimal : atDecimal session.cursor.toPlace = false := by
      rw [atDecimal, beq_false_of_ne hnext]
      simp
    rw [numeral_of_not_decimal hdecimal, map_eq_pure_bind,
      bind_of_ok (integer_of_digits (hkind ▸ by decide))]
    rfl
  refine ⟨.bind (fun session failure h ↦ (Alike.overflow_eq alike_numeral session).trans h)
    fun _ ↦ .pure _, fun session copy hboth _ ↦ ?_⟩
  obtain ⟨hlink, hkind⟩ := hboth
  have hkind' : session.cursor.kind = .pureDigits := (hlink.kind_iff_open rfl).mpr hkind
  have hnumbered := Numbered.of_pass hlink hkind
  have hpassed := hnumbered.1.open_of_counted
  have hnext' : copy.cursor.peekKind 1 ≠ .symbol .dot := by
    rw [← Session.kind_passed]
    intro heq
    have hregional := hpassed.isRegional
    rw [heq] at hregional
    cases hregional
  have hnext : session.cursor.peekKind 1 ≠ .symbol .dot := by
    rw [← Session.kind_passed] at hnext' ⊢
    exact fun heq ↦ hnext' ((hpassed.kind_iff_open rfl).mp heq)
  rw [leave, bind_of_ok (hrun hkind hnext'), bind_of_ok (hrun hkind' hnext)]
  have hlast : Numbered (session.tested digitKinds).passed (copy.tested digitKinds).passed :=
    Numbered.of_pass ((Abreast.tied Open).still (.tested _ _) (.tested _ _) hlink) hkind
  refine ⟨Numbered.tied.overflow hlast, fun _ _ hresult ↦ ?_⟩
  cases hresult
  exact ⟨_, _, rfl, rfl, hlast⟩

include hscope hnested hexpression in
/-- A list in braces meets a bracket before its closing brace. -/
theorem shadows_list :
    Shadows (fun session copy ↦ Abreast Open session copy ∧ copy.cursor.kind = .symbol .leftBrace)
      Numbered integerView (listItems scope >>= fun items ↦ pure ⟨.list none, .many items .nil⟩)
      (listItems scope >>= fun items ↦ pure ⟨.list none, .many items .nil⟩) := by
  have hnever {β δ : Type} {parser : Parser β} {view : β → δ} (hsticky : Sticky parser) :
      Shadows (fun _ _ ↦ False) Numbered view parser parser :=
    .of_not hsticky fun _ _ ↦ id
  have hopening : Shadows (fun session copy ↦ Abreast Open session copy ∧
      copy.cursor.kind = .symbol .leftBrace) (Abreast Open) (fun _ ↦ ())
      (expect (.symbol .leftBrace)) (expect (.symbol .leftBrace)) := by
    refine .expect ⟨fun h ↦ open_overflow h.1, fun h ↦ (Abreast.tied Open).closing h.1,
      fun hstill hstill' h ↦ ⟨(Abreast.tied Open).still hstill hstill' h.1,
        (congrArg Place.kind hstill'.place).trans h.2⟩⟩ fun session copy hlink hkind ↦ ?_
    exact ⟨(hlink.1.kind_iff_open rfl).mpr hkind, hlink.1.pass_open (hkind ▸ rfl)⟩
  have hregional {kind : Kind} (hkind : kind.isRegional = false) {session copy : Session}
      (hlink : Abreast Open session copy) : copy.cursor.kind ≠ kind := by
    rintro rfl
    exact absurd (hlink.isRegional.symm.trans hkind) nofun
  have hitems : Shadows (Abreast Open) Numbered (List.map isInteger)
      (separatedBy (.symbol .comma) (scope.expression 0))
      (separatedBy (.symbol .comma) (scope.expression 0)) := by
    refine .separatedBy Numbered.tied hscope hnested .expression (.nested _) (hexpression 0) ?_
    have hlater : Shadows (fun _ _ ↦ False) Numbered isInteger (scope.expression 0)
        (scope.expression 0) := hnever (hnested _)
    exact .behind Numbered.tied (fun session copy hlink ↦
      hlink.1.open_of_counted.kind_iff_open rfl) (fun session copy hlink hkind ↦
        hregional rfl hlink.1.open_of_counted hkind) hlater
  have hclosing (items items' : List (Phrase .expression)) :
      Shadows Numbered Numbered (fun _ ↦ ()) (expect (.symbol .rightBrace) >>= fun _ ↦ pure items)
        (expect (.symbol .rightBrace) >>= fun _ ↦ pure items') := by
    refine .of_error (.bind (.of_elementary (.expect _)) fun _ ↦ .pure _)
      fun session copy hlink ↦ ?_
    have hkind : copy.cursor.kind ≠ .symbol .rightBrace :=
      hregional rfl hlink.1.open_of_counted
    have hoverflow : copy.overflow = none := Numbered.tied.overflow hlink
    exact ⟨_, _, bind_of_error (expect_of_ne hkind) _, hoverflow⟩
  have hlist : Shadows (fun session copy ↦ Abreast Open session copy ∧
      copy.cursor.kind = .symbol .leftBrace) Numbered (fun _ ↦ ()) (listItems scope)
      (listItems scope) := by
    have hempty : Shadows (fun _ _ ↦ False) Numbered (fun _ ↦ ())
        (pure ([] : List (Phrase .expression))) (pure []) := hnever (.pure _)
    refine hopening.bind fun _ _ _ ↦ ?_
    refine .consume_then (Abreast.tied Open) (fun session copy hlink ↦ hlink.kind_iff_open rfl)
      (fun session copy hlink hkind ↦ ?_) hempty ?_
    · exact hregional rfl hlink hkind
    exact hitems.bind fun items items' _ ↦ hclosing items items'
  exact hlist.bind fun _ _ _ ↦ .pure rfl fun _ _ hlink ↦ ⟨Numbered.tied.overflow hlink, hlink⟩

include hscope hnested hexpression in
theorem shadows_operand :
    Shadows (Abreast Open) Numbered isInteger (operand scope) (operand scope) := by
  have htied {holds : Place → Prop} :
      Tied fun session copy ↦ Abreast Open session copy ∧ holds copy.cursor.toPlace :=
    ⟨fun h ↦ open_overflow h.1, fun h ↦ (Abreast.tied Open).closing h.1,
      fun hstill hstill' h ↦ ⟨(Abreast.tied Open).still hstill hstill' h.1,
        hstill'.place.symm ▸ h.2⟩⟩
  have hphrase (holds : Place → Prop) {body : Parser (Draft .expression)}
      (h : Shadows (fun session copy ↦ Abreast Open session copy ∧ holds copy.cursor.toPlace)
        Numbered integerView body body) :
      Shadows (fun session copy ↦ Abreast Open session copy ∧ holds copy.cursor.toPlace)
        Numbered isInteger (phrase body) (phrase body) :=
    .phrase integerView htied Numbered.tied (fun _ _ _ _ h ↦ h) h
  have halike : Alike scope scope (operand scope) (operand scope) := alike_operand
  refine .of_branch (halike.sticky hnested) fun session copy hlink ↦ ?_
  have hregional := hlink.isRegional
  have hne (kind : Kind) (hkind : kind.isSynonym = false) (hother : kind.isRegional = false) :
      session.cursor.kind ≠ kind ∧ copy.cursor.kind ≠ kind := by
    have hcopy : copy.cursor.kind ≠ kind := by
      rintro rfl
      exact absurd (hregional.symm.trans hother) nofun
    exact ⟨fun heq ↦ hcopy ((hlink.kind_iff_open hkind).mp heq), hcopy⟩
  obtain ⟨hparen, hparen'⟩ := hne (.symbol .leftParen) rfl rfl
  obtain ⟨hforeach, hforeach'⟩ := hne (.keyword .foreach) rfl rfl
  have hunary : unaryOperator? session.cursor.kind = unaryOperator? copy.cursor.kind :=
    hlink.open_kin.view_eq unaryOperator? (by rintro (_ | _ | _ | _) <;> rfl)
  cases hoperator : unaryOperator? copy.cursor.kind with
  | some operator =>
    have hborder : copy.cursor.kind.isBorder = false := by
      generalize copy.cursor.kind = kind at hoperator
      unfold unaryOperator? at hoperator
      split at hoperator <;> first | rfl | cases hoperator
    exact ⟨_, _, _, operand_of_unary hparen (hunary.trans hoperator),
      operand_of_unary hparen' hoperator, ⟨hlink, hborder⟩, hphrase (·.kind.isBorder = false)
        (shadows_operandBehind hexpression (fun _ _ hlink ↦ hlink.1.pass_open hlink.2)
          unaryOperandLevel fun _ _ ↦ rfl)⟩
  | none =>
    rw [operand_of_primary hparen hforeach (hunary.trans hoperator),
      operand_of_primary hparen' hforeach' hoperator]
    by_cases hdigits : copy.cursor.kind = .pureDigits
    · exact ⟨_, _, _, phrase_congr (primary_of_digits ((hlink.kind_iff_open rfl).mpr hdigits)),
        phrase_congr (primary_of_digits hdigits), ⟨hlink, hdigits⟩,
        hphrase (·.kind = .pureDigits) shadows_number⟩
    by_cases hbrace : copy.cursor.kind = .symbol .leftBrace
    · exact ⟨_, _, _, phrase_congr (primary_of_brace ((hlink.kind_iff_open rfl).mpr hbrace)),
        phrase_congr (primary_of_brace hbrace), ⟨hlink, hbrace⟩,
        hphrase (·.kind = .symbol .leftBrace) (shadows_list hscope hnested hexpression)⟩
    · have hmissing : primary scope copy = failMissing "an expression" expressionStart copy :=
        primary_of_regional hregional hdigits hbrace
      have hcopy := phrase_congr hmissing
      have halike' : Alike scope scope (phrase (primary scope)) (phrase (primary scope)) :=
        .phrase alike_primary
      refine ⟨_, _, _, rfl, hcopy, hlink, .of_error (halike'.sticky hnested)
        fun session copy hlink ↦ ?_⟩
      have hoverflow : copy.overflow = none := open_overflow hlink
      exact ⟨_, _, rfl, hoverflow⟩

include hnested hexpression in
theorem shadows_ternary (left left' : Phrase .expression) :
    Shadows (fun session copy ↦ Numbered session copy ∧ copy.cursor.kind.isBorder = false)
      Numbered integerView (Continuation.ternary.draft scope left)
      (Continuation.ternary.draft scope left') := by
  have hadvance : Shadows (fun session copy ↦ Numbered session copy ∧
      copy.cursor.kind.isBorder = false) (Abreast Open) (fun _ ↦ ()) advance advance := by
    refine .advance fun session copy hlink ↦ ?_
    have hpassed := hlink.1.pass hlink.2
    have hoverflow : copy.passed.overflow = none := open_overflow hpassed
    exact ⟨hoverflow, rfl, hpassed⟩
  refine hadvance.bind fun _ _ _ ↦ (hexpression 0).bind fun consequence consequence' _ ↦ ?_
  -- No colon stands before the first bracket.
  refine .of_error (.bind (.of_elementary (.expect _)) fun _ ↦
    .bind (hnested _) fun _ ↦ .pure _) fun session copy hlink ↦ ?_
  have hkind : copy.cursor.kind ≠ .symbol .colon := by
    intro heq
    have hcounting := hlink.1.isCounting
    rw [heq] at hcounting
    cases hcounting
  have hoverflow : copy.overflow = none := Numbered.tied.overflow hlink
  exact ⟨_, _, bind_of_error (expect_of_ne hkind) _, hoverflow⟩

include hnested hexpression in
theorem shadows_continuation (least : Nat) (left left' : Phrase .expression) :
    Shadows Numbered Numbered (Option.map isInteger) (continuation scope least left)
      (continuation scope least left') := by
  have halike : Alike scope scope (continuation scope least left)
      (continuation scope least left) := alike_continuation least left
  refine .of_branch (halike.sticky hnested) fun session copy hlink ↦ ?_
  obtain ⟨hsame, hgoes⟩ := Continuation.of_numbered hlink
  have hlook {session : Session} {found : Option Continuation}
      (h : Continuation.at? session.cursor.toPlace = found) :
      look Continuation.at? session = .ok found session := by rw [look, h]
  have hpure : Shadows Numbered Numbered (Option.map isInteger) (pure none) (pure none) :=
    .pure rfl fun _ _ hlink ↦ ⟨Numbered.tied.overflow hlink, hlink⟩
  cases hat : Continuation.at? copy.cursor.toPlace with
  | none =>
    exact ⟨_, _, _, bind_of_ok (hlook (hsame.trans hat)) _, bind_of_ok (hlook hat) _, hlink, hpure⟩
  | some taken =>
    have hrun (left : Phrase .expression) {session : Session}
        (h : Continuation.at? session.cursor.toPlace = some taken) :
        continuation scope least left session = (if taken.level < least then pure none
          else some <$> phraseFrom left.span.start (taken.draft scope left)) session :=
      bind_of_ok (hlook h) _
    refine ⟨_, _, fun session copy ↦ Numbered session copy ∧ copy.cursor.kind.isBorder = false,
      hrun left (hsame.trans hat), hrun left' hat, ⟨hlink, (hgoes _ hat).1⟩, ?_⟩
    by_cases hlevel : taken.level < least
    · rw [if_pos hlevel, if_pos hlevel]
      exact hpure.weaken (fun _ _ hlink ↦ hlink.1) fun _ _ ↦ id
    · rw [if_neg hlevel, if_neg hlevel]
      refine .map isInteger (.phraseFrom integerView Numbered.tied (fun _ _ _ _ h ↦ h) ?_)
        (fun _ _ ↦ Numbered.tied.overflow) fun _ _ ↦ congrArg some
      rcases (hgoes _ hat).2 with rfl | ⟨operator, rfl⟩
      · exact shadows_ternary hnested hexpression left left'
      · refine shadows_operandBehind hexpression (fun session copy hlink ↦ ?_) _ fun _ _ ↦ rfl
        exact hlink.1.pass hlink.2

include hscope hnested hexpression in
theorem shadows_expression (least : Nat) :
    Shadows (Abreast Open) Numbered isInteger (expression scope least)
      (expression scope least) := by
  refine (shadows_operand hscope hnested hexpression).bind fun first first' hfirst ↦ ?_
  refine .iterate isInteger Numbered.tied (hscope.loops (.expression least)) (fun value ↦ ?_)
    (fun value value' _ ↦ shadows_continuation hnested hexpression least value value') hfirst
  have halike : Alike scope scope (iterate (continuation scope least) value)
      (iterate (continuation scope least) value) :=
    .iterate (.expression least) (alike_continuation least) value
  exact halike.sticky hnested

/-! ### The two attempts -/

include hexpression in
theorem shadows_plainSelection :
    Shadows (Abreast Open) Numbered (fun _ ↦ ()) (plainSelection scope) (plainSelection scope) := by
  refine (hexpression 0).bind fun _ _ _ ↦ .of_error (.bind (.of_elementary (.expect _)) fun _ ↦
    .pure _) fun session copy hlink ↦ ?_
  have hkind : copy.cursor.kind ≠ .endOfInput := by
    intro heq
    have hcounting := hlink.1.isCounting
    rw [heq] at hcounting
    cases hcounting
  have hoverflow : copy.overflow = none := Numbered.tied.overflow hlink
  exact ⟨_, _, bind_of_error (expect_of_ne hkind) _, hoverflow⟩

include hexpression in
theorem shadows_leadingConstraint :
    Shadows (Abreast Open) Numbered (fun _ ↦ ()) (leadingConstraint scope)
      (leadingConstraint scope) := by
  refine (hexpression 0).bind fun constraint constraint' hinteger ↦ ?_
  have hpure (value value' : Phrase .expression) :
      Shadows Numbered Numbered (fun _ ↦ ()) (pure value) (pure value') :=
    .pure rfl fun _ _ hlink ↦ ⟨Numbered.tied.overflow hlink, hlink⟩
  refine .check Numbered.tied (fun _ _ hlink ↦ by rw [hlink.1.kind_eq_counted]) ?_ ?_
  · exact (hpure _ _).weaken (fun _ _ hlink ↦ hlink.1) fun _ _ ↦ id
  refine .look Numbered.tied Eq (fun _ ↦ rfl) (fun _ _ hlink ↦ by rw [hlink.1.kind_eq_counted]) ?_
  rintro isBang _ rfl
  have hchoice : Shadows Numbered Numbered (fun _ ↦ ())
      (checkAny structuralStart >>= fun hasChildren ↦
        if hasChildren && !(isBang && isInteger constraint) then pure constraint
        else fail .unexpected)
      (checkAny structuralStart >>= fun hasChildren ↦
        if hasChildren && !(isBang && isInteger constraint') then pure constraint'
        else fail .unexpected) := by
    refine .checkAny Numbered.tied (fun _ _ hlink ↦ by rw [hlink.1.kind_eq_counted])
      fun hasChildren ↦ ?_
    rw [hinteger]
    split
    · exact hpure _ _
    · refine .of_error (.of_elementary (.fail _ rfl)) fun session copy hlink ↦ ?_
      have hoverflow : copy.overflow = none := Numbered.tied.overflow hlink
      exact ⟨_, _, rfl, hoverflow⟩
  exact hchoice.weaken (fun _ _ hlink ↦ hlink.1) fun _ _ ↦ id

end Shadows

end Grammar

end CorpusQuery
