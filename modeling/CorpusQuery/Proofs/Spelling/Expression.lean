import CorpusQuery.Proofs.Spelling.Atom

/-!
Expressions in a copy. What an expression reads next depends on up to three tokens, and in the copy
these are the same up to synonyms. The only place where a symbol and its word differ is behind an
operand, where a star multiplies and its word does not; there the star was read as an operator, and
so it is printed as one.
-/

set_option autoImplicit false
set_option relaxedAutoImplicit false

namespace CorpusQuery

open CorpusQuery.Parser

/-- A scope whose expressions and loops are mirrored by every copy. -/
structure Scope.Expressive (scope : Scope) : Prop where
  progressive : scope.Progressive
  expression : ∀ least session, Mirrors session Plain Plain [] Tree.bare (scope.expression least)
    (scope.expression least) Phrase.wordings
  loop : ∀ session, Mirrors session Plain Plain [] Tree.bare scope.loop scope.loop Phrase.wordings

namespace Grammar

variable {scope : Scope} {session : Session}

/-! ### Lists of expressions -/

theorem mirrors_expressionsUntil (hs : scope.Expressive) {close : Kind}
    (hclose : close.isMark = true) :
    Mirrors session Plain Plain [] (List.map Tree.bare) (expressionsUntil scope close)
      (expressionsUntil scope close)
      fun items ↦ listed [.sign .comma] Phrase.wordings items ++ [.lexeme close ""] := by
  refine (Mirrors.plain_separatedBy hs.progressive .expression rfl (hs.expression 0)).bind ?_
  intro items items' _ hitems
  exact (Mirrors.plain_expect hclose).bind fun _ _ _ _ ↦ .done rfl hitems

theorem mirrors_optionalExpressionsUntil (hs : scope.Expressive) {close : Kind}
    (hclose : close.isMark = true) :
    Mirrors session Plain Plain [] (List.map Tree.bare) (optionalExpressionsUntil scope close)
      (optionalExpressionsUntil scope close)
      fun items ↦ listed [.sign .comma] Phrase.wordings items ++ [.lexeme close ""] := by
  refine .plain_consume_then hclose (fun _ ↦ ?_) fun _ ↦ ?_
  · exact .done rfl rfl
  · exact mirrors_expressionsUntil hs hclose

theorem mirrors_listItems (hs : scope.Expressive) :
    Mirrors session Plain Plain [] (List.map Tree.bare) (listItems scope) (listItems scope)
      fun items ↦ .sign .leftBrace ::
        (listed [.sign .comma] Phrase.wordings items ++ [.sign .rightBrace]) := by
  refine (Mirrors.plain_expect rfl).bind fun _ _ _ _ ↦ ?_
  exact (mirrors_optionalExpressionsUntil hs rfl).onto fun _ ↦ rfl

/-! ### Operands -/

theorem lookup_valueTypes {kind : Kind} {type : ValueType} :
    valueTypes.lookup kind = some type ↔ kind = .keyword type.keyword := by
  refine ⟨fun h ↦ ?_, fun h ↦ ?_⟩
  · obtain ⟨before, after, heq, -⟩ := List.lookup_eq_some_iff.mp h
    have hmem : (kind, type) ∈ valueTypes := heq ▸ List.mem_append_right _ List.mem_cons_self
    have hrows : ∀ row ∈ valueTypes, row.1 = .keyword row.2.keyword := by decide
    exact hrows _ hmem
  · rw [h]
    cases type <;> rfl

theorem primary_ne_ok_of_other (h : session.cursor.kind.isOther = true) (value : Draft .expression)
    (last : Session) : primary scope session ≠ .ok value last := by
  unfold Kind.isOther at h
  split at h
  case h_5 => cases h
  all_goals
    rename_i hkind
    rw [primary, bind_of_ok (show look Place.kind session = .ok _ session by rw [look, hkind])]
    intro hrun
    cases hrun

/-- What a literal or a name depends on besides its first token. -/
def NextAgrees (kind next next' : Kind) : Prop :=
  (kind = .identifier → (next = .symbol .doubleColon ↔ next' = .symbol .doubleColon)) ∧
    ∀ type : ValueType, kind = .keyword type.keyword →
      (next = .symbol .leftBracket ↔ next' = .symbol .leftBracket)

theorem nextAgrees_of_ready {copy : Session} {later : List Wording}
    (hready : Ready session copy later) (hsettled : Settled later)
    (hspells : Spells later session.rest) (hclosing : Closing session.rest) :
    NextAgrees session.cursor.kind (session.cursor.peekKind 1) (copy.cursor.peekKind 1) := by
  have hagree {first second : Kind} (h : session.cursor.kind = first)
      (hfirst : first.isSynonym = false) (hleads : first.leadsArgument = false)
      (hsecond : second.isSynonym = false) (hend : second ≠ .endOfInput) :
      session.cursor.peekKind 1 = second ↔ copy.cursor.peekKind 1 = second := by
    have htwo := hready.two_kinds hsettled hspells hclosing hfirst hsecond hend
      fun h ↦ absurd (hleads.symm.trans h) nofun
    have hcopy : copy.cursor.kind = first := by
      have hother : session.cursor.here.kind.isOther = false :=
        (congrArg Kind.isOther h).trans (Kind.of_isSynonym hfirst).1
      exact ((hready.kin hsettled hspells).eq_of_other hother).trans h
    rwa [and_iff_right h, and_iff_right hcopy] at htwo
  refine ⟨fun h ↦ hagree h rfl rfl rfl nofun, fun type h ↦ hagree h ?_ ?_ rfl nofun⟩
  all_goals cases type <;> rfl

/-- A literal or a name, by its first token and the kind behind it. -/
theorem mirrors_primary (hs : scope.Expressive) :
    Mirrors session Plain Plain [] Draft.bare (primary scope) (primary scope) Draft.wordings := by
  by_cases hother : session.cursor.kind.isOther = true
  · exact .of_error (primary_ne_ok_of_other hother)
  rw [Bool.not_eq_true] at hother
  refine .look_same (fun copy later _ hspells h hready ↦
    ((hready.kin h.toSettled hspells).eq_of_other hother).symm) ?_
  refine .look (NextAgrees session.cursor.kind) ⟨fun _ ↦ .rfl, fun _ _ ↦ .rfl⟩
    (fun copy later hclosing hspells h hready ↦
      nextAgrees_of_ready hready h.toSettled hspells hclosing) ?_
  intro next' hnext
  generalize hkind : session.cursor.kind = kind at hnext ⊢
  split
  · exact (Mirrors.plain_advance hkind rfl).bind fun _ _ _ _ ↦ .done rfl rfl
  · exact (Mirrors.plain_advance hkind rfl).bind fun _ _ _ _ ↦ .done rfl rfl
  · exact (Mirrors.plain_advance hkind rfl).bind fun _ _ _ _ ↦ .done rfl rfl
  · exact (mirrors_numeral fun _ _ ↦ .number).bind_same fun _ _ ↦ .done rfl rfl
  · exact (mirrors_numeral fun _ _ ↦ .number).bind_same fun _ _ ↦ .done rfl rfl
  · refine (Mirrors.plain_advance_text hkind rfl).bind fun _ _ _ htext ↦ .done rfl ?_
    rw [htext]
  · refine (mirrors_listItems hs).bind fun _ _ _ hitems ↦ .done ?_ ?_
    · simp [Draft.wordings, Form.layout]
    · simp [Draft.bare, Tree.bare, hitems]
  · exact mirrors_variableName.bind_same fun _ _ ↦ .done rfl rfl
  · exact mirrors_memberName.bind_same fun _ _ ↦ .done rfl rfl
  · refine (Mirrors.plain_advance_text hkind rfl).bind_of_run fun token token' last hrun htext ↦ ?_
    cases hrun
    have hcolon := hnext.1 rfl
    by_cases hqualified : session.cursor.peekKind 1 = .symbol .doubleColon
    · rw [if_pos hqualified, if_pos (hcolon.mp hqualified)]
      have hkind' := (Session.kind_passed session).trans hqualified
      refine (Mirrors.plain_advance hkind' rfl).bind fun _ _ _ _ ↦ ?_
      refine mirrors_identifier.bind_same fun _ _ ↦ .done rfl ?_
      rw [htext]
    · rw [if_neg hqualified, if_neg fun h ↦ hqualified (hcolon.mpr h)]
      exact .done rfl (by rw [htext])
  · split
    · rename_i type htype hlist
      have hword := lookup_valueTypes.mp htype
      rw [htype, (hnext.2 type hword).mp hlist]
      refine (Mirrors.plain_advance (hkind.trans hword) ?_).bind_of_run fun _ _ _ hrun _ ↦ ?_
      · cases type <;> rfl
      cases hrun
      have hkind' := (Session.kind_passed session).trans hlist
      refine (Mirrors.plain_advance hkind' rfl).bind fun _ _ _ _ ↦ ?_
      refine (Mirrors.plain_expect rfl).bind fun _ _ _ _ ↦ ?_
      refine (mirrors_listItems hs).bind fun _ _ _ hitems ↦ .done ?_ ?_
      · simp [Draft.wordings, Form.layout, Wording.word, Wording.sign]
      · simp [Draft.bare, Tree.bare, hitems]
    · exact .of_error fun _ _ h ↦ by cases h

theorem castAt?_eq_some {place : Place} {type : ValueType} :
    castAt? place = some type ↔ place.kind = .symbol .leftParen ∧
      place.peekKind 1 = .keyword type.keyword ∧ place.peekKind 2 = .symbol .rightParen := by
  unfold castAt?
  split
  · rename_i h
    rw [lookup_valueTypes]
    exact ⟨fun htype ↦ ⟨h.1, htype, h.2⟩, fun h ↦ h.2.1⟩
  · rename_i h
    exact ⟨nofun, fun hcast ↦ absurd ⟨hcast.1, hcast.2.2⟩ h⟩

theorem castAt?_of_ready {copy : Session} {later : List Wording} (hready : Ready session copy later)
    (hsettled : Settled later) (hspells : Spells later session.rest)
    (hclosing : Closing session.rest) :
    castAt? session.cursor.toPlace = castAt? copy.cursor.toPlace := by
  refine Option.ext fun type ↦ ?_
  rw [castAt?_eq_some, castAt?_eq_some]
  refine hready.three_kinds hsettled hspells hclosing rfl ?_ rfl nofun (fun _ ↦ ?_) fun h ↦ ?_
  · cases type <;> rfl
  · cases type <;> rfl
  · cases type <;> cases h

theorem mirrors_castTo (hs : scope.Expressive) {type : ValueType}
    (h : castAt? session.cursor.toPlace = some type) :
    Mirrors session Plain Plain [] Draft.bare (castTo scope type) (castTo scope type)
      Draft.wordings := by
  obtain ⟨hopen, htype, hclose⟩ := castAt?_eq_some.mp h
  refine (Mirrors.plain_advance hopen rfl).bind_of_run fun _ _ _ hrun _ ↦ ?_
  cases hrun
  have hkind := (Session.kind_passed session).trans htype
  refine (Mirrors.plain_advance hkind ?_).bind_of_run fun _ _ _ hrun _ ↦ ?_
  · cases type <;> rfl
  cases hrun
  have hkind' := (Session.kind_passed _).trans ((Session.peekKind_passed _ _).trans hclose)
  refine (Mirrors.plain_advance hkind' rfl).bind fun _ _ _ _ ↦ ?_
  refine (hs.expression castOperandLevel _).bind fun _ _ _ hoperand ↦ .done ?_ ?_
  · simp [Draft.wordings, Form.layout, Wording.word, Wording.sign]
  · simp [Draft.bare, Tree.bare, hoperand]

theorem UnaryOperator.says_wording {token : Token} {operator : UnaryOperator}
    (h : unaryOperator? token.kind = some operator) : operator.wording.Says token := by
  unfold unaryOperator? at h
  split at h
  all_goals rename_i hkind
  all_goals cases h
  · exact Wording.says_choice (.inl hkind)
  · exact Wording.says_choice (.inr hkind)
  · exact Wording.says_mark hkind rfl
  · exact Wording.says_mark hkind rfl

theorem mirrors_unary (hs : scope.Expressive) {operator : UnaryOperator}
    (h : unaryOperator? session.cursor.kind = some operator) :
    Mirrors session Plain Plain [] Draft.bare (unary scope operator) (unary scope operator)
      Draft.wordings := by
  have hbefore (later : List Wording) (hlater : Plain later) :
      Plain (operator.wording :: later) := by
    cases operator <;> exact .cons hlater.toSettled rfl nofun nofun
  have hend : session.cursor.kind ≠ .endOfInput := by
    intro heq
    rw [heq] at h
    cases h
  refine (Mirrors.advance (UnaryOperator.says_wording h) hend hbefore).bind fun _ _ _ _ ↦ ?_
  refine (hs.expression unaryOperandLevel _).bind fun _ _ _ hoperand ↦ .done ?_ ?_
  · simp [Draft.wordings, Form.layout]
  · simp [Draft.bare, Tree.bare, hoperand]

theorem mirrors_wrapping (hs : scope.Expressive) (h : session.cursor.kind = .symbol .leftParen) :
    Mirrors session Plain Plain [] Draft.bare (wrapping scope) (wrapping scope)
      Draft.wordings := by
  refine (Mirrors.plain_advance h rfl).bind fun _ _ _ _ ↦ ?_
  refine (hs.expression 0 _).bind fun _ _ _ hinner ↦ ?_
  refine (Mirrors.plain_expect rfl).bind fun _ _ _ _ ↦ .done ?_ ?_
  · simp [Draft.wordings, Form.layout, Wording.sign]
  · simp [Draft.bare, Tree.bare, hinner]

/-- What an operand depends on besides a cast. -/
def operandView (kind : Kind) : Option UnaryOperator × Bool × Bool :=
  (unaryOperator? kind, kind == .symbol .leftParen, kind == .keyword .foreach)

theorem mirrors_operand (hs : scope.Expressive) :
    Mirrors session Plain Plain [] Tree.bare (operand scope) (operand scope) Phrase.wordings := by
  refine .phrase (.look_same (fun copy later hclosing hspells h hready ↦
    castAt?_of_ready hready h.toSettled hspells hclosing) ?_)
  cases hcast : castAt? session.cursor.toPlace with
  | some type => exact mirrors_castTo hs hcast
  | none =>
    refine .look (fun kind kind' ↦ operandView kind = operandView kind') rfl
      (fun copy later _ hspells h hready ↦ h.kind_eq operandView ?_ hspells hready.printed) ?_
    · rintro (_ | _ | _ | _) _ <;> rfl
    intro kind' hview
    rw [operandView, operandView, Prod.mk.injEq, Prod.mk.injEq] at hview
    obtain ⟨hunary, hparen, hforeach⟩ := hview
    rw [← hunary]
    cases hoperator : unaryOperator? session.cursor.kind with
    | some operator => exact mirrors_unary hs hoperator
    | none =>
      simp only [← beq_iff_eq (a := session.cursor.kind), ← beq_iff_eq (a := kind'), ← hparen,
        ← hforeach]
      split
      · rename_i h
        exact mirrors_wrapping hs (beq_iff_eq.mp h)
      · split
        · refine (hs.loop _).bind fun _ _ _ hloop ↦ .done ?_ ?_
          · simp [Draft.wordings, Form.layout]
          · simp [Draft.bare, Tree.bare, hloop]
        · exact mirrors_primary hs

/-! ### Continuations -/

namespace Continuation

theorem isUniversal_of_kin {token token' : Token} (h : Kin token token') :
    isUniversal token.kind = isUniversal token'.kind :=
  h.view_eq isUniversal (by rintro (_ | _ | _ | _) <;> rfl)

theorem isNegation_of_kin {token token' : Token} (h : Kin token token') :
    isNegation token.kind = isNegation token'.kind :=
  h.view_eq isNegation (by rintro (_ | _ | _ | _) <;> rfl)

theorem isIn_of_kin {token token' : Token} (h : Kin token token') :
    (token.kind == .keyword .inKw) = (token'.kind == .keyword .inKw) :=
  h.view_eq (· == .keyword .inKw) (by rintro (_ | _ | _ | _) <;> rfl)

theorem leadsArgument_of_isUniversal {kind : Kind} (h : isUniversal kind = true) :
    kind.leadsArgument = false := by
  rw [isUniversal, Bool.or_eq_true, beq_iff_eq, beq_iff_eq] at h
  rcases h with rfl | rfl <;> rfl

theorem leadsArgument_of_isNegation {kind : Kind} (h : isNegation kind = true) :
    kind.leadsArgument = false := by
  rw [isNegation, Bool.or_eq_true, beq_iff_eq, beq_iff_eq] at h
  rcases h with rfl | rfl <;> rfl

/-- A set predicate follows in the copy exactly if one follows in the tokens. -/
theorem atSetPredicate_of_ready {copy : Session} {later : List Wording}
    (hready : Ready session copy later) (hsettled : Settled later)
    (hspells : Spells later session.rest) :
    atSetPredicate session.cursor.toPlace = atSetPredicate copy.cursor.toPlace := by
  have hkin := hready.kin hsettled hspells
  have hkin₁ := hready.kin_one hsettled hspells
  have hkin₂ := hready.kin_two hsettled hspells
  have hzero (place : Place) : place.peekKind 0 = place.kind :=
    congrArg Token.kind (Place.along_zero _ _)
  have huniversal : isUniversal session.cursor.kind = isUniversal copy.cursor.kind :=
    isUniversal_of_kin hkin
  have hnegation : isNegation session.cursor.kind = isNegation copy.cursor.kind :=
    isNegation_of_kin hkin
  unfold atSetPredicate
  rw [huniversal]
  cases hall : isUniversal copy.cursor.kind with
  | false =>
    simp only [Bool.false_eq_true, if_false, hzero, hnegation]
    cases hnot : isNegation copy.cursor.kind with
    | false =>
      rw [if_neg Bool.false_ne_true, hzero, hzero]
      exact isIn_of_kin hkin
    | true => exact isIn_of_kin (hkin₁ (leadsArgument_of_isNegation hnot))
  | true =>
    have hkin₁ := hkin₁ (leadsArgument_of_isUniversal hall)
    have hnegation₁ :
        isNegation (session.cursor.peekKind 1) = isNegation (copy.cursor.peekKind 1) :=
      isNegation_of_kin hkin₁
    simp only [if_true, hnegation₁]
    cases hnot : isNegation (copy.cursor.peekKind 1) with
    | false => exact isIn_of_kin hkin₁
    | true =>
      exact isIn_of_kin
        (hkin₂ (leadsArgument_of_isUniversal hall) (leadsArgument_of_isNegation hnot))

/-- Calls and accesses follow the same kinds of tokens in the copy. -/
theorem follows_of_ready {copy : Session} {later : List Wording} (kinds : KindSet)
    (hready : Ready session copy later) (hkinds : ∀ synonym : Synonym,
      kinds.contains synonym.other = false ∧ kinds.contains synonym.usual = false) :
    follows copy.cursor.toPlace kinds = follows session.cursor.toPlace kinds := by
  have hcanonical (kind : Kind) : kinds.contains kind.canonical = kinds.contains kind := by
    unfold Kind.canonical
    split
    · exact (hkinds .negation).2.trans (hkinds .negation).1.symm
    · exact (hkinds .universal).2.trans (hkinds .universal).1.symm
    · exact (hkinds .disjunction).2.trans (hkinds .disjunction).1.symm
    · exact (hkinds .conjunction).2.trans (hkinds .conjunction).1.symm
    · rfl
  have hfollows (session : Session) :
      follows session.cursor.toPlace kinds = session.previous.any kinds.contains := by
    rw [follows, Session.previous, Option.any_map]
    congr
    funext kind
    exact (hcanonical kind).symm
  rw [hfollows, hfollows, hready.previous]

/-- The continuation in the copy is the one in the tokens, unless a star stands for its word. -/
theorem at?_of_ready {copy : Session} {later : List Wording} (hready : Ready session copy later)
    (hplain : Plain later) (hspells : Spells later session.rest) :
    at? copy.cursor.toPlace = at? session.cursor.toPlace ∨
      at? copy.cursor.toPlace = none ∧ at? session.cursor.toPlace = some (.binary .multiply) ∧
        later.head? = some (.choice .universal) := by
  have hcall := follows_of_ready callable hready (by rintro (_ | _ | _ | _) <;> decide)
  have hlist := follows_of_ready listAccessible hready (by rintro (_ | _ | _ | _) <;> decide)
  have hannotation :=
    follows_of_ready annotationAccessible hready (by rintro (_ | _ | _ | _) <;> decide)
  have hset := atSetPredicate_of_ready hready hplain.toSettled hspells
  unfold at?
  rw [hcall, hlist, hannotation, hset]
  cases atSetPredicate copy.cursor.toPlace with
  | true => exact .inl rfl
  | false =>
    rcases hplain.alias_head hspells hready.printed with heq | ⟨synonym, hhead, hother, husual⟩
    · have hkind : session.cursor.kind = copy.cursor.kind := heq
      exact .inl (by rw [hkind])
    · have hother' : session.cursor.kind = synonym.other := hother
      have husual' : copy.cursor.kind = synonym.usual := husual
      rw [hother', husual']
      cases synonym with
      | negation => exact .inl rfl
      | universal => exact .inr ⟨rfl, rfl, hhead⟩
      | disjunction => exact .inl rfl
      | conjunction => exact absurd rfl (hplain.head_ne _ hhead)

/-- The kinds of token with which a continuation begins, set predicates aside. -/
def Opens (kind : Kind) : Continuation → Prop
  | .path => kind = .symbol .dot
  | .call => kind = .symbol .leftParen
  | .listAccess => kind = .symbol .leftBracket
  | .annotationAccess => kind = .symbol .leftBrace
  | .binary operator => binaryOperator? kind = some operator
  | .assignment => kind = .keyword .asKw
  | .setPredicate => True
  | .ternary => kind = .symbol .question

theorem opens_of_at? {place : Place} {continuation : Continuation}
    (h : at? place = some continuation) : continuation.Opens place.kind := by
  unfold at? at h
  split at h
  · cases h
    trivial
  · split at h
    · cases h
      assumption
    · split at h <;> cases h
      assumption
    · split at h <;> cases h
      assumption
    · split at h <;> cases h
      assumption
    · cases h
      assumption
    · cases h
      assumption
    · obtain ⟨operator, hoperator, rfl⟩ := Option.map_eq_some_iff.mp h
      exact hoperator

end Continuation

theorem BinaryOperator.says_wording {token : Token} {operator : BinaryOperator}
    (h : binaryOperator? token.kind = some operator) : operator.wording.Says token := by
  unfold binaryOperator? at h
  split at h
  case h_23 =>
    cases h
    exact Wording.says_choice (.inl ‹_›)
  case h_24 =>
    cases h
    exact Wording.says_choice (.inr ‹_›)
  all_goals cases h
  all_goals exact Wording.says_mark ‹_› rfl

theorem mirrors_target : Mirrors session Plain Plain [] id target target
    fun target ↦ [target.wording] := by
  by_cases hother : session.cursor.kind.isOther = true
  · refine .of_error fun value last ↦ ?_
    unfold Kind.isOther at hother
    split at hother
    case h_5 => cases hother
    all_goals
      rename_i hkind
      rw [target, bind_of_ok (show look Place.kind session = .ok _ session by rw [look, hkind])]
      intro hrun
      cases hrun
  rw [Bool.not_eq_true] at hother
  refine .look_same (fun copy later _ hspells h hready ↦
    ((hready.kin h.toSettled hspells).eq_of_other hother).symm) ?_
  split
  · exact mirrors_variableName.map (fun _ ↦ rfl) fun _ _ hname ↦ congrArg Target.variableName hname
  · exact mirrors_memberName.map (fun _ ↦ rfl) fun _ _ hname ↦ congrArg Target.memberName hname
  · exact .of_error fun _ _ h ↦ by cases h

section Draft

variable {left left' : Phrase .expression}

theorem mirrors_binary (hs : scope.Expressive) (hleft : left.bare = left'.bare)
    {operator : BinaryOperator} (h : binaryOperator? session.cursor.kind = some operator) :
    Mirrors session (fun later ↦ Plain later ∧ later.head? ≠ some (.choice .universal)) Plain
      left.wordings Draft.bare ((Continuation.binary operator).draft scope left)
      ((Continuation.binary operator).draft scope left') Draft.wordings := by
  have hbefore (later : List Wording) (hlater : Plain later) :
      Plain (operator.wording :: later) ∧
        (operator.wording :: later).head? ≠ some (.choice .universal) := by
    cases operator <;> exact ⟨.cons hlater.toSettled rfl nofun nofun, nofun⟩
  have hend : session.cursor.kind ≠ .endOfInput := by
    intro heq
    rw [heq] at h
    cases h
  refine (Mirrors.advance (BinaryOperator.says_wording h) hend hbefore).bind fun _ _ _ _ ↦ ?_
  refine (hs.expression _ _).bind fun _ _ _ hright ↦ .done ?_ ?_
  · simp [Draft.wordings, Form.layout]
  · simp [Draft.bare, Tree.bare, hleft, hright]

theorem mirrors_path (hleft : left.bare = left'.bare) (h : session.cursor.kind = .symbol .dot) :
    Mirrors session Plain Plain left.wordings Draft.bare (Continuation.path.draft scope left)
      (Continuation.path.draft scope left') Draft.wordings := by
  have hname (session : Session) : Mirrors session
      (fun later ↦ ∃ name others, later = .lexeme .identifier name :: others ∧ Settled others)
      Plain [] id identifier identifier fun name ↦ [.lexeme .identifier name] :=
    (Mirrors.expect_text rfl fun name others hothers ↦ ⟨name, others, rfl, hothers.toSettled⟩).map
      (fun _ ↦ rfl) fun _ _ ↦ id
  refine (Mirrors.advance_mark h nofun rfl ?_).bind fun _ _ _ _ ↦
    (hname _).bind_same fun _ _ ↦ .done ?_ ?_
  · rintro _ ⟨name, others, rfl, hothers⟩
    exact .dot hothers
  · simp [Draft.wordings, Form.layout, Wording.sign]
  · simp [Draft.bare, Tree.bare, hleft]

theorem mirrors_setPredicate (hs : scope.Expressive) (hleft : left.bare = left'.bare) :
    Mirrors session Plain Plain left.wordings Draft.bare
      (Continuation.setPredicate.draft scope left) (Continuation.setPredicate.draft scope left')
      Draft.wordings := by
  have heither (synonym : Synonym) (hsynonym : synonym ≠ .conjunction) (session : Session) :
      Mirrors session Plain Plain [] id (consumeEither synonym.usual synonym.other)
        (consumeEither synonym.usual synonym.other)
        fun found ↦ Wording.when found (.choice synonym) :=
    .consumeEither (fun _ h ↦ h.toSettled)
      (fun _ h ↦ .cons h.toSettled rfl nofun fun heq ↦ hsynonym (Wording.choice.inj heq)) fun _ ↦ id
  refine (heither .universal nofun _).bind_same fun _ _ ↦ ?_
  refine (heither .negation nofun _).bind_same fun _ _ ↦ ?_
  refine (Mirrors.plain_expect rfl).bind fun _ _ _ _ ↦ ?_
  refine (hs.expression _ _).bind fun _ _ _ hset ↦ .done ?_ ?_
  · simp [Draft.wordings, Form.layout, Wording.word]
  · simp [Draft.bare, Tree.bare, hleft, hset]

theorem mirrors_draft (hs : scope.Expressive) (hleft : left.bare = left'.bare)
    {continuation : Continuation} (h : continuation.Opens session.cursor.kind) :
    Mirrors session Plain Plain left.wordings Draft.bare (continuation.draft scope left)
      (continuation.draft scope left') Draft.wordings := by
  cases continuation with
  | path => exact mirrors_path hleft h
  | call =>
    refine (Mirrors.plain_advance h rfl).bind fun _ _ _ _ ↦ ?_
    refine (mirrors_optionalExpressionsUntil hs rfl).bind fun _ _ _ harguments ↦ .done ?_ ?_
    · simp [Draft.wordings, Form.layout, Wording.sign]
    · simp [Draft.bare, Tree.bare, hleft, harguments]
  | listAccess =>
    refine (Mirrors.plain_advance h rfl).bind fun _ _ _ _ ↦ ?_
    refine (mirrors_expressionsUntil hs rfl).bind fun _ _ _ hindices ↦ .done ?_ ?_
    · simp [Draft.wordings, Form.layout, Wording.sign]
    · simp [Draft.bare, Tree.bare, hleft, hindices]
  | annotationAccess =>
    refine (Mirrors.plain_advance h rfl).bind fun _ _ _ _ ↦ ?_
    refine (mirrors_expressionsUntil hs rfl).bind fun _ _ _ hkeys ↦ .done ?_ ?_
    · simp [Draft.wordings, Form.layout, Wording.sign]
    · simp [Draft.bare, Tree.bare, hleft, hkeys]
  | binary operator => exact (mirrors_binary hs hleft h).weaken (fun _ h ↦ h.1) fun _ ↦ id
  | assignment =>
    refine (Mirrors.plain_advance h rfl).bind fun _ _ _ _ ↦ ?_
    refine (Mirrors.plain_consume rfl).bind_same fun _ _ ↦ ?_
    refine mirrors_target.bind_same fun _ _ ↦ .done ?_ ?_
    · simp [Draft.wordings, Form.layout, Wording.word]
    · simp [Draft.bare, Tree.bare, hleft]
  | setPredicate => exact mirrors_setPredicate hs hleft
  | ternary =>
    refine (Mirrors.plain_advance h rfl).bind fun _ _ _ _ ↦ ?_
    refine (hs.expression _ _).bind fun _ _ _ hconsequence ↦ ?_
    refine (Mirrors.plain_expect rfl).bind fun _ _ _ _ ↦ ?_
    refine (hs.expression _ _).bind fun _ _ _ halternative ↦ .done ?_ ?_
    · simp [Draft.wordings, Form.layout, Wording.sign]
    · simp [Draft.bare, Tree.bare, hleft, hconsequence, halternative]

/-- The wordings ahead are such that a continuation follows in every copy. -/
def Continuation.Recurs (session : Session) (continuation : Continuation) (later : List Wording) :
    Prop :=
  Plain later ∧ ∀ copy, Spells later session.rest → Ready session copy later →
    Continuation.at? copy.cursor.toPlace = some continuation

/-- A continuation that is read in the tokens is there in every copy. -/
theorem mirrors_taken (hs : scope.Expressive) (hleft : left.bare = left'.bare)
    {continuation : Continuation}
    (h : Continuation.at? session.cursor.toPlace = some continuation) :
    Mirrors session (continuation.Recurs session) Plain left.wordings Draft.bare
      (continuation.draft scope left) (continuation.draft scope left') Draft.wordings := by
  have hopens := Continuation.opens_of_at? h
  by_cases hmultiply : continuation = .binary .multiply
  · subst hmultiply
    refine (mirrors_binary hs hleft hopens).weaken (fun later hlater ↦ ⟨hlater.1, ?_⟩) fun _ ↦ id
    intro copy hspells hready
    rcases Continuation.at?_of_ready hready hlater.1 hspells with heq | ⟨-, -, hhead⟩
    · exact heq.trans h
    · exact absurd hhead hlater.2
  · refine (mirrors_draft hs hleft hopens).weaken (fun later hlater ↦ ⟨hlater, ?_⟩) fun _ ↦ id
    intro copy hspells hready
    rcases Continuation.at?_of_ready hready hlater hspells with heq | ⟨-, heq, -⟩
    · exact heq.trans h
    · exact absurd (Option.some.inj (h.symm.trans heq)) hmultiply

theorem mirrors_continuation (hs : scope.Expressive) (least : Nat)
    (hleft : left.bare = left'.bare) :
    Mirrors session Plain Plain left.wordings (Option.map Tree.bare)
      (continuation scope least left) (continuation scope least left')
      fun next? ↦ Phrase.wordings (next?.getD left) := by
  cases h : Continuation.at? session.cursor.toPlace with
  | none =>
    refine .look_same (fun copy later _ hspells hlater hready ↦ ?_) ?_
    · rcases Continuation.at?_of_ready hready hlater hspells with heq | ⟨-, heq, -⟩
      · exact heq.symm
      · exact absurd (h.symm.trans heq) nofun
    · rw [h]
      exact .done rfl rfl
  | some taken =>
    by_cases hlevel : taken.level < least
    · refine .look (fun _ found ↦ found = none ∨ found = some taken) (.inr h)
        (fun copy later _ hspells hlater hready ↦ ?_) fun found hfound ↦ ?_
      · rcases Continuation.at?_of_ready hready hlater hspells with heq | ⟨hnone, -⟩
        · exact .inr (heq.trans h)
        · exact .inl hnone
      · rw [h]
        rcases hfound with rfl | rfl
        · simp only [if_pos hlevel]
          exact .done rfl rfl
        · simp only [if_pos hlevel]
          exact .done rfl rfl
    · have htaken : Mirrors session (taken.Recurs session) Plain left.wordings
          (Option.map Tree.bare) (continuation scope least left) (continuation scope least left')
          fun next? ↦ Phrase.wordings (next?.getD left) := by
        refine .look_same (fun copy later _ hspells hlater hready ↦ ?_) ?_
        · exact h.trans (hlater.2 copy hspells hready).symm
        · rw [h]
          simp only [if_neg hlevel]
          exact (Mirrors.phraseFrom (mirrors_taken hs hleft h)).map (fun _ ↦ rfl)
            fun _ _ hview ↦ congrArg some hview
      exact htaken.weaken (fun _ hlater ↦ hlater.1) fun _ ↦ id

end Draft

theorem mirrors_expression (hs : scope.Expressive) (least : Nat) :
    Mirrors session Plain Plain [] Tree.bare (expression scope least) (expression scope least)
      Phrase.wordings := by
  refine (mirrors_operand hs).bind fun first first' _ hfirst ↦ ?_
  exact .iterate Tree.bare Phrase.wordings (hs.progressive.loops (.expression least))
    (fun _ _ _ hleft ↦ mirrors_continuation hs least hleft) hfirst

/-! ### Loops -/

theorem mirrors_boundedRange (hs : scope.Expressive) :
    Mirrors session Plain Plain [] Tree.bare (boundedRange scope) (boundedRange scope)
      Phrase.wordings := by
  refine .phrase ((Mirrors.plain_expect rfl).bind fun _ _ _ _ ↦ ?_)
  refine (hs.expression 0 _).bind fun _ _ _ hlower ↦ ?_
  refine (Mirrors.plain_expect rfl).bind fun _ _ _ _ ↦ ?_
  refine (hs.expression 0 _).bind fun _ _ _ hupper ↦ ?_
  refine (Mirrors.plain_expect rfl).bind fun _ _ _ _ ↦ .done ?_ ?_
  · simp [Draft.wordings, Form.layout, Wording.sign]
  · simp [Draft.bare, Tree.bare, hlower, hupper]

theorem mirrors_parity? : Mirrors session Plain Plain [] id parity? parity?
    fun parity ↦ parity.toList.map Parity.wording := by
  refine .plain_consume_then rfl (fun _ ↦ .done rfl rfl) fun _ ↦ ?_
  refine (Mirrors.plain_consume rfl).bind_same fun odd _ ↦ .done ?_ rfl
  cases odd <;> rfl

theorem mirrors_loopControl (hs : scope.Expressive) :
    Mirrors session Plain Plain [] Tree.bare (loopControl scope) (loopControl scope)
      Phrase.wordings := by
  refine .phrase (mirrors_parity?.bind_same fun _ _ ↦ ?_)
  refine (Mirrors.plain_behind rfl (hs.expression 0)).bind fun _ _ _ homit ↦ ?_
  refine (Mirrors.plain_behind rfl fun _ ↦ mirrors_boundedRange hs).bind fun _ _ _ hrange ↦ ?_
  refine (Mirrors.plain_behind rfl fun _ ↦ mirrors_boundedRange hs).bind fun _ _ _ hstep ↦ ?_
  refine (Mirrors.plain_behind rfl (hs.expression 0)).bind fun _ _ _ haction ↦ ?_
  refine (Mirrors.plain_expect rfl).bind fun _ _ _ _ ↦ .done ?_ ?_
  · simp [Draft.wordings, Form.layout, Wording.word]
  · simp [Draft.bare, Tree.bare, homit, hrange, hstep, haction]

theorem mirrors_counted (hs : scope.Expressive) :
    Mirrors session Plain Plain [] (Prod.map Tree.bare id) (counted scope) (counted scope)
      fun counted ↦ Phrase.wordings counted.1 ++
        [.word .asKw, .lexeme .variableName counted.2] := by
  refine (hs.expression _ _).bind fun _ _ _ hsource ↦ ?_
  refine (Mirrors.plain_expect rfl).bind fun _ _ _ _ ↦ ?_
  refine mirrors_variableName.bind_same fun _ _ ↦ .done ?_ ?_
  · simp [Wording.word]
  · simp [hsource]

theorem mirrors_counter (hs : scope.Expressive) :
    Mirrors session Plain Plain [] Tree.bare (counter scope) (counter scope) Phrase.wordings := by
  refine .phrase ((mirrors_counted hs).bind fun counted counted' _ hcounted ↦ .done ?_ ?_)
  · simp [Draft.wordings, Form.layout]
  · obtain ⟨hconstraint, hname⟩ := Prod.mk.inj hcounted
    simp_all [Draft.bare, Tree.bare]

theorem mirrors_counters (hs : scope.Expressive) :
    Mirrors session Plain Plain [] (List.map Tree.bare) (counters scope) (counters scope)
      (led [.word .count] [.sign .comma] Phrase.wordings) := by
  refine .plain_consume_then rfl (fun _ ↦ ?_) fun _ ↦ .done rfl rfl
  exact .plain_led hs.progressive .counter rfl fun _ ↦ mirrors_counter hs

theorem mirrors_loop (hs : scope.Expressive) :
    Mirrors session Plain Plain [] Tree.bare (loop scope) (loop scope) Phrase.wordings := by
  refine .phrase ((Mirrors.plain_expect rfl).bind fun _ _ _ _ ↦ ?_)
  refine (mirrors_counted hs).bind fun counted counted' _ hcounted ↦ ?_
  refine (mirrors_loopControl hs).bind fun _ _ _ hcontrol ↦ ?_
  refine (mirrors_counters hs).bind fun counters counters' _ hcounters ↦ .done ?_ ?_
  · simp [Draft.wordings, Form.layout, Wording.word, Tree.write_many_led]
  · obtain ⟨hsource, hname⟩ := Prod.mk.inj hcounted
    simp_all [Draft.bare, Tree.bare]

end Grammar

end CorpusQuery
