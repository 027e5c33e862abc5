import CorpusQuery.Proofs.Spelling.Atom

/-!
Quantifiers in a copy. A statement about nodes opens with a few words, numbers and symbols before
its first bracket (`Region`), and among them a number is never followed by a token that has a
synonym. Whether a group follows is found out by reading a quantifier and going back; where a
quantifier was read in the tokens, the copy has one as well, with the same bracket or brace behind
it.
-/

set_option autoImplicit false
set_option relaxedAutoImplicit false

namespace CorpusQuery

open CorpusQuery.Parser

/-! ### The words before the first bracket -/

/-- The tokens at which the words before the first bracket end. -/
def Kind.isBorder : Kind → Bool
  | .symbol .leftBracket | .symbol .rightBracket | .keyword .lane => true
  | _ => false

/-- The tokens without a text and without a synonym that may stand before the first bracket. -/
def Kind.isOpener : Kind → Bool
  | .keyword .first | .keyword .hits | .keyword .disjoint | .keyword .consecutive
  | .keyword .reverse | .keyword .rooted | .keyword .unordered | .keyword .ordered
  | .keyword .adjacent | .symbol .less | .symbol .greater | .symbol .pipe | .symbol .doubleDot
  | .symbol .question | .symbol .bang | .symbol .caret | .symbol .plus | .symbol .minus
  | .symbol .leftBrace => true
  | _ => false

/-- The two pairs of synonyms with which a quantifier may begin. -/
def Synonym.isQuantifier : Synonym → Bool
  | .negation | .universal => true
  | .disjunction | .conjunction => false

/-- No quantifier without a number begins here. -/
def Unquantified (wordings : List Wording) : Prop :=
  ∀ synonym : Synonym, synonym.isQuantifier = true → wordings.head? ≠ some (.choice synonym)

/-- Wordings that begin with what may stand before the first bracket of a statement about nodes. -/
inductive Region : List Wording → Prop
  | border {kind : Kind} {later : List Wording} (hkind : kind.isBorder = true) :
      Region (.lexeme kind "" :: later)
  | opener {kind : Kind} {later : List Wording} (hkind : kind.isOpener = true) (h : Region later) :
      Region (.lexeme kind "" :: later)
  | digits {text : String} {later : List Wording} (hnext : Unquantified later) (h : Region later) :
      Region (.lexeme .pureDigits text :: later)
  | choice {synonym : Synonym} {later : List Wording} (hsynonym : synonym.isQuantifier = true)
      (h : Region later) : Region (.choice synonym :: later)

/-- The wordings of a statement about nodes. -/
structure Open (wordings : List Wording) : Prop extends Plain wordings where
  region : Region wordings

namespace Open

variable {later : List Wording}

theorem border {kind : Kind} (h : Plain later) (hkind : kind.isBorder = true) :
    Open (.lexeme kind "" :: later) :=
  ⟨.lexeme h.toSettled (by rintro rfl; cases hkind), .border hkind⟩

theorem opener {kind : Kind} (h : Open later) (hkind : kind.isOpener = true) :
    Open (.lexeme kind "" :: later) :=
  ⟨.lexeme h.toSettled (by rintro rfl; cases hkind), .opener hkind h.region⟩

theorem digits {text : String} (h : Open later) (hnext : Unquantified later) :
    Open (.lexeme .pureDigits text :: later) :=
  ⟨.lexeme h.toSettled nofun, .digits hnext h.region⟩

theorem choice {synonym : Synonym} (h : Open later) (hsynonym : synonym.isQuantifier = true) :
    Open (.choice synonym :: later) := by
  refine ⟨.cons h.toSettled rfl nofun ?_, .choice hsynonym h.region⟩
  intro heq
  obtain rfl := Wording.choice.inj heq
  cases hsynonym

end Open

/-- The wordings behind a number of a quantifier. -/
structure Counted (wordings : List Wording) : Prop extends Open wordings where
  unquantified : Unquantified wordings

namespace Counted

variable {later : List Wording}

theorem opener {kind : Kind} (h : Open later) (hkind : kind.isOpener = true) :
    Counted (.lexeme kind "" :: later) :=
  ⟨h.opener hkind, nofun⟩

theorem border {kind : Kind} (h : Plain later) (hkind : kind.isBorder = true) :
    Counted (.lexeme kind "" :: later) :=
  ⟨.border h hkind, nofun⟩

end Counted

theorem Kind.of_isOpener {kind : Kind} (h : kind.isOpener = true) :
    kind.hasText = false ∧ kind ≠ .endOfInput ∧ kind.isUsual = false := by
  unfold isOpener at h
  split at h
  iterate 19 exact ⟨rfl, nofun, rfl⟩
  cases h

theorem Kind.ne_pureDigits_of_isBorder {kind : Kind} (h : kind.isBorder = true) :
    kind ≠ .pureDigits := by
  rintro rfl
  cases h

/-- Digits before the first bracket are the same in the copy. -/
theorem Region.digits_eq {later : List Wording} {token token' : Token} {rest rest' : List Token}
    (h : Region later) (hspells : Spells later (token :: rest))
    (hprinted : Printed later (token' :: rest')) (hkind : token.kind = .pureDigits) :
    token'.kind = .pureDigits ∧ token'.text = token.text := by
  cases h with
  | @digits text later _ _ =>
    obtain ⟨_, _, heq, htoken, -⟩ := hspells.lexeme
    obtain ⟨_, _, heq', htoken', -⟩ := hprinted.single rfl
    cases heq
    cases heq'
    obtain ⟨-, htext⟩ := Token.of_lexeme_eq rfl htoken
    obtain ⟨hkind', htext'⟩ := Token.of_lexeme_eq rfl htoken'
    exact ⟨hkind', htext'.trans htext.symm⟩
  | border hborder =>
    obtain ⟨_, _, heq, htoken, -⟩ := hspells.lexeme
    cases heq
    exact absurd (hkind ▸ congrArg Lexeme.kind htoken) (Kind.ne_pureDigits_of_isBorder hborder).symm
  | opener hopener _ =>
    obtain ⟨_, _, heq, htoken, -⟩ := hspells.lexeme
    cases heq
    obtain rfl := hkind.symm.trans (congrArg Lexeme.kind htoken)
    cases hopener
  | choice hsynonym _ =>
    obtain ⟨_, _, heq, htoken, -⟩ := hspells.choice
    cases heq
    rw [hkind] at htoken
    rcases htoken with htoken | htoken <;> rename_i synonym _ _ <;> cases synonym <;> cases htoken

namespace Parser.Mirrors

variable {α δ : Type} {session : Session} {kind : Kind}

/-- A token before the first bracket that may be there. -/
theorem consume_opener (hkind : kind.isOpener = true) :
    Mirrors session Open Open [] id (Parser.consume kind) (Parser.consume kind)
      fun found ↦ Wording.when found (.lexeme kind "") := by
  obtain ⟨htext, hend, husual⟩ := Kind.of_isOpener hkind
  exact consume hend htext (fun _ h ↦ h.toSettled.reads husual) (fun _ h ↦ h.opener hkind)
    fun _ ↦ id

/-- The first number of a quantifier, or the second one of a range. -/
theorem expect_digits :
    Mirrors session Open Counted [] Token.text (Parser.expect .pureDigits)
      (Parser.expect .pureDigits) fun token ↦ [.lexeme .pureDigits token.text] :=
  expect_text rfl fun _ _ h ↦ h.digits h.unquantified

theorem advance_digits (h : session.cursor.kind = .pureDigits) :
    Mirrors session Open Counted [] Token.text Parser.advance Parser.advance
      fun token ↦ [.lexeme .pureDigits token.text] :=
  advance_text h rfl fun _ _ h ↦ h.digits h.unquantified

/-- A token before the first bracket that has to be there. -/
theorem expect_opener (hkind : kind.isOpener = true) :
    Mirrors session Counted Open [] (fun _ ↦ ()) (Parser.expect kind) (Parser.expect kind)
      fun _ ↦ [.lexeme kind ""] := by
  obtain ⟨htext, hend, -⟩ := Kind.of_isOpener hkind
  exact expect_mark hend htext fun _ h ↦ .opener h hkind

/-- A token behind a number of a quantifier that may be there. -/
theorem consume_counted (hkind : kind.isOpener = true) :
    Mirrors session Counted Counted [] id (Parser.consume kind) (Parser.consume kind)
      fun found ↦ Wording.when found (.lexeme kind "") := by
  obtain ⟨htext, hend, husual⟩ := Kind.of_isOpener hkind
  exact consume hend htext (fun _ h ↦ h.toSettled.reads husual)
    (fun _ h ↦ .opener h.toOpen hkind) fun _ ↦ id

theorem consume_counted_then {sofar : List Wording} {view : α → δ} {wordings : α → List Wording}
    {next next' : Bool → Parser α} (hkind : kind.isOpener = true)
    (hyes : ∀ last, Mirrors last Open Counted (sofar ++ [.lexeme kind ""]) view (next true)
      (next' true) wordings)
    (hno : ∀ last, Mirrors last Counted Counted sofar view (next false) (next' false) wordings) :
    Mirrors session Counted Counted sofar view (Parser.consume kind >>= next)
      (Parser.consume kind >>= next') wordings := by
  obtain ⟨htext, hend, husual⟩ := Kind.of_isOpener hkind
  exact consume_then hend htext (fun _ h ↦ h.toSettled.reads husual) (fun _ h ↦ .opener h hkind)
    hyes hno

end Parser.Mirrors

namespace Grammar

variable {scope : Scope} {session : Session}

/-! ### Quantifiers -/

theorem mirrors_greed {possessive : Symbol}
    (hpossessive : (Kind.symbol possessive).isOpener = true) :
    Mirrors session Counted Counted [] id (greed (.symbol possessive))
      (greed (.symbol possessive)) (Greed.wordings possessive) := by
  refine .consume_counted_then rfl (fun _ ↦ ?_) fun _ ↦ ?_
  · exact .pure rfl rfl fun _ h ↦ h.toOpen
  · refine (Mirrors.consume_counted hpossessive).bind_same fun found _ ↦ .done ?_ rfl
    cases found <;> rfl

/-- The suffixes of a count. -/
theorem mirrors_suffixes {sofar : List Wording}
    {count : Greed → Bool → Draft .simpleQuantifier} (hcount : ∀ greed discontinuous,
      (count greed discontinuous).wordings =
        sofar ++ greed.wordings .bang ++ Wording.when discontinuous (.sign .caret)) :
    Mirrors session Counted Counted sofar Draft.bare
      (do
        let greed ← greed (.symbol .bang)
        let discontinuous ← consume (.symbol .caret)
        pure (count greed discontinuous))
      (do
        let greed ← greed (.symbol .bang)
        let discontinuous ← consume (.symbol .caret)
        pure (count greed discontinuous)) Draft.wordings := by
  refine (mirrors_greed rfl).bind_same fun _ _ ↦ ?_
  exact (Mirrors.consume_counted rfl).bind_same fun _ _ ↦ .done (hcount _ _) rfl

/-- A count or a range of counts, from behind its first digits on. -/
theorem mirrors_countFrom (low : String) :
    Mirrors session Counted Counted [.lexeme .pureDigits low] Draft.bare (countFrom low)
      (countFrom low) Draft.wordings := by
  refine .consume_counted_then rfl (fun _ ↦ ?_) fun _ ↦ ?_
  · refine Mirrors.expect_digits.bind fun high high' _ hhigh ↦ ?_
    rw [hhigh]
    refine mirrors_suffixes fun _ _ ↦ ?_
    simp [Draft.wordings, Form.layout, Wording.sign]
  · refine .consume_counted_then rfl (fun _ ↦ ?_) fun _ ↦ ?_
    · simp only [if_true, pure_bind]
      refine (mirrors_suffixes fun _ _ ↦ ?_).weaken (fun _ h ↦ h.toOpen) fun _ ↦ id
      simp [Draft.wordings, Form.layout, Wording.sign, Bound.wording]
    · simp only [Bool.false_eq_true, if_false]
      refine (Mirrors.consume_counted rfl).bind_same fun atMost _ ↦ mirrors_suffixes fun _ _ ↦ ?_
      cases atMost <;> simp [Draft.wordings, Form.layout, Wording.when, Wording.sign, Bound.wording]

/-- What a simple quantifier depends on. -/
def quantifierView (kind : Kind) : Bool × Bool × Bool :=
  (kind == .keyword .not || kind == .symbol .bang, kind == .keyword .all || kind == .symbol .star,
    kind == .pureDigits)

/-- A token that begins a quantifier of the same sort as another one. -/
structure Sorted (token token' : Token) : Prop where
  view : quantifierView token.kind = quantifierView token'.kind
  text : token.kind = .pureDigits → token'.text = token.text

theorem mirrors_noneOf (h : session.cursor.kind = .keyword .not ∨
      session.cursor.kind = .symbol .bang) :
    Mirrors session Open Counted [] Draft.bare
      (advance >>= fun _ ↦ pure ⟨.noneOf, .nil⟩) (advance >>= fun _ ↦ pure ⟨.noneOf, .nil⟩)
      Draft.wordings := by
  have hword : (Wording.choice .negation).Says session.cursor.here := Wording.says_choice h
  have hend : session.cursor.kind ≠ .endOfInput := by
    rcases h with h | h <;> rw [h] <;> nofun
  refine (Mirrors.advance hword hend fun _ hlater ↦ Open.choice hlater rfl).bind fun _ _ _ _ ↦ ?_
  exact .pure rfl rfl fun _ hlater ↦ hlater.toOpen

theorem mirrors_allOf (h : session.cursor.kind = .keyword .all ∨
      session.cursor.kind = .symbol .star) :
    Mirrors session Open Counted [] Draft.bare
      (advance >>= fun _ ↦ greed (.symbol .plus) >>= fun greed ↦ pure ⟨.allOf greed, .nil⟩)
      (advance >>= fun _ ↦ greed (.symbol .plus) >>= fun greed ↦ pure ⟨.allOf greed, .nil⟩)
      Draft.wordings := by
  have hword : (Wording.choice .universal).Says session.cursor.here := Wording.says_choice h
  have hend : session.cursor.kind ≠ .endOfInput := by
    rcases h with h | h <;> rw [h] <;> nofun
  refine (Mirrors.advance hword hend fun _ hlater ↦ Open.choice hlater rfl).bind fun _ _ _ _ ↦ ?_
  refine ((mirrors_greed rfl).weaken (fun _ ↦ Counted.toOpen) fun _ ↦ id).bind_same fun _ _ ↦ ?_
  exact .done (by simp [Draft.wordings, Form.layout]) rfl

theorem mirrors_simpleQuantifier :
    Mirrors session Open Counted [] Tree.bare simpleQuantifier simpleQuantifier
      Phrase.wordings := by
  refine .phrase (.look Sorted ⟨rfl, fun _ ↦ rfl⟩ (fun copy later _ hspells h hready ↦ ?_) ?_)
  · refine ⟨h.toSettled.kind_eq quantifierView ?_ hspells hready.printed, fun hkind ↦ ?_⟩
    · rintro (_ | _ | _ | _) <;> rfl
    · exact (h.region.digits_eq hspells hready.printed hkind).2
  intro first' hfirst
  obtain ⟨hview, htext⟩ := hfirst
  generalize hkind : session.cursor.here.kind = kind at hview htext ⊢
  generalize first'.kind = kind' at hview ⊢
  have hview' : quantifierView kind' = quantifierView kind := hview.symm
  split
  · obtain rfl | rfl : kind' = .keyword .not ∨ kind' = .symbol .bang := by
      simpa [quantifierView] using congrArg Prod.fst hview'
    · exact mirrors_noneOf (.inl hkind)
    · exact mirrors_noneOf (.inl hkind)
  · obtain rfl | rfl : kind' = .keyword .not ∨ kind' = .symbol .bang := by
      simpa [quantifierView] using congrArg Prod.fst hview'
    · exact mirrors_noneOf (.inr hkind)
    · exact mirrors_noneOf (.inr hkind)
  · obtain rfl | rfl : kind' = .keyword .all ∨ kind' = .symbol .star := by
      simpa [quantifierView] using congrArg (·.2.1) hview'
    · exact mirrors_allOf (.inl hkind)
    · exact mirrors_allOf (.inl hkind)
  · obtain rfl | rfl : kind' = .keyword .all ∨ kind' = .symbol .star := by
      simpa [quantifierView] using congrArg (·.2.1) hview'
    · exact mirrors_allOf (.inr hkind)
    · exact mirrors_allOf (.inr hkind)
  · obtain rfl : kind' = .pureDigits := by
      simpa [quantifierView] using congrArg (·.2.2) hview'
    rw [htext rfl]
    refine (Mirrors.advance_digits hkind).bind_of_run fun _ _ _ hrun _ ↦ ?_
    cases hrun
    exact mirrors_countFrom _
  · exact .of_error fun _ _ h ↦ by cases h

theorem mirrors_quantifier (hscope : scope.Progressive) :
    Mirrors session Open Counted [] Tree.bare quantifier quantifier Phrase.wordings := by
  refine .phrase ((Mirrors.consume_opener rfl).bind_same fun bounded _ ↦ ?_)
  refine (Mirrors.separatedBy hscope .simpleQuantifier nofun rfl
    (fun _ h ↦ (Counted.toOpen h).toSettled.reads rfl) (fun _ h ↦ .opener h rfl)
    fun _ ↦ mirrors_simpleQuantifier).bind fun alternatives alternatives' _ halternatives ↦ ?_
  cases bounded with
  | true =>
    rw [if_pos rfl, if_pos rfl]
    refine (Mirrors.expect_opener rfl).bind fun _ _ _ _ ↦ .pure ?_ ?_ fun _ h ↦ h.toOpen
    · simp [Draft.wordings, Form.layout, Wording.when, Wording.sign]
    · simp [Draft.bare, Tree.bare, halternatives]
  | false =>
    refine .done ?_ ?_
    · simp [Draft.wordings, Form.layout, Wording.when, Wording.sign]
    · simp [Draft.bare, Tree.bare, halternatives]

/-! ### Groups -/

theorem still_answered {after : Session} (h : after.overflow = session.overflow) :
    session.Still (answered session after) := by
  refine ⟨?_, h⟩
  rw [answered, Cursor.toPlace_expecting, Cursor.toPlace_rewind]

/-- The session in which the question for a group reads a quantifier. -/
def groupTested (session : Session) : Session :=
  (session.tested (.single (.symbol .leftBrace))).tested quantifierStart

theorem still_groupTested (session : Session) : session.Still (groupTested session) :=
  (Session.Still.tested _ _).trans (.tested _ _)

theorem atGrouping_of_check {found : Bool}
    (h : (session.cursor.kind == .symbol .leftBrace) = found) :
    atGrouping session = (if found then pure true else
      checkAny quantifierStart >>= fun isQuantifier ↦
        if isQuantifier then
          lookahead (quantifier >>= fun _ ↦ look (·.kind == .symbol .leftBrace))
        else pure false) (session.tested (.single (.symbol .leftBrace))) := by
  subst h
  rfl

theorem atGrouping_of_checkAny {found : Bool}
    (h : (session.cursor.kind == .symbol .leftBrace) = false)
    (hstart : quantifierStart.contains session.cursor.kind = found) :
    atGrouping session = (if found then
        lookahead (quantifier >>= fun _ ↦ look (·.kind == .symbol .leftBrace))
      else pure false) (groupTested session) := by
  rw [atGrouping_of_check h]
  subst hstart
  rfl

theorem lookahead_quantifier (session : Session) :
    ∃ answer after, after.overflow = session.overflow ∧
      (∀ value last, quantifier session = .ok value last →
        answer = (last.cursor.kind == .symbol .leftBrace)) ∧
      lookahead (quantifier >>= fun _ ↦ look (·.kind == .symbol .leftBrace)) session =
        .ok answer (answered session after) := by
  have hoverflow := Alike.overflow_eq alike_quantifier session
  cases hrun : quantifier session with
  | ok value last =>
    rw [leave_of_ok hrun] at hoverflow
    refine ⟨_, last, hoverflow, ?_, lookahead_of_ok (bind_of_ok hrun _)⟩
    rintro _ _ ⟨⟩
    rfl
  | error failure failed =>
    rw [leave_of_error hrun] at hoverflow
    refine ⟨false, failed, hoverflow, ?_, lookahead_of_error (bind_of_error hrun _)⟩
    rintro _ _ ⟨⟩

/-- The question for a group is always answered, and the session stays where it is. -/
theorem atGrouping_still (session : Session) :
    ∃ answer asked, atGrouping session = .ok answer asked ∧ session.Still asked := by
  cases hbrace : session.cursor.kind == .symbol .leftBrace with
  | true => exact ⟨_, _, atGrouping_of_check hbrace, .tested _ _⟩
  | false =>
    cases hstart : quantifierStart.contains session.cursor.kind with
    | true =>
      obtain ⟨answer, after, hoverflow, -, hrun⟩ := lookahead_quantifier (groupTested session)
      exact ⟨answer, _, (atGrouping_of_checkAny hbrace hstart).trans hrun,
        (still_groupTested session).trans (still_answered hoverflow)⟩
    | false => exact ⟨_, _, atGrouping_of_checkAny hbrace hstart, still_groupTested session⟩

/-- Wordings ahead of a session such that every copy gives the same answer to the question whether a
group follows. -/
structure Grouped (answer : Bool) (session : Session) (wordings : List Wording) : Prop
    extends Open wordings where
  answers : ∀ copy, Ready session copy wordings →
    ∃ asked, atGrouping copy = .ok answer asked ∧ copy.Still asked

theorem Grouped.of_still {answer : Bool} {other : Session} {later : List Wording}
    (hstill : session.Still other) (h : Grouped answer other later) :
    Grouped answer session later :=
  ⟨h.toOpen, fun copy hready ↦ h.answers copy (hstill.ready (.refl copy) hready)⟩

/-- The symbols behind the quantifier of a node and of a group. -/
def isBracket (symbol : Symbol) : Bool := symbol == .leftBracket || symbol == .leftBrace

theorem kind_of_head {symbol : Symbol} {later : List Wording}
    (hhead : later.head? = some (.sign symbol)) (hprinted : Printed later session.rest) :
    session.cursor.kind = .symbol symbol := by
  obtain ⟨others, rfl⟩ := List.head?_eq_some_iff.mp hhead
  obtain ⟨token, rest, hrest, htoken⟩ := hprinted.first
  obtain ⟨rfl, -⟩ := List.cons.inj hrest
  exact htoken

/-- No quantifier is read before a bracket or a brace. -/
theorem grouped_of_bracket {symbol : Symbol} (hsymbol : isBracket symbol = true)
    {later : List Wording} (h : Open later) (hhead : later.head? = some (.sign symbol)) :
    Grouped (symbol == .leftBrace) session later := by
  refine ⟨h, fun copy hready ↦ ?_⟩
  have hkind := kind_of_head hhead hready.printed
  rw [isBracket, Bool.or_eq_true, beq_iff_eq, beq_iff_eq] at hsymbol
  rcases hsymbol with rfl | rfl
  · have hbrace : (copy.cursor.kind == .symbol .leftBrace) = false := by
      rw [hkind]
      rfl
    have hstart : quantifierStart.contains copy.cursor.kind = false := by
      rw [hkind]
      decide
    exact ⟨_, atGrouping_of_checkAny hbrace hstart, still_groupTested copy⟩
  · have hbrace : (copy.cursor.kind == .symbol .leftBrace) = true := by
      rw [hkind]
      rfl
    exact ⟨_, atGrouping_of_check hbrace, .tested _ _⟩

/-- A quantifier before a bracket or a brace, if there is one, and the answer that the copies give
to the question whether a group follows. -/
theorem mirrors_quantifier?_of_bracket (hscope : scope.Progressive) {symbol : Symbol}
    (hsymbol : isBracket symbol = true) :
    Mirrors session (Grouped (symbol == .leftBrace) session)
      (fun later ↦ Counted later ∧ later.head? = some (.sign symbol)) [] (Option.map Tree.bare)
      quantifier? quantifier? fun quantifier? ↦ quantifier?.elim [] Phrase.wordings := by
  refine .checkAny (by decide) (fun _ h ↦ h.toPlain) ?_
  cases hstart : quantifierStart.contains session.cursor.kind with
  | false =>
    exact .pure rfl rfl fun _ h ↦ grouped_of_bracket hsymbol h.1.toOpen h.2
  | true =>
    have hread : Mirrors (session.tested quantifierStart) Open
        (fun later ↦ Counted later ∧ later.head? = some (.sign symbol)) [] Tree.bare quantifier
        quantifier Phrase.wordings :=
      (mirrors_quantifier hscope).weaken (fun _ ↦ id) fun _ h ↦ h.1
    rw [if_pos rfl]
    refine .weaken (hread.reads.map (fun _ ↦ rfl) fun _ _ h ↦ congrArg some h) ?_ fun _ ↦ id
    rintro ahead ⟨hopen, hspells, hcopies⟩
    refine ⟨hopen, fun copy hready ↦ ?_⟩
    have hstart' : quantifierStart.contains copy.cursor.kind = true :=
      (hopen.contains_eq (by decide) hspells hready.printed).symm.trans hstart
    have hbrace : (copy.cursor.kind == .symbol .leftBrace) = false := by
      refine beq_false_of_ne fun heq ↦ ?_
      rw [heq] at hstart'
      cases hstart'
    obtain ⟨value, last, later, hrun, ⟨-, hhead⟩, hprinted⟩ :=
      hcopies (groupTested copy) ((Session.Still.tested _ _).ready (still_groupTested copy) hready)
    obtain ⟨answer, after, hoverflow, hanswer, hlookahead⟩ :=
      lookahead_quantifier (groupTested copy)
    refine ⟨_, ?_, (still_groupTested copy).trans (still_answered hoverflow)⟩
    have hsame : (Kind.symbol symbol == .symbol .leftBrace) = (symbol == .leftBrace) := by
      rw [Bool.eq_iff_iff, beq_iff_eq, beq_iff_eq, Kind.symbol.injEq]
    rw [atGrouping_of_checkAny hbrace hstart', if_pos rfl, hlookahead, hanswer value last hrun,
      kind_of_head hhead hprinted, hsame]

end Grammar

end CorpusQuery
