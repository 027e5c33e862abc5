import CorpusQuery.Proofs.Acceptance.HonestExpression

/-!
Quantifiers, markers and labels are honest. A missing quantifier lists two kinds with which no
simple quantifier begins (`Grammar.openers`); the one place at which they mislead is behind one of
the two, and there the second list has neither (`Grammar.not_openers_of_previous`). A sign wants its
number without a gap, and what the second list has at the fork touches the token before it
(`Grammar.touches_right`).
-/

set_option autoImplicit false
set_option relaxedAutoImplicit false

namespace CorpusQuery

open CorpusQuery.Parser CorpusQuery.Grammar CorpusQuery.Fork

namespace Grammar

variable {fork : Fork} {scope : Scope} {stray : Stray} {given : Place → Prop}

/-! ### Quantifiers -/

section Quantifiers

theorem honest_greed {possessive : Kind} (hend : possessive ≠ .endOfInput) :
    Honest fork stray given unseen (greed possessive) (greed possessive) :=
  .consume_then (by nofun) (.pure rfl) ((Honest.consume hend).finish fun _ _ _ ↦ rfl)

theorem honest_countFrom (low : String) :
    Honest fork stray given unseen (countFrom low) (countFrom low) := by
  refine .consume_then (by nofun) ?_ (.consume_then (by nofun) ?_ ?_)
  · exact (Honest.expect (by nofun)).bind fun _ _ _ ↦ (honest_greed (by nofun)).bind fun _ _ _ ↦
      (Honest.consume (by nofun)).finish fun _ _ _ ↦ rfl
  · exact (honest_greed (by nofun)).bind fun _ _ _ ↦
      (Honest.consume (by nofun)).finish fun _ _ _ ↦ rfl
  · exact (Honest.consume (by nofun)).bind fun _ _ _ ↦ (honest_greed (by nofun)).bind
      fun _ _ _ ↦ (Honest.consume (by nofun)).finish fun _ _ _ ↦ rfl

/-- The kinds with which a simple quantifier begins. -/
def simpleQuantifierStart : KindSet :=
  .ofList [.keyword .not, .symbol .bang, .keyword .all, .symbol .star, .pureDigits]

/-- The kinds that a missing quantifier lists although none begins with them. -/
def openers : KindSet := .ofList [.symbol .less, .symbol .pipe]

/-- What a missing quantifier lists is what one begins with, and the openers. -/
theorem contains_missing (kind : Kind) :
    (quantifierStart ∪ .single (.symbol .pipe)).contains kind =
      (simpleQuantifierStart.contains kind || openers.contains kind) := by
  rw [KindSet.contains_union, quantifierStart, simpleQuantifierStart, openers,
    KindSet.contains_ofList, KindSet.contains_ofList, KindSet.contains_ofList,
    KindSet.contains_single]
  simp only [List.contains_cons, List.contains_nil, Bool.or_false]
  simp only [Bool.or_assoc, Bool.beq_eq_decide_eq]

theorem simpleQuantifier_of_not {session : Session}
    (h : simpleQuantifierStart.contains session.cursor.kind = false) :
    simpleQuantifier session = .error
      ((session.tested (quantifierStart ∪ .single (.symbol .pipe))).cursor.failure
        .missingQuantifier)
      (session.tested (quantifierStart ∪ .single (.symbol .pipe))) := by
  rw [simpleQuantifier, phrase, bind_look]
  refine bind_of_error ?_ _
  rw [bind_look]
  refine congrFun (g := (do
    expecting (quantifierStart ∪ .single (.symbol .pipe))
    fail .missingQuantifier : Parser (Draft .simpleQuantifier))) ?_ session
  change simpleQuantifierStart.contains session.cursor.here.kind = false at h
  generalize session.cursor.here = first at h
  split
  case h_6 => rfl
  all_goals
    rename_i hkind
    rw [hkind] at h
    cases h

theorem crosses_simpleQuantifierStart {verge : Verge} (hv : verge.Scopes scope)
    (h : simpleQuantifierStart.contains verge.kind = true) : verge.Crosses simpleQuantifier := by
  refine Verge.crosses_simpleQuantifier hv ?_ fun hless ↦ ?_
  · rw [simpleQuantifierStart, KindSet.contains_ofList] at h
    rw [quantifierStart, KindSet.contains_ofList]
    simp only [List.contains_cons, List.contains_nil, Bool.or_false, Bool.or_eq_true] at h ⊢
    grind
  · rw [hless] at h
    cases h

theorem here_eq_of_peek {place other : Place} (h : ∀ i < 1, other.peek i = place.peek i) :
    other.here = place.here := by
  have hpeek := h 0 Nat.zero_lt_one
  rwa [Place.peek, Place.peek, Place.along_zero, Place.along_zero] at hpeek

/-- Where the second list has an opener at the fork, something else than a quantifier is due. -/
theorem honest_simpleQuantifier (hs : fork.Scopes scope)
    (hopeners : ∀ place, given place → place.position = fork.left.index →
      openers.contains fork.right.kind = false) :
    Honest fork stray given unseen simpleQuantifier simpleQuantifier := by
  refine .gate (crosses_simpleQuantifierStart hs.left) (crosses_simpleQuantifierStart hs.right)
    (.of_cases ⟨hs.left.alike alike_simpleQuantifier, hs.right.alike alike_simpleQuantifier,
      fun session copy hsessions h ↦ ?_⟩ (.phrase_blind ?_))
  · obtain ⟨hleft, hright⟩ := h.1.2 h.2
    rw [← (hsessions.at_left h.2).kind_eq] at hleft
    have hright' := hright
    rw [← (hsessions.at_right h.2).kind_eq] at hright'
    rw [simpleQuantifier_of_not hleft, simpleQuantifier_of_not hright']
    have htested := hsessions.tested (quantifierStart ∪ .single (.symbol .pipe)) fun _ ↦ by
        rw [contains_missing, hright, hopeners _ h.1.1 h.2, Bool.or_false]
    exact .error (htested.spares_failure _) htested.spared
  · refine .look_same 1 (fun _ _ ↦ here_eq_of_peek) (fun _ h ↦ h.2) fun first ↦ ?_
    have hfirst (place : Place) (h : ((given place ∧ fork.Clear simpleQuantifierStart place) ∧
        fork.Ample 1 place) ∧ place.here = first) : fork.Ample 1 place := h.1.2
    split
    · exact .pass_one hfirst fun _ ↦ .pure rfl
    · exact .pass_one hfirst fun _ ↦ .pure rfl
    · exact .pass_one hfirst fun _ ↦ (honest_greed (by nofun)).finish fun _ _ _ ↦ rfl
    · exact .pass_one hfirst fun _ ↦ (honest_greed (by nofun)).finish fun _ _ _ ↦ rfl
    · exact .pass_one hfirst fun _ ↦ honest_countFrom _
    · exact .expecting_then (fun _ h ↦ h.1.2.clear _) .fail

theorem not_openers_of_previous (hapt : fork.Apt) {kind : Kind} (h : openers.contains kind = true)
    {place : Place} (hbegins : fork.left.start.Begins place)
    (hprevious : place.previousKind? = some kind) (hposition : place.position = fork.left.index) :
    openers.contains fork.right.kind = false := by
  obtain ⟨hkind, hlt⟩ := previous_eq hbegins hposition hprevious
  refine Bool.eq_false_iff.mpr fun hright ↦ ?_
  have hnot : openers.contains fork.previous = false := hapt.quantifier hright hlt
  rw [hkind, h] at hnot
  cases hnot

theorem honest_alternatives (hs : fork.Scopes scope)
    (hfirst : Honest fork Never given unseen simpleQuantifier simpleQuantifier) :
    Honest fork stray given unseen (separatedBy (.symbol .pipe) simpleQuantifier)
      (separatedBy (.symbol .pipe) simpleQuantifier) :=
  (Honest.separatedBy (by nofun) hfirst (.begun (honest_simpleQuantifier hs fun _ h hposition ↦
    not_openers_of_previous hs.apt rfl h.2 h.1 hposition))).blind

theorem honest_quantifier (hs : fork.Scopes scope)
    (hample : ∀ place, given place → fork.Ample 1 place) :
    Honest fork stray given unseen quantifier quantifier := by
  refine .phrase_blind (.consume_then (by nofun) ?_ ?_)
  · refine (honest_alternatives hs (.begun (honest_simpleQuantifier hs fun _ h hposition ↦
      not_openers_of_previous hs.apt rfl h.2 h.1 hposition))).bind fun _ _ _ ↦ ?_
    exact (Honest.expect (by nofun)).finish fun _ _ _ ↦ rfl
  · refine (honest_alternatives hs (honest_simpleQuantifier hs fun place h hposition ↦ ?_)).finish
      fun _ _ _ ↦ rfl
    exact absurd (hample place h.1) (by rw [Ample]; omega)

theorem honest_quantifier? (hs : fork.Scopes scope) :
    Honest fork stray given unseen quantifier? quantifier? := by
  have hcrosses {verge : Verge} (hv : verge.Scopes scope)
      (h : quantifierStart.contains verge.kind = true) :
      verge.Crosses (if true = true then some <$> quantifier else pure none) :=
    (Verge.crosses_quantifier hv h).map
  exact .checkAny_cross (hcrosses hs.left) (hcrosses hs.right)
    ((honest_quantifier hs fun _ h ↦ h.2.1).map fun _ _ _ ↦ rfl) (.pure rfl)

end Quantifiers

/-! ### Markers -/

section Markers

/-- A token of the second list that stands at the fork touches the one before it. -/
theorem touches_right (hapt : fork.Apt) {session copy : Session}
    (hsessions : fork.Sessions session copy) (hpassed : 0 < session.cursor.position)
    (hindex : session.cursor.position = fork.left.index) : copy.cursor.touches 0 = true := by
  have hposition := hsessions.position_eq
  rw [Place.touches]
  cases hbehind : copy.cursor.behind with
  | nil =>
    rw [Place.position, hbehind, List.length_nil] at hposition
    omega
  | cons previous rest =>
    refine beq_iff_eq.mpr ?_
    rw [hsessions.begins_copy.previous_eq hbehind, hsessions.begins_copy.here_eq, hposition, hindex,
      fork.agree _ (by omega)]
    exact hapt.touching (hindex ▸ hpassed)

theorem numeral_of_not_digits {session : Session}
    (h : digitKinds.contains session.cursor.kind = false) :
    numeral session = .error ((session.tested digitKinds).cursor.failure .unexpected)
      (session.tested digitKinds) := by
  have hdecimal : atDecimal session.cursor.toPlace = false := by
    rw [atDecimal, h]
    rfl
  have hinteger : integer session = .error
      ((session.tested digitKinds).cursor.failure .unexpected) (session.tested digitKinds) :=
    bind_of_ok (consumeAny_of_not_contains h) _
  rw [numeral, bind_look, hdecimal, if_neg Bool.false_ne_true, map_eq_pure_bind]
  exact bind_of_error hinteger _

/-- A number behind a sign, which has to touch it. -/
def signed (sign : String) : Parser Numeral := do
  let touching ← look (·.touches 0)
  if touching then
    Numeral.map (sign ++ ·) <$> numeral
  else
    expecting digitKinds
    fail .detachedSign

theorem honest_signed_at (hs : fork.Scopes scope) (sign : String)
    (hpassed : ∀ place, given place → 0 < place.position)
    (hat : ∀ place, given place → place.position = fork.left.index) :
    Honest fork stray given unseen (signed sign) (signed sign) := by
  have halike : Alike scope scope (signed sign) (signed sign) :=
    .bind (.elementary (.look _)) fun _ ↦ .ite (alike_numeral.map _)
      (.bind (.elementary (.expecting _)) fun _ ↦ .elementary (.fail _ rfl))
  refine ⟨hs.left.alike halike, hs.right.alike halike, fun session copy hsessions h ↦ ?_⟩
  have hright := hsessions.at_right (hat _ h)
  rw [signed, bind_look, bind_look, touches_right hs.apt hsessions (hpassed _ h) (hat _ h),
    if_pos rfl]
  cases hdigits : digitKinds.contains fork.right.kind with
  | true => exact .right ((Verge.crosses_numeral hs.right hdigits).map copy hright)
  | false =>
    cases session.cursor.touches 0 with
    | true => exact (honest_numeral.map fun _ _ _ ↦ rfl).ends session copy hsessions h
    | false =>
      have htested := hsessions.tested digitKinds fun _ ↦ hdigits
      have hnumeral := numeral_of_not_digits (show digitKinds.contains copy.cursor.kind = false by
        rw [show copy.cursor.kind = fork.right.kind from hright.kind_eq, hdigits])
      rw [map_eq_pure_bind, bind_of_error hnumeral]
      exact .error (htested.spares_failure _) htested.spared

theorem honest_signed (hs : fork.Scopes scope) (sign : String)
    (hpassed : ∀ place, given place → 0 < place.position) :
    Honest fork stray given unseen (signed sign) (signed sign) := by
  refine .of_cases (honest_signed_at hs sign (fun _ h ↦ hpassed _ h.1) fun _ h ↦ h.2)
    (.look_equal (fun _ _ hsessions h ↦ hsessions.touches_eq h.2) fun touching ↦ .ite ?_ ?_)
  · exact honest_numeral.blind.map fun _ _ _ ↦ rfl
  · exact .expecting_then (fun _ h ↦ h.1.2.clear _) .fail

theorem honest_signedNumeral (hs : fork.Scopes scope) :
    Honest fork stray given unseen signedNumeral signedNumeral :=
  .oneOf_then rfl (fun sign ↦ honest_signed hs sign fun _ h ↦ h) honest_numeral.blind

theorem honest_markerArguments (hs : fork.Scopes scope) :
    Honest fork stray given unseen markerArguments markerArguments := by
  refine .consume_then (by nofun) ?_ (.pure rfl)
  exact (Honest.separatedBy (by nofun) (honest_signedNumeral hs) (honest_signedNumeral hs)).bind
    fun _ _ _ ↦ (Honest.expect (by nofun)).finish fun _ _ _ ↦ rfl

theorem honest_markerOperand (hs : fork.Scopes scope) :
    Honest fork stray given unseen (markerOperand scope) (markerOperand scope) := by
  have hcrosses {verge : Verge} (hv : verge.Scopes scope) (h : verge.kind = .identifier) :
      verge.Crosses (advance >>= fun name ↦ markerArguments >>= fun arguments ↦
        (pure ⟨.markerCall name.text arguments, .nil⟩ : Parser (Draft .marker))) :=
    (Verge.Crosses.advance (h ▸ nofun)).bind fun _ ↦
      hv.alike (.bind alike_markerArguments fun _ ↦ .pure _)
  refine .phrase_blind (.consume_then (by nofun) ?_ ?_)
  · exact (hs.rule (.marker 0) rfl).bind fun _ _ _ ↦ (Honest.expect (by nofun)).finish
      fun _ _ _ ↦ rfl
  · refine .check_cross (hcrosses hs.left) (hcrosses hs.right)
      (.pass_one (fun _ h ↦ h.2.1) fun _ ↦ (honest_markerArguments hs).finish fun _ _ _ ↦ rfl)
      (.failMissing fun place h ↦ ?_)
    refine (h.2.union h.1.2).mono fun kind hkind ↦ ?_
    rw [KindSet.contains_union, KindSet.contains_single, KindSet.contains_single]
    rw [markerStart, KindSet.contains_ofList] at hkind
    simpa using hkind

/-- A marker that goes on with a connective of the level, if the kind at hand is one. -/
def markerBehind (scope : Scope) (least : Nat) (left : Phrase .marker) (kind : Kind) :
    Parser (Option (Phrase .marker)) :=
  match Connective.ofKind? kind with
  | none => pure none
  | some connective =>
    if connective.level < least then
      pure none
    else
      some <$> phraseFrom left.span.start do
        let _ ← advance
        let right ← scope.marker (connective.level + 1)
        pure (connective.draft left right)

theorem markerBehind_eq_none {least : Nat} {kind : Kind}
    (h : ¬ ∃ connective, Connective.ofKind? kind = some connective ∧ ¬ connective.level < least)
    (left : Phrase .marker) : markerBehind scope least left kind = pure none := by
  rw [markerBehind]
  cases hconnective : Connective.ofKind? kind with
  | none => rfl
  | some connective =>
    exact if_pos (not_not.mp fun hlevel ↦ h ⟨connective, hconnective, hlevel⟩)

theorem crosses_markerBehind {verge : Verge} (hv : verge.Scopes scope) {least : Nat}
    {connective : Connective} (hconnective : Connective.ofKind? verge.kind = some connective)
    (hlevel : ¬ connective.level < least) (left : Phrase .marker) :
    verge.Crosses (markerBehind scope least left verge.kind) := by
  rw [markerBehind, hconnective]
  dsimp only
  rw [if_neg hlevel]
  refine ((Verge.Crosses.advance fun hend ↦ ?_).bind fun _ ↦
    hv.alike (.bind (.nested (.marker _)) fun _ ↦ .pure _)).phraseFrom.map
  rw [hend] at hconnective
  cases hconnective

theorem honest_markerContinuation (hs : fork.Scopes scope) (least : Nat)
    (left left' : Phrase .marker) :
    Honest fork stray given (Option.map unseen) (markerContinuation scope least left)
      (markerContinuation scope least left') := by
  change Honest _ _ _ _ (look Place.kind >>= markerBehind scope least left)
    (look Place.kind >>= markerBehind scope least left')
  refine .look_then 1 (fun kind ↦ ∃ connective, Connective.ofKind? kind = some connective ∧
      ¬ connective.level < least)
    (fun _ _ ↦ kind_eq_of_peek) ?_ ?_ (fun kind ↦ ?_) fun kind kind' hkind hkind' ↦ ?_
  · rintro session copy hsessions - hlt ⟨connective, hconnective, hlevel⟩
    have hle := hsessions.position_le
    have hat := hsessions.at_left (by omega)
    rw [hat.kind_eq] at hconnective ⊢
    exact crosses_markerBehind hs.left hconnective hlevel left session hat
  · rintro session copy hsessions - hlt ⟨connective, hconnective, hlevel⟩
    have hle := hsessions.position_le
    have hat := hsessions.at_right (by rw [fork.index_eq, hsessions.position_eq] at hlt; omega)
    rw [hat.kind_eq] at hconnective ⊢
    exact crosses_markerBehind hs.right hconnective hlevel left' copy hat
  · rw [markerBehind, markerBehind]
    cases Connective.ofKind? kind with
    | none => exact .pure rfl
    | some connective =>
      refine .ite (.pure rfl) (.map (.phraseFrom_blind (.pass_one (fun _ h ↦ h.2.1) fun _ ↦ ?_))
        fun _ _ _ ↦ rfl)
      exact (hs.rule (.marker _) rfl).finish fun _ _ _ ↦ rfl
  · rw [markerBehind_eq_none hkind, markerBehind_eq_none hkind']
    exact .pure rfl

theorem honest_marker (hs : fork.Scopes scope) (least : Nat) :
    Honest fork stray given unseen (marker scope least) (marker scope least) :=
  (honest_markerOperand hs).bind fun _ _ _ ↦
    .iterate (fun left left' _ ↦ honest_markerContinuation hs least left left') rfl

end Markers

/-! ### Labels -/

section Labels

/-- The label that a member with a colon behind it is. -/
def labelled (isMember isLabel : Bool) : Parser (Option String) :=
  if isMember && isLabel then do
    let name ← memberName
    let _ ← expect (.symbol .colon)
    pure (some name)
  else
    pure none

theorem label?_bind {β : Type} (next : Option String → Parser β) :
    label? >>= next = check .memberName >>= fun isMember ↦
      look (·.peekKind 1 == .symbol .colon) >>= fun isLabel ↦
        labelled isMember isLabel >>= next := by
  rw [label?, bind_assoc]
  exact bind_congr fun isMember ↦ bind_assoc _ _ _

variable {β ε : Type} {view' : β → ε} {next next' : Option String → Parser β}

/-- A member at the verge is the label, or it is left to what follows. -/
theorem crosses_labelled {verge : Verge} (hv : verge.Scopes scope) (h : verge.kind = .memberName)
    (hnone : verge.Crosses (next none)) (hnext : ∀ label, Aloof verge.coupling (next label)) :
    verge.Crosses (look (·.peekKind 1 == .symbol .colon) >>= fun isLabel ↦
      labelled true isLabel >>= next) := by
  refine .look fun place _ ↦ ?_
  cases place.peekKind 1 == .symbol .colon with
  | false => exact hnone
  | true =>
    exact ((Verge.Crosses.expect h nofun).map.bind fun _ ↦
      hv.alike (.bind (.elementary (.expect _)) fun _ ↦ .pure _)).bind hnext

theorem escapes_labelled {verge : Verge} (hv : verge.Scopes scope)
    (hnext : ∀ label, Aloof verge.coupling (next label)) {session : Session}
    (hbegins : verge.start.Begins session.cursor.toPlace)
    (hindex : session.cursor.position + 1 = verge.index) (hkind : session.cursor.kind = .memberName)
    (hcolon : session.cursor.peekKind 1 = .symbol .colon) :
    verge.coupling.Escapes ((labelled true true >>= next) session) := by
  have hbegins' : verge.start.Begins (session.tested (.single .memberName)).cursor.toPlace :=
    hbegins
  have hpassed : verge.At (session.tested (.single .memberName)).passed.cursor.toPlace :=
    Verge.at_passed hbegins' hindex (show session.cursor.kind ≠ _ from hkind ▸ nofun)
  have hverge : verge.kind = .symbol .colon := by
    rw [← hpassed.kind_eq, ← hcolon]
    exact Session.kind_passed _
  have hrest : Aloof verge.coupling (expect (.symbol .colon) >>= fun _ ↦
      (pure (some session.cursor.here.text) : Parser (Option String))) :=
    hv.alike (.bind (.elementary (.expect _)) fun _ ↦ .pure _)
  have hname : memberName session =
      .ok session.cursor.here.text (session.tested (.single .memberName)).passed := by
    rw [memberName, map_eq_pure_bind, bind_of_ok (expect_of_kind hkind)]
    rfl
  refine Coupling.Escapes.bind ?_ hnext
  change verge.coupling.Escapes ((memberName >>= _) session)
  rw [bind_of_ok hname]
  exact ((Verge.Crosses.expect hverge nofun).bind fun _ ↦ .pure _) _ hpassed

theorem honest_label?_then (hs : fork.Scopes scope)
    (hleft : fork.left.kind = .memberName → fork.left.Crosses (next none))
    (hright : fork.right.kind = .memberName → fork.right.Crosses (next' none))
    (hnext : ∀ label label', Honest fork stray Parser.Anywhere view' (next label) (next' label')) :
    Honest fork stray given view' (label? >>= next) (label? >>= next') := by
  have hnextl (label : Option String) := (hnext label label).left
  have hnextr (label : Option String) := (hnext label label).right
  rw [label?_bind, label?_bind]
  refine .check_cross (fun h ↦ crosses_labelled hs.left h (hleft h) hnextl)
    (fun h ↦ crosses_labelled hs.right h (hright h) hnextr)
    (.look_then 2 (· = true) (fun _ _ h ↦ ?_) ?_ ?_ (fun isLabel ↦ ?_) ?_)
    (.look_any fun _ _ ↦ (hnext none none).anywhere)
  · rw [peekKind_eq_of_peek h Nat.one_lt_two]
  · intro session copy hsessions h hlt hcolon
    have hample : session.cursor.position + 1 ≤ fork.left.index := h.2.1
    rw [hcolon]
    exact escapes_labelled hs.left hnextl hsessions.begins (by omega) (by simpa using h.2.2)
      (beq_iff_eq.mp hcolon)
  · intro session copy hsessions h hlt hcolon
    have hample : session.cursor.position + 1 ≤ fork.left.index := h.2.1
    rw [hcolon]
    rw [fork.index_eq, hsessions.position_eq] at hlt
    refine escapes_labelled hs.right hnextr hsessions.begins_copy ?_ ?_ (beq_iff_eq.mp hcolon)
    · rw [fork.index_eq, hsessions.position_eq]
      omega
    · rw [hsessions.kind_eq h.2.1]
      simpa using h.2.2
  · cases isLabel with
    | false => exact (hnext none none).anywhere
    | true =>
      have hlabel : Honest fork Never Parser.Anywhere unseen (labelled true true)
          (labelled true true) :=
        honest_memberName.bind fun _ _ _ ↦ (Honest.expect (by nofun)).finish fun _ _ _ ↦ rfl
      exact hlabel.anywhere.bind fun label label' _ ↦ hnext label label'
  · intro isLabel isLabel' h h'
    rw [Bool.not_eq_true] at h h'
    subst h h'
    exact (hnext none none).anywhere

end Labels

end Grammar

end CorpusQuery
