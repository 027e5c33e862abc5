import CorpusQuery.Proofs.Acceptance.HonestOperand

/-!
Expressions are honest. The one thing that two expressions over lists that part can make of the same
tokens is a star before the fork: with `IN` behind it, maybe after a negation, it begins a set
predicate, and otherwise it multiplies. An expression that is too tight for a set predicate ends
before the star in the one parse and goes on behind it in the other, where it then fails for want of
an operand (`Fork.Barred`). Every looser expression around it makes up for this, since it reads the
set predicate and so passes the fork.
-/

set_option autoImplicit false
set_option relaxedAutoImplicit false

namespace CorpusQuery

open CorpusQuery.Parser CorpusQuery.Grammar CorpusQuery.Fork

namespace Grammar

variable {fork : Fork} {scope : Scope} {stray : Stray} {given : Place → Prop}

/-! ### Continuations -/

section Continuations

variable (hs : fork.Scopes scope)

include hs

omit hs in
/-- `OPTIONAL` is among the kinds that a target lists, although none begins with it. -/
theorem target_of_ne {session : Session} (hvariable : session.cursor.kind ≠ .variableName)
    (hmember : session.cursor.kind ≠ .memberName) :
    target session = failMissing "a variable or member"
      (.ofList [.variableName, .memberName, .keyword .optional]) session := by
  rw [target, bind_look]
  refine congrFun ?_ session
  generalize session.cursor.toPlace.kind = kind at hvariable hmember
  split
  · exact absurd rfl hvariable
  · exact absurd rfl hmember
  · rfl

omit hs in
theorem crosses_target {verge : Verge}
    (h : (KindSet.ofList [.variableName, .memberName]).contains verge.kind = true) :
    verge.Crosses target := by
  rw [KindSet.contains_ofList] at h
  have hkind : verge.kind = .variableName ∨ verge.kind = .memberName := by simpa using h
  refine .look_kind ?_
  rcases hkind with hkind | hkind
  all_goals
    have hexpect := Verge.Crosses.expect hkind nofun
    rw [hkind]
    exact hexpect.map.map

theorem honest_target (hoptional : ∀ place, given place → place.position = fork.left.index →
    fork.right.kind ≠ .keyword .optional) :
    Honest fork stray given unseen target target := by
  refine .gate crosses_target crosses_target (.of_cases ⟨hs.left.alike alike_target,
    hs.right.alike alike_target, fun session copy hsessions h ↦ ?_⟩ ?_)
  · obtain ⟨hleft, hright⟩ := h.1.2 h.2
    have hne {verge : Verge} {session : Session} (hat : verge.At session.cursor.toPlace)
        (h : (KindSet.ofList [.variableName, .memberName]).contains verge.kind = false) :
        session.cursor.kind ≠ .variableName ∧ session.cursor.kind ≠ .memberName := by
      rw [show session.cursor.kind = verge.kind from hat.kind_eq]
      rw [KindSet.contains_ofList] at h
      simpa using h
    obtain ⟨hvariable, hmember⟩ := hne (hsessions.at_left h.2) hleft
    obtain ⟨hvariable', hmember'⟩ := hne (hsessions.at_right h.2) hright
    rw [target_of_ne hvariable hmember, target_of_ne hvariable' hmember']
    have hnot : (KindSet.ofList [.variableName, .memberName, .keyword .optional]).contains
        fork.right.kind = false := by
      have hoptional := hoptional _ h.1.1 h.2
      rw [KindSet.contains_ofList] at hright ⊢
      simp_all
    have htested := hsessions.tested _ fun _ ↦ hnot
    exact .error (htested.spares_failure _) htested.spared
  · refine .look_same 1 (fun _ _ ↦ kind_eq_of_peek) (fun _ h ↦ h.2) fun kind ↦ ?_
    split
    · exact honest_variableName.map fun _ _ _ ↦ rfl
    · exact honest_memberName.map fun _ _ _ ↦ rfl
    · exact .failMissing fun _ h ↦ h.1.2.clear _

omit hs in
theorem honest_consumeEither {first second : Kind} (hfirst : first ≠ .endOfInput)
    (hsecond : second ≠ .endOfInput) :
    Honest fork stray given id (consumeEither first second) (consumeEither first second) := by
  exact .consume_then hfirst (.pure rfl) (.consume hsecond)

theorem honest_draft (hample : ∀ place, given place → fork.Ample 1 place)
    (left left' : Phrase .expression) (continuation : Continuation) :
    Honest fork fork.Barred given integral (continuation.draft scope left)
      (continuation.draft scope left') := by
  cases continuation with
  | path =>
    exact .pass_one hample fun _ ↦ honest_identifier.finish fun _ _ _ ↦ rfl
  | call =>
    exact .pass_one hample fun _ ↦
      (honest_optionalExpressionsUntil hs (by nofun)).finish fun _ _ _ ↦ rfl
  | listAccess =>
    exact .pass_one hample fun _ ↦
      (honest_expressionsUntil hs (by nofun)).finish fun _ _ _ ↦ rfl
  | annotationAccess =>
    exact .pass_one hample fun _ ↦
      (honest_expressionsUntil hs (by nofun)).finish fun _ _ _ ↦ rfl
  | binary operator =>
    exact .pass_one hample fun _ ↦ (hs.expression _).finish fun _ _ _ ↦ rfl
  | assignment =>
    refine .pass_one hample fun _ ↦ .consume_then (by nofun)
      (.begun ((honest_target hs fun place h hposition ↦ ?_).finish fun _ _ _ ↦ rfl))
      ((honest_target hs fun place h hposition ↦ ?_).finish fun _ _ _ ↦ rfl)
    · obtain ⟨hprevious, hlt⟩ := previous_eq h.2 hposition h.1
      exact fun hkind ↦ hs.apt.optional hkind hlt hprevious
    · simpa using (h.2 hposition).2
  | setPredicate =>
    exact (honest_consumeEither (by nofun) (by nofun)).bind fun _ _ _ ↦
      (honest_consumeEither (by nofun) (by nofun)).bind fun _ _ _ ↦
        (Honest.expect (by nofun)).bind fun _ _ _ ↦ (hs.expression _).finish fun _ _ _ ↦ rfl
  | ternary =>
    exact .pass_one hample fun _ ↦ hs.loose.bind fun _ _ _ ↦
      (Honest.expect (by nofun)).bind fun _ _ _ ↦
        (hs.expression _).finish fun _ _ _ ↦ rfl

omit hs in
theorem at?_eq_of_atSetPredicate_eq {place other : Place} (hkind : other.kind = place.kind)
    (hprevious : other.previousKind? = place.previousKind?)
    (hset : Continuation.atSetPredicate other = Continuation.atSetPredicate place) :
    Continuation.at? other = Continuation.at? place := by
  have hfollows (kinds : KindSet) :
      Continuation.follows other kinds = Continuation.follows place kinds := by
    rw [Continuation.follows, Continuation.follows, hprevious]
  rw [Continuation.at?, Continuation.at?, hset, hkind, hfollows, hfollows, hfollows]

omit hs in
/-- A place that a set predicate follows at in one list only: its tokens reach the fork. -/
theorem reach_of_atSetPredicate_ne {place other : Place} {index : Nat}
    (hpeek : ∀ count, place.position + count < index → other.peek count = place.peek count)
    (hset : Continuation.atSetPredicate place = true)
    (hother : Continuation.atSetPredicate other = false) :
    index ≤ place.position + Verge.steps place := by
  refine Nat.le_of_not_lt fun hlt ↦ ?_
  have hkind (count : Nat) (hcount : count ≤ Verge.steps place) :
      other.peekKind count = place.peekKind count :=
    congrArg Token.kind (hpeek count (by omega))
  have hhere : other.kind = place.kind := by
    have h := hkind 0 (Nat.zero_le _)
    rwa [Place.peekKind, Place.peekKind, Place.peek, Place.peek, Place.along_zero,
      Place.along_zero] at h
  have hsteps : Verge.steps other = Verge.steps place := by
    rw [Verge.steps, Verge.steps, hhere, hkind _ (Nat.le_add_right _ _)]
  have htrue : Continuation.atSetPredicate other = true := by
    rw [Verge.atSetPredicate_iff, hsteps, hkind _ (Nat.le_refl _)]
    exact Verge.atSetPredicate_iff.mp hset
  rw [hother] at htrue
  cases htrue

omit hs in
/-- What stands before the `IN` of a set predicate, if anything does. -/
theorem kind_of_steps_pos {place : Place} (h : 0 < Verge.steps place) :
    place.kind = .symbol .star ∨ place.kind = .keyword .all ∨ place.kind = .keyword .not ∨
      place.kind = .symbol .bang := by
  have hzero : place.peekKind 0 = place.kind := congrArg Token.kind (Place.along_zero _ _)
  by_cases hstar : place.kind = .symbol .star
  · exact .inl hstar
  by_cases hall : place.kind = .keyword .all
  · exact .inr (.inl hall)
  have hneither : Continuation.isUniversal place.kind = false := by
    rw [Continuation.isUniversal, beq_false_of_ne hstar, beq_false_of_ne hall]
    rfl
  rw [Verge.steps, hneither, Bool.toNat_false, Nat.zero_add, hzero] at h
  cases hnegation : Continuation.isNegation place.kind with
  | false =>
    rw [hnegation] at h
    cases h
  | true =>
    rw [Continuation.isNegation, Bool.or_eq_true, beq_iff_eq, beq_iff_eq] at hnegation
    exact .inr (.inr hnegation)

omit hs in
/-- A product whose star begins a set predicate in the other list only: the verge is so near that
the second factor crosses, or that it is wanted. -/
theorem continuation_of_star {verge : Verge} (hv : verge.Scopes scope) {least : Nat}
    (hleast : least ≤ BinaryOperator.multiply.level) (left : Phrase .expression) {place : Place}
    {session : Session} (hbegins : verge.start.Begins session.cursor.toPlace)
    (hposition : session.cursor.position = place.position) (hlt : place.position < verge.index)
    (hpeek : ∀ count, place.position + count < verge.index →
      session.cursor.peek count = place.peek count)
    (hreach : verge.index ≤ place.position + Verge.steps place) (hstar : place.kind = .symbol .star)
    (hkind : session.cursor.kind = .symbol .star)
    (hat? : Continuation.at? session.cursor.toPlace = some (.binary .multiply)) :
    verge.coupling.Escapes (continuation scope least left session) ∨
      Verge.Wants (∅ ∪ expressionStart) session (continuation scope least left) := by
  have hread : Verge.read? least session.cursor.toPlace = some (.binary .multiply) := by
    rw [Verge.read?, hat?]
    exact Option.filter_some_pos (decide_eq_true hleast)
  have hsteps : Verge.steps place = 1 + (Continuation.isNegation (place.peekKind 1)).toNat := by
    rw [Verge.steps, hstar]
    rfl
  have hdue : session.cursor.position + 1 = verge.index ∨
      session.cursor.position + 2 = verge.index ∧
        Continuation.isNegation (session.cursor.peekKind 1) = true := by
    by_cases hnext : place.position + 1 = verge.index
    · exact .inl (hposition ▸ hnext)
    · rw [show session.cursor.peekKind 1 = place.peekKind 1 from
        congrArg Token.kind (hpeek 1 (by omega))]
      cases hnegation : Continuation.isNegation (place.peekKind 1) with
      | true =>
        rw [hnegation, Bool.toNat_true] at hsteps
        exact .inr ⟨by omega, rfl⟩
      | false =>
        rw [hnegation, Bool.toNat_false] at hsteps
        omega
  refine (Verge.multiply_draft hv left hbegins hkind hdue).imp (fun hescapes ↦ ?_) fun hwants ↦ ?_
  · rw [Verge.continuation_eq, bind_look, hread]
    exact hescapes.phraseFrom.map
  · rw [Verge.Wants, Verge.continuation_eq, bind_look, hread, Verge.continued, map_eq_pure_bind,
      ← Verge.Wants]
    exact (hwants.bind _).bind _

omit hs in
/-- Where a set predicate follows in the other list only, there is no continuation, or a factor is
wanted. -/
theorem continuation_beside {verge : Verge} (hv : verge.Scopes scope) (least : Nat)
    (left : Phrase .expression) {place : Place} {session : Session}
    (hbegins : verge.start.Begins session.cursor.toPlace)
    (hposition : session.cursor.position = place.position) (hlt : place.position < verge.index)
    (hpeek : ∀ count, place.position + count < verge.index →
      session.cursor.peek count = place.peek count)
    (hset : Continuation.atSetPredicate place = true)
    (hunset : Continuation.atSetPredicate session.cursor.toPlace = false) :
    continuation scope least left session = .ok none session ∨ place.kind = .symbol .star ∧
      (verge.coupling.Escapes (continuation scope least left session) ∨
        Verge.Wants (∅ ∪ expressionStart) session (continuation scope least left)) := by
  have hreach := reach_of_atSetPredicate_ne hpeek hset hunset
  have hkind : session.cursor.kind = place.kind := by
    have h := hpeek 0 hlt
    rw [Place.peek, Place.peek, Place.along_zero, Place.along_zero] at h
    exact congrArg Token.kind h
  have hat? : Continuation.at? session.cursor.toPlace =
      if place.kind = .symbol .star then some (.binary .multiply) else none := by
    rw [Continuation.at?, if_neg (Bool.eq_false_iff.mp hunset),
      show session.cursor.toPlace.kind = place.kind from hkind]
    have hsteps : 0 < Verge.steps place := by omega
    rcases kind_of_steps_pos hsteps with hkind | hkind | hkind | hkind <;> rw [hkind] <;> rfl
  have hnone (h : Verge.read? least session.cursor.toPlace = none) :
      continuation scope least left session = .ok none session := by
    rw [Verge.continuation_eq, bind_look, h]
    rfl
  by_cases hstar : place.kind = .symbol .star
  · rw [if_pos hstar] at hat?
    by_cases hleast : least ≤ BinaryOperator.multiply.level
    · exact .inr ⟨hstar, continuation_of_star hv hleast left hbegins hposition hlt hpeek hreach
        hstar (hkind.trans hstar) hat?⟩
    · refine .inl (hnone ?_)
      rw [Verge.read?, hat?]
      exact Option.filter_some_neg (decide_eq_false hleast)
  · refine .inl (hnone ?_)
    rw [Verge.read?, hat?, if_neg hstar]
    rfl

theorem honest_continued (hample : ∀ place, given place → fork.Ample 1 place)
    (left left' : Phrase .expression) (continuation? : Option Continuation) :
    Honest fork fork.Barred given (Option.map isInteger)
      (Verge.continued scope left continuation?) (Verge.continued scope left' continuation?) := by
  cases continuation? with
  | none => exact .pure rfl
  | some continuation =>
    refine .map ((honest_draft hs hample left left' continuation).phraseFrom integral_eq)
      fun _ _ h ↦ ?_
    exact congrArg some h

/-- Where the second list has a set predicate that reaches the fork, no expression begins there. -/
theorem not_starts_of_bars {place : Place} (h : fork.right.Bars place) :
    expressionStart.contains fork.right.kind = false := by
  have hkind (count : Nat) : place.peekKind count =
      (fork.right.start.peek (place.position + count)).kind :=
    Place.At.peekKind_eq ⟨h.begins, rfl⟩ count
  have hlt := h.position_lt
  have hreach := h.reach
  have hin := Verge.atSetPredicate_iff.mp h.atSetPredicate
  have hsteps : Verge.steps place = 1 + (Continuation.isNegation (place.peekKind 1)).toNat := by
    rw [Verge.steps, h.kind_eq]
    rfl
  have hle : (Continuation.isNegation (place.peekKind 1)).toNat ≤ 1 := Bool.toNat_le _
  rcases Nat.eq_or_lt_of_le hreach with hindex | hlt'
  · rw [hkind, ← hindex] at hin
    rw [Verge.kind, hin]
    rfl
  -- The negation before `IN` is at the fork, behind a star and not behind digits.
  · have hnegation : Continuation.isNegation (place.peekKind 1) = true := by
      cases hnegation : Continuation.isNegation (place.peekKind 1) with
      | true => rfl
      | false =>
        rw [hnegation, Bool.toNat_false] at hsteps
        omega
    have hindex : place.position + 1 = fork.right.index := by omega
    rw [hsteps, hnegation, Bool.toNat_true, hkind, ← Nat.add_assoc, hindex] at hin
    rw [hkind, hindex] at hnegation
    obtain ⟨-, hdigits⟩ := hs.apt.negation hnegation hin
    have hstar : fork.previous = .symbol .star := by
      have hindex' := fork.index_eq
      rw [Fork.previous, ← fork.agree _ (by omega), ← h.kind_eq, Place.kind, h.begins.here_eq]
      congr 2
      omega
    rw [hstar] at hdigits
    cases hdigits

section Ends

variable {session copy : Session} (hsessions : fork.Sessions session copy) (least : Nat)
  (left left' : Phrase .expression)

include hsessions

/-- At the fork there is no continuation in either list, or one that crosses. -/
theorem ends_continuation_at (heq : session.cursor.position = fork.left.index) :
    fork.Ends fork.Barred (Option.map isInteger) (continuation scope least left session)
      (continuation scope least left' copy) := by
  have hleft := hsessions.at_left heq
  have hright := hsessions.at_right heq
  rw [Verge.continuation_eq, Verge.continuation_eq, bind_look, bind_look]
  cases hread : Verge.read? least session.cursor.toPlace with
  | some continuation =>
    have hat := (Verge.at?_of_read? hread).1
    exact .left (Verge.escapes_draft hs.left left hleft hat).phraseFrom.map
  | none =>
    cases hread' : Verge.read? least copy.cursor.toPlace with
    | some continuation =>
      have hat := (Verge.at?_of_read? hread').1
      exact .right (Verge.escapes_draft hs.right left' hright hat).phraseFrom.map
    | none => exact .ok rfl hsessions

variable (hample : fork.Ample 1 session.cursor.toPlace)

include hample

/-- Only the first list goes on with a set predicate, which then reaches the fork. -/
theorem ends_continuation_left (hset : Continuation.atSetPredicate session.cursor.toPlace = true)
    (hunset : Continuation.atSetPredicate copy.cursor.toPlace = false) :
    fork.Ends fork.Barred (Option.map isInteger) (continuation scope least left session)
      (continuation scope least left' copy) := by
  have hindex := fork.index_eq
  have hpeek (count : Nat) (hcount : session.cursor.position + count < fork.left.index) :
      copy.cursor.peek count = session.cursor.peek count := hsessions.peek_eq hcount
  have hreach := reach_of_atSetPredicate_ne hpeek hset hunset
  by_cases hleast : least ≤ 3
  · exact .left (Verge.escapes_continuation_of_atSetPredicate hs.left hleast left
      hsessions.begins hset hreach)
  rw [Verge.continuation_of_atSetPredicate hleast left hset]
  rcases continuation_beside hs.right least left' hsessions.begins_copy hsessions.position_eq
    (hindex ▸ hample) (hindex ▸ hpeek) hset hunset with hrun | ⟨hstar, hescapes | hwants⟩
  · rw [hrun]
    exact .ok rfl hsessions
  · exact .right hescapes
  · obtain ⟨failure, after, hrun, -⟩ := hwants
    rw [hrun]
    exact .stray (.left ⟨hsessions.begins, hample, hstar, hset, hreach⟩)

/-- Only the second list goes on with a set predicate. A failure of the first parse for want of a
factor does not list what the second list has at the fork. -/
theorem ends_continuation_right
    (hunset : Continuation.atSetPredicate session.cursor.toPlace = false)
    (hset : Continuation.atSetPredicate copy.cursor.toPlace = true) :
    fork.Ends fork.Barred (Option.map isInteger) (continuation scope least left session)
      (continuation scope least left' copy) := by
  have hindex := fork.index_eq
  have hposition := hsessions.position_eq
  have hpeek (count : Nat) (hcount : copy.cursor.position + count < fork.left.index) :
      session.cursor.peek count = copy.cursor.peek count :=
    (hsessions.peek_eq (show session.cursor.position + count < _ from hposition ▸ hcount)).symm
  have hreach := hindex ▸ reach_of_atSetPredicate_ne hpeek hset hunset
  by_cases hleast : least ≤ 3
  · exact .right (Verge.escapes_continuation_of_atSetPredicate hs.right hleast left'
      hsessions.begins_copy hset hreach)
  have hlt : copy.cursor.position < fork.left.index := hposition ▸ hample
  rw [Verge.continuation_of_atSetPredicate hleast left' hset]
  rcases continuation_beside hs.left least left hsessions.begins hposition.symm hlt hpeek hset
    hunset with hrun | ⟨hstar, hescapes | hwants⟩
  · rw [hrun]
    exact .ok rfl hsessions
  · exact .left hescapes
  · obtain ⟨failure, after, hrun, hexpected, hafter⟩ := hwants
    have hbars : fork.right.Bars copy.cursor.toPlace :=
      ⟨hsessions.begins_copy, hindex ▸ hlt, hstar, hset, hreach⟩
    have hnot : (∅ ∪ expressionStart).contains fork.right.kind = false := by
      rw [KindSet.contains_union, not_starts_of_bars hs hbars, KindSet.contains_empty]
      rfl
    rw [hrun]
    exact .stray (.right hbars (fun _ ↦ hexpected ▸ hnot) fun _ ↦ hafter ▸ hnot)

end Ends

theorem honest_continuation (least : Nat) (left left' : Phrase .expression) :
    Honest fork fork.Barred given (Option.map isInteger) (continuation scope least left)
      (continuation scope least left') := by
  refine ⟨hs.left.alike (alike_continuation least left),
    hs.right.alike (alike_continuation least left'), fun session copy hsessions _ ↦ ?_⟩
  rcases hsessions.eq_or_ample with heq | hample
  · exact ends_continuation_at hs hsessions least left left' heq
  have hsame (h : Continuation.atSetPredicate copy.cursor.toPlace =
      Continuation.atSetPredicate session.cursor.toPlace) :
      fork.Ends fork.Barred (Option.map isInteger) (continuation scope least left session)
        (continuation scope least left' copy) := by
    rw [Verge.continuation_eq, Verge.continuation_eq, bind_look, bind_look, Verge.read?,
      Verge.read?, at?_eq_of_atSetPredicate_eq (hsessions.kind_eq hample)
        hsessions.previousKind?_eq h]
    exact (honest_continued hs (fun _ h ↦ h) left left' _).ends session copy hsessions hample
  cases hset : Continuation.atSetPredicate session.cursor.toPlace <;>
    cases hset' : Continuation.atSetPredicate copy.cursor.toPlace
  · exact hsame (hset'.trans hset.symm)
  · exact ends_continuation_right hs hsessions least left left' hample hset hset'
  · exact ends_continuation_left hs hsessions least left left' hample hset hset'
  · exact hsame (hset'.trans hset.symm)

omit hs in
/-- Behind a set predicate that reaches the verge and is too loose, an expression ends; a looser one
takes it and crosses. -/
theorem iterate_of_bars {verge : Verge} (hv : verge.Scopes scope) {session : Session}
    (h : verge.Bars session.cursor.toPlace) (least : Nat) (left : Phrase .expression) :
    least ≤ 3 ∧ verge.coupling.Escapes (iterate (continuation scope least) left session) ∨
      3 < least ∧ iterate (continuation scope least) left session = .ok left session := by
  by_cases hleast : least ≤ 3
  · refine .inl ⟨hleast, .iterate ?_ fun value ↦ hv.alike (alike_continuation least value)⟩
    exact Verge.escapes_continuation_of_atSetPredicate hv hleast left h.begins h.atSetPredicate
      h.reach
  · refine .inr ⟨Nat.lt_of_not_le hleast, iterate_of_none ?_⟩
    exact Verge.continuation_of_atSetPredicate hleast left h.atSetPredicate

omit hs in
theorem eq_of_continuation_none {least : Nat} {left : Phrase .expression} {session after : Session}
    (hrun : continuation scope least left session = .ok none after) : after = session := by
  rw [Verge.continuation_eq, bind_look] at hrun
  cases hread : Verge.read? least session.cursor.toPlace with
  | none =>
    rw [hread] at hrun
    cases hrun
    rfl
  | some continuation =>
    rw [hread, Verge.continued, map_eq_pure_bind] at hrun
    obtain ⟨value, between, -, hpure⟩ := bind_eq_ok hrun
    cases hpure

omit hs in
/-- A round of an expression that ends before such a set predicate is the last one. -/
theorem iterate_of_round {verge : Verge} (hv : verge.Scopes scope) (hscope : scope.Progressive)
    {least : Nat} {left : Phrase .expression} {next? : Option (Phrase .expression)}
    {session after : Session} (hbegins : verge.start.Begins session.cursor.toPlace)
    (hrun : continuation scope least left session = .ok next? after)
    (h : verge.Bars after.cursor.toPlace) :
    least ≤ 3 ∧ verge.coupling.Escapes (iterate (continuation scope least) left session) ∨
      3 < least ∧ ∃ value, iterate (continuation scope least) left session = .ok value after := by
  cases next? with
  | none =>
    obtain rfl := eq_of_continuation_none hrun
    exact (iterate_of_bars hv h least left).imp_right fun ⟨hleast, hok⟩ ↦ ⟨hleast, left, hok⟩
  | some next =>
    rw [iterate_of_closer hrun
      (hscope.loops (.expression least) (hbegins.closed verge.closed) hrun)]
    exact (iterate_of_bars hv h least next).imp_right fun ⟨hleast, hok⟩ ↦ ⟨hleast, next, hok⟩

/-- What an expression makes of an operand behind which a star is barred. -/
theorem ends_of_barred {parser parser' : Parser (Phrase .expression)} {session copy : Session}
    (least : Nat) (h : fork.Barred (ending (parser session)) (ending (parser' copy))) :
    fork.Ends (fork.stray (.expression least)) isInteger
      ((parser >>= iterate (continuation scope least)) session)
      ((parser' >>= iterate (continuation scope least)) copy) := by
  rcases h.cases with ⟨value, after, failure', after', hrun, hrun', hbars⟩ |
    ⟨failure, after, value', after', hrun, hrun', hbars, hfailure, hcursor⟩
  · rw [bind_of_ok hrun, bind_of_error hrun']
    rcases iterate_of_bars hs.left hbars least value with ⟨-, hescapes⟩ | ⟨hleast, hok⟩
    · exact .left hescapes
    · rw [hok]
      exact .stray ⟨hleast, .left hbars⟩
  · rw [bind_of_error hrun, bind_of_ok hrun']
    rcases iterate_of_bars hs.right hbars least value' with ⟨-, hescapes⟩ | ⟨hleast, hok⟩
    · exact .right hescapes
    · rw [hok]
      exact .stray ⟨hleast, .right hbars hfailure hcursor⟩

theorem honest_expression (least : Nat) :
    Honest fork (fork.stray (.expression least)) given isInteger (expression scope least)
      (expression scope least) := by
  have hloop {given : Place → Prop} {left left' : Phrase .expression}
      (h : isInteger left = isInteger left') :
      Honest fork (fork.stray (.expression least)) given isInteger
        (iterate (continuation scope least) left) (iterate (continuation scope least) left') := by
    refine .iterate_stray (fun left left' _ ↦ honest_continuation hs least left left')
      (fun left left' session copy _ hsessions hstray ↦ ?_) h
    rcases hstray.cases with ⟨next?, after, failure', after', hrun, hrun', hbars⟩ |
      ⟨failure, after, next?', after', hrun, hrun', hbars, hfailure, hcursor⟩
    · rw [iterate_of_error hrun']
      rcases iterate_of_round hs.left hs.progressive hsessions.begins hrun hbars with
        ⟨-, hescapes⟩ | ⟨hleast, value, hok⟩
      · exact .left hescapes
      · rw [hok]
        exact .stray ⟨hleast, .left hbars⟩
    · rw [iterate_of_error hrun]
      rcases iterate_of_round hs.right hs.progressive hsessions.begins_copy hrun' hbars with
        ⟨-, hescapes⟩ | ⟨hleast, value, hok⟩
      · exact .right hescapes
      · rw [hok]
        exact .stray ⟨hleast, .right hbars hfailure hcursor⟩
  exact (honest_operand hs).bind_stray (fun _ ↦ Parser.Anywhere) (fun _ _ _ _ _ _ _ _ ↦ trivial)
    (fun left left' h ↦ hloop h) fun session copy _ _ hstray ↦ ends_of_barred hs least hstray

end Continuations

/-! ### Loops -/

section Loops

variable (hs : fork.Scopes scope)

include hs

theorem honest_boundedRange :
    Honest fork stray given unseen (boundedRange scope) (boundedRange scope) := by
  refine .phrase_blind ?_
  exact (Honest.expect (by nofun)).bind fun _ _ _ ↦ hs.loose.bind fun _ _ _ ↦
    (Honest.expect (by nofun)).bind fun _ _ _ ↦ hs.loose.bind fun _ _ _ ↦
      (Honest.expect (by nofun)).bind fun _ _ _ ↦ .pure rfl

omit hs in
theorem honest_parity? : Honest fork stray given unseen parity? parity? :=
  .consume_then (by nofun) (.pure rfl) (.consume_then (by nofun) (.pure rfl) (.pure rfl))

theorem honest_loopControl :
    Honest fork stray given unseen (loopControl scope) (loopControl scope) := by
  refine .phrase_blind ?_
  exact honest_parity?.bind fun _ _ _ ↦ (Honest.behind (by nofun) hs.loose).bind fun _ _ _ ↦
    (Honest.behind (by nofun) (honest_boundedRange hs)).bind fun _ _ _ ↦
      (Honest.behind (by nofun) (honest_boundedRange hs)).bind fun _ _ _ ↦
        (Honest.behind (by nofun) hs.loose).bind fun _ _ _ ↦
          (Honest.expect (by nofun)).bind fun _ _ _ ↦ .pure rfl

/-- Behind a barred star there is no `AS`, so both parses fail. -/
theorem honest_counted : Honest fork stray given unseen (counted scope) (counted scope) := by
  refine (hs.expression _).bind_stray (fun _ ↦ Parser.Anywhere) (fun _ _ _ _ _ _ _ _ ↦ trivial)
    (fun _ _ _ ↦ (Honest.expect (by nofun)).bind fun _ _ _ ↦
      honest_variableName.finish fun _ _ _ ↦ rfl) fun session copy _ _ hstray ↦ ?_
  have hfails {verge : Verge} {after : Session} (hbars : verge.Bars after.cursor.toPlace)
      {α : Type} (next : Token → Parser α) :
      (expect (.keyword .asKw) >>= next) after =
        .error ((after.tested (.single (.keyword .asKw))).cursor.failure .unexpected)
          (after.tested (.single (.keyword .asKw))) :=
    bind_of_error (expect_of_ne (show after.cursor.kind ≠ _ from hbars.kind_eq ▸ nofun)) next
  rcases hstray.cases with ⟨value, after, failure', after', hrun, hrun', hbars⟩ |
    ⟨failure, after, value', after', hrun, hrun', hbars, hfailure, hcursor⟩
  · rw [bind_of_ok hrun, bind_of_error hrun', hfails hbars]
    refine .error (fun hstart ↦ ?_) fun hposition ↦
      absurd hposition (Nat.ne_of_lt hbars.position_lt)
    have hlt := fork.start_lt _ hbars.position_lt
    rw [← hbars.begins.here_eq] at hlt
    exact absurd hstart (Nat.ne_of_lt hlt)
  · rw [bind_of_error hrun, bind_of_ok hrun', hfails hbars]
    exact .error hfailure hcursor

theorem honest_counter : Honest fork stray given unseen (counter scope) (counter scope) := by
  refine .phrase_blind ?_
  exact (honest_counted hs).bind fun _ _ _ ↦ .pure rfl

theorem honest_counters : Honest fork stray given unseen (counters scope) (counters scope) := by
  have hitems {given : Place → Prop} : Honest fork stray given unseen
      (separatedBy (.symbol .comma) (counter scope))
      (separatedBy (.symbol .comma) (counter scope)) :=
    (Honest.separatedBy (by nofun) (honest_counter hs) (honest_counter hs)).blind
  exact .consume_then (by nofun) hitems (.pure rfl)

theorem honest_loop : Honest fork stray given unseen (loop scope) (loop scope) := by
  refine .phrase_blind ?_
  exact (Honest.expect (by nofun)).bind fun _ _ _ ↦ (honest_counted hs).bind fun _ _ _ ↦
    (honest_loopControl hs).bind fun _ _ _ ↦ (honest_counters hs).finish fun _ _ _ ↦ rfl

end Loops

end Grammar

end CorpusQuery
