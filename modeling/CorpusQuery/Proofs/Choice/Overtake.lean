import CorpusQuery.Proofs.Choice.Opening

/-!
What a choice gives up never came further than what it keeps. The grammar has three choices between
a tried reading and a second one, and in each of them the second reading, where it succeeds, gets
past the token that the first one failed at (`Parser.Overtakes`): a marker fails before the closing
bracket of its node, and a constraint of a node and a plain selection fail before the first bracket
of the statements that are read in their place.
-/

set_option autoImplicit false
set_option relaxedAutoImplicit false

namespace CorpusQuery

open CorpusQuery.Parser CorpusQuery.Place CorpusQuery.Grammar

/-- Where the first parser fails and the second one, from the same place on, succeeds, the second
one gets past the token that the first one failed at. -/
def Parser.Overtakes {α β : Type} (first : Parser α) (second : Parser β) : Prop :=
  ∀ (start : Place) session copy failure after value last, start.Closed →
    start.Begins session.cursor.toPlace → copy.cursor.toPlace = session.cursor.toPlace →
      first session = .error failure after → second copy = .ok value last →
        start.Begins last.cursor.toPlace ∧
          ∃ index < last.cursor.position, failure.token = start.peek index

theorem Parser.Overtakes.attempt {α β : Type} {first : Parser α} {second : Parser β}
    (h : Overtakes first second) {title : String} {depth : Nat} :
    Overtakes first (attempt title depth second) := by
  intro start session copy failure after value last hclosed hbegins hplace hrun hagain
  cases hsecond : second copy with
  | ok found behind =>
    rw [attempt_of_ok hsecond] at hagain
    cases hagain
    exact h start session copy failure after value last hclosed hbegins hplace hrun hsecond
  | error other behind =>
    rw [attempt_of_error hsecond] at hagain
    cases hagain

/-- A token has been passed before which expressions halt. -/
structure Place.Halted (start : Place) (base : Nat) (place : Place) : Prop where
  begins : start.Begins place
  halting : ∃ last < place.position, base ≤ last ∧ Halting start base last

namespace Grammar

variable {start : Place} {total base : Nat} {limit room : Nat}

/-! ### Constraints and selections -/

theorem halted_advance (cursor : Cursor) (h : Halted start base cursor.toPlace) :
    Halted start base cursor.advance.toPlace := by
  obtain ⟨last, hlt, hhalting⟩ := h.halting
  exact ⟨h.begins.advance, last, Nat.lt_of_lt_of_le hlt (Cursor.position_le_advance cursor),
    hhalting⟩

theorem halted_of_opened (hclosed : start.Closed) {place : Place}
    (h : Opened start opening base place) : Halted start base place := by
  obtain ⟨first, hle, hlt, hkind, hbefore⟩ := h.first
  exact ⟨h.begins, first, hlt, hle, hclosed, hkind ▸ rfl, hbefore⟩

/-- A token at which expressions halt is passed in the first step. -/
theorem halted_of_first (hclosed : start.Closed) {cursor : Cursor}
    (hbegins : start.Begins cursor.toPlace) (hposition : cursor.position = base)
    (hhalts : cursor.kind.halts = true) : Halted start base cursor.advance.toPlace := by
  have hkind : (start.peek base).kind.halts = true := by
    rw [← hposition, ← hbegins.here_eq]
    exact hhalts
  have hlt := Cursor.position_lt_advance (hbegins.closed hclosed) fun hend ↦ by
    rw [hend] at hhalts
    cases hhalts
  exact ⟨hbegins.advance, base, hposition ▸ hlt, Nat.le_refl _, hclosed, hkind,
    fun index hle hlt ↦ absurd hle (Nat.not_le_of_lt hlt)⟩

/-- The place where a choice begins. -/
def AtBase (start : Place) (base : Nat) (place : Place) : Prop :=
  start.Begins place ∧ place.position = base

theorem AtBase.leading {place : Place} (h : AtBase start base place) :
    Leading start opening base place :=
  ⟨h.1, Nat.le_of_eq h.2.symm, fun _ hle hlt ↦ absurd (h.2 ▸ hlt) (Nat.not_lt_of_le hle)⟩

/-- Once a token has been passed before which expressions halt, that stays so. -/
theorem halted_alike (limit room : Nat) {α : Type} {parser : Parser α}
    (h : Alike (Rule.inside limit room) (Rule.inside limit room) parser parser) :
    Ensures total Untraced (Halted start base) parser fun _ ↦ Halted start base :=
  h.ensures (fun _ _ _ _ _ ↦ trivial) halted_advance (Rule.keeps_run halted_advance limit room)

theorem halted_run_structuralConstraint (hclosed : start.Closed) :
    Ensures total Untraced (AtBase start base) (Rule.structuralConstraint.run limit room)
      fun _ ↦ Halted start base :=
  (opens_run_structuralConstraint limit room).weaken (fun _ ↦ AtBase.leading)
    fun _ _ ↦ halted_of_opened hclosed

theorem halted_onlyChildren (hclosed : start.Closed) :
    Ensures total Untraced (AtBase start base) (onlyChildren (Rule.inside limit room))
      fun _ ↦ Halted start base := by
  have hchildren : Ensures total Untraced (AtBase start base)
      (children? (Rule.inside limit room)) fun children? place ↦
        AtBase start base place ∨ Halted start base place := by
    refine ((Ensures.checkAny _).weaken (fun _ h ↦ h) fun _ _ h ↦ h.1).bind fun found ↦
      .ite (fun _ ↦ .map ?_) fun _ ↦ .pure fun _ h ↦ .inl h
    exact (halted_run_structuralConstraint hclosed).weaken (fun _ h ↦ h) fun _ _ h ↦ .inr h
  refine hchildren.bind fun _ ↦ (Ensures.expect_to fun cursor _ hkind h ↦ ?_).bind fun _ ↦
    .pure fun _ h ↦ h
  rcases h with ⟨hbegins, hposition⟩ | h
  · exact halted_of_first hclosed hbegins hposition (hkind ▸ rfl)
  · exact halted_advance cursor h

theorem halted_structuralSelection (hclosed : start.Closed) :
    Ensures total Untraced (AtBase start base) (structuralSelection (Rule.inside limit room))
      fun _ ↦ Halted start base := by
  refine ((Ensures.check _).weaken (fun _ h ↦ h) fun _ _ h ↦ h.1).bind fun isLane ↦
    .ite (fun _ ↦ ?_) fun _ ↦ ?_
  · -- The keyword before a lane is already one at which expressions halt.
    have hlane : Ensures total Untraced (AtBase start base) (lane (Rule.inside limit room))
        fun _ ↦ Halted start base := by
      refine .phrase_to ((Ensures.expect_to fun cursor _ hkind h ↦
        halted_of_first hclosed h.1 h.2 (hkind ▸ rfl)).bind fun _ ↦ halted_alike limit room ?_)
      exact .bind alike_identifier fun _ ↦ .bind (.behind _ alike_memberName) fun _ ↦
        .bind (.nested .structuralConstraint) fun _ ↦ .pure _
    refine (hlane.bind fun _ ↦ halted_alike limit room ?_).bind fun _ ↦ halted_alike limit room
      (.bind alike_having? fun _ ↦ .pure _)
    exact .bind (.many (.behind .lane) (.behind _ alike_lane)) fun _ ↦ .pure _
  · exact (halted_run_structuralConstraint hclosed).bind fun _ ↦ halted_alike limit room
      (.bind alike_having? fun _ ↦ .pure _)

/-- A parser that stays before the tokens at which expressions halt is overtaken by one that passes
such a token. -/
theorem overtakes_of_halted {α β : Type} {first : Parser α} {second : Parser β}
    (hfirst : ∀ start base last, Halting start base last →
      Stays start base last Anywhere first fun _ ↦ Anywhere)
    (hsecond : ∀ start total base, start.Closed →
      Ensures total Untraced (AtBase start base) second fun _ ↦ Halted start base) :
    Overtakes first second := by
  intro start session copy failure after value last hclosed hbegins hplace hrun hagain
  have hcopy : start.Begins copy.cursor.toPlace := hplace ▸ hbegins
  have hposition : copy.cursor.position = session.cursor.position := congrArg Place.position hplace
  obtain ⟨-, hbehind, index, hlt, hle, hhalting⟩ :=
    (hsecond start copy.cursor.total session.cursor.position hclosed).ok
      ⟨hcopy.closed hclosed, rfl, trivial⟩ ⟨hcopy, hposition⟩ hagain
  obtain ⟨found, hfound, htoken⟩ := (hfirst start _ index hhalting).error
    ⟨hbegins, Nat.le_refl _, hle⟩ trivial hrun
  exact ⟨hbehind, found, Nat.lt_of_le_of_lt hfound hlt, htoken⟩

theorem stays_leadingConstraint {last : Nat} (h : Halting start base last) :
    Stays start base last Anywhere (leadingConstraint (Rule.inside limit room))
      fun _ ↦ Anywhere :=
  (stays_run_expression h limit room 0).bind fun _ ↦ Stays.check.bind fun _ ↦
    .ite (fun _ ↦ .done) fun _ ↦ Stays.look.bind fun _ ↦ Stays.checkAny.bind fun _ ↦
      .ite (fun _ ↦ .done) fun _ ↦ .fail

theorem stays_plainSelection {last : Nat} (h : Halting start base last) :
    Stays start base last Anywhere (plainSelection (Rule.inside limit room)) fun _ ↦ Anywhere :=
  (stays_run_expression h limit room 0).bind fun _ ↦
    (Stays.expect (ne_of_halts h.halts rfl)).bind fun _ ↦ .done

/-- Child statements get past the token at which a constraint in their place fails. -/
theorem overtakes_onlyChildren (limit room : Nat) :
    Overtakes (leadingConstraint (Rule.inside limit room))
      (onlyChildren (Rule.inside limit room)) :=
  overtakes_of_halted (fun _ _ _ h ↦ stays_leadingConstraint h)
    fun _ _ _ hclosed ↦ halted_onlyChildren hclosed

/-- A structural selection gets past the token at which a plain one in its place fails. -/
theorem overtakes_structuralSelection (limit room : Nat) :
    Overtakes (plainSelection (Rule.inside limit room))
      (structuralSelection (Rule.inside limit room)) :=
  overtakes_of_halted (fun _ _ _ h ↦ stays_plainSelection h)
    fun _ _ _ hclosed ↦ halted_structuralSelection hclosed

/-! ### Markers -/

/-- A place behind the closing bracket of a node. -/
structure Shut (start place : Place) : Prop where
  begins : start.Begins place
  previous : place.previousKind? = some (.symbol .rightBracket)

theorem shut_advance {cursor : Cursor} (hclosed : cursor.Closed)
    (hkind : cursor.kind = .symbol .rightBracket) (h : start.Begins cursor.toPlace) :
    Shut start cursor.advance.toPlace := by
  refine ⟨h.advance, ?_⟩
  cases hahead : cursor.ahead with
  | nil =>
    rw [Place.Closed, hahead] at hclosed
    cases hkind.symm.trans hclosed
  | cons next rest =>
    rw [Cursor.advance_of_cons hahead, Place.previousKind?, List.head?_cons, Option.map_some]
    exact congrArg some hkind

theorem begins_alike (limit room : Nat) {α : Type} {parser : Parser α}
    (h : Alike (Rule.inside limit room) (Rule.inside limit room) parser parser) :
    Ensures total Untraced start.Begins parser fun _ ↦ start.Begins :=
  h.ensures (fun _ _ _ _ _ ↦ trivial) (fun _ h ↦ h.advance)
    (Rule.keeps_run (fun _ h ↦ h.advance) limit room)

theorem shut_nodeContent :
    Ensures total Untraced start.Begins (nodeContent (Rule.inside limit room))
      fun _ ↦ Shut start := by
  have hexpect : Ensures total Untraced start.Begins (expect (.symbol .rightBracket))
      fun _ ↦ Shut start :=
    .expect_to fun _ hclosed hkind h ↦ shut_advance hclosed hkind h
  rw [nodeContent_eq_either]
  have hconsume : Ensures total Untraced start.Begins (consume (.symbol .rightBracket))
      fun found place ↦ if found then Shut start place else start.Begins place :=
    .consume_to (fun _ hclosed hkind h ↦ shut_advance hclosed hkind h) fun _ _ h ↦ h
  refine hconsume.bind fun isEmpty ↦ .ite (fun hempty ↦ .pure fun _ h ↦ by rwa [if_pos hempty] at h)
    fun hempty ↦ .when ?_ fun _ h ↦ by rwa [if_neg hempty] at h
  refine .either (fun _ _ _ _ _ ↦ trivial) _ (begins_alike limit room alike_leadingConstraint)
    (fun _ ↦ ?_)
    (.attempt (fun _ _ _ _ _ ↦ trivial) _ ?_) fun _ ↦ .pure fun _ h ↦ h
  · exact (begins_alike limit room alike_children?).bind fun _ ↦
      hexpect.bind fun _ ↦ .pure fun _ h ↦ h
  · exact (begins_alike limit room alike_children?).bind fun _ ↦
      hexpect.bind fun _ ↦ .pure fun _ h ↦ h

/-- The contents of a node get past the token at which a marker in their place fails. -/
theorem overtakes_nodeContent (limit room : Nat) :
    Overtakes (leadingMarker (Rule.inside limit room))
      (nodeContent (Rule.inside limit room)) := by
  intro start session copy failure after value last hclosed hbegins hplace hrun hagain
  have hcopy : start.Begins copy.cursor.toPlace := hplace ▸ hbegins
  have hposition : copy.cursor.position = session.cursor.position := congrArg Place.position hplace
  obtain ⟨-, hbehind, hprevious⟩ := shut_nodeContent.ok
    ⟨hcopy.closed hclosed, rfl, trivial⟩ hcopy hagain
  have hcloser := (Rule.progressive_inside limit room).productions .nodeContent
    (hcopy.closed hclosed) hagain
  have hlength := hcopy.length_eq
  have hlength' := hbehind.length_eq
  rw [Session.remaining, Session.remaining] at hcloser
  -- The marker halts at the bracket that closes the node.
  have hhalts : (start.peek (last.cursor.position - 1)).kind.halts = true := by
    rw [Place.previousKind?] at hprevious
    obtain ⟨previous, hhead, hkind⟩ := Option.map_eq_some_iff.mp hprevious
    obtain ⟨rest, hcons⟩ := List.head?_eq_some_iff.mp hhead
    rw [← hbehind.previous_eq hcons, hkind]
    rfl
  have hmarker : Stays start 0 (last.cursor.position - 1) Anywhere
      (leadingMarker (Rule.inside limit room)) fun _ ↦ Anywhere :=
    (stays_run_marker hhalts limit room 0).bind fun _ ↦
      (Stays.expect (ne_of_halts hhalts rfl)).bind fun _ ↦ .done
  obtain ⟨index, hindex, htoken⟩ := hmarker.error ⟨hbegins, Nat.zero_le _, by omega⟩ trivial hrun
  exact ⟨hbehind, index, by omega, htoken⟩

end Grammar

end CorpusQuery
