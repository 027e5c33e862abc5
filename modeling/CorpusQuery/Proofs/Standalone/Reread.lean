import CorpusQuery.Proofs.Extent.Discipline
import CorpusQuery.Proofs.Standalone.Grammar

/-!
Expressions are read again where they stand alone. An expression inside another one may be what the
loop of continuations had come to, and it may have been read under a level that left out what
follows it. `Place.Climbed` says how it came about: an operand that was read, and continuations of
it. In the excerpt of its tokens the same operand and the same continuations are read at the lowest
level, and then the excerpt ends (`Entry.parse_excerpt`).
-/

set_option autoImplicit false
set_option relaxedAutoImplicit false

namespace CorpusQuery

open CorpusQuery.Parser CorpusQuery.Place CorpusQuery.Grammar

variable {start short : Place} {limit room first last : Nat}

/-- An expression that was read from some tokens of a list below a nesting limit, be it all that
was read there or be it continued. -/
inductive Place.Climbed (start : Place) (limit : Nat) : Phrase .expression → Nat → Nat → Prop
  | operand {room : Nat} {session after : Session} {phrase : Phrase .expression}
    (hroom : room < limit) (hbegins : start.Begins session.cursor.toPlace)
    (hrun : Grammar.operand (Rule.inside limit room) session = .ok phrase after) :
    Climbed start limit phrase session.cursor.position after.cursor.position
  | continuation {room least first : Nat} {session after : Session}
    {left next : Phrase .expression} (hroom : room < limit)
    (hleft : Climbed start limit left first session.cursor.position)
    (hbegins : start.Begins session.cursor.toPlace)
    (hrun : Grammar.continuation (Rule.inside limit room) least left session =
      .ok (some next) after) :
    Climbed start limit next first after.cursor.position

/-- How an expression was read, and that its last token leads to no set predicate. -/
def Place.climbing (start : Place) (limit : Nat) : Reading := fun phrase first last ↦
  start.Climbed limit phrase first last ∧
    Continuation.leadsSet (start.peek (last - 1)).kind = false

/-! ### Reading expressions -/

theorem Place.Begins.settled_iff {place : Place} (h : start.Begins place)
    (hpos : 0 < place.position) :
    place.Settled ↔ Continuation.leadsSet (start.peek (place.position - 1)).kind = false := by
  cases hbehind : place.behind with
  | nil => exact absurd (congrArg List.length hbehind) hpos.ne'
  | cons previous rest =>
    rw [← h.previous_eq hbehind, Settled, previousKind?, hbehind]
    exact ⟨fun h ↦ h _ rfl, fun h _ hkind ↦ by cases hkind; exact h⟩

/-- What every run shows is the case. -/
theorem Parser.From.of_run {α : Type} {parser : Parser α} {holds holds' : α → Nat → Prop}
    (h : From start first parser holds)
    (hholds : ∀ session value after, Fit start.total Untraced session →
      start.At first session.cursor.toPlace → parser session = .ok value after →
        start.Begins after.cursor.toPlace → first ≤ after.cursor.position →
          holds value after.cursor.position → holds' value after.cursor.position) :
    From start first parser holds' := by
  intro session hfit hplace
  cases hrun : parser session with
  | error failure after => exact Ensures.error h hfit hplace hrun
  | ok value after =>
    obtain ⟨hafter, hbegins, hle, hvalue⟩ := Ensures.ok h hfit hplace hrun
    exact ⟨hafter, hbegins, hle, hholds session value after hfit hplace hrun hbegins hle hvalue⟩

theorem Place.within_climbing (hroom : room < limit) :
    (start.climbing limit).Within start (Rule.inside limit room) := by
  have hending := Rule.ends_inside start.total limit room
  constructor
  · intro first
    have hforward : From start first (operand (Rule.inside limit room)) fun _ last ↦ first < last :=
      .forward (Rule.progressive_inside limit room) .operand alike_operand.from_inside
    refine hforward.of_run fun session phrase after hfit hplace hrun hbegins _ hlt ↦ ?_
    have hsettled := (Ensures.ok (ends_operand hending) hfit hplace hrun).2
    refine ⟨?_, (hbegins.settled_iff (Nat.zero_lt_of_lt hlt)).mp hsettled⟩
    rw [← hplace.2]
    exact .operand hroom hplace.1 hrun
  · intro least left first middle hleft
    have hany : From start middle (continuation (Rule.inside limit room) least left)
        fun _ _ ↦ True := (alike_continuation least left).from_inside
    refine hany.of_run fun session next? after hfit hplace hrun hbegins hle _ next hnext ↦ ?_
    subst hnext
    obtain ⟨hclimbed, hleads⟩ : start.climbing limit left first middle := hleft.holds
    have hpos : 0 < middle := Nat.zero_lt_of_lt hleft.lt
    have hgiven : session.cursor.Settled :=
      (hplace.1.settled_iff (hplace.2 ▸ hpos)).mpr (hplace.2 ▸ hleads)
    have hsettled := (Ensures.ok (ends_continuation hending least left) hfit hgiven hrun).2
    refine ⟨?_, (hbegins.settled_iff (hpos.trans_le hle)).mp hsettled⟩
    exact .continuation hroom (hplace.2 ▸ hclimbed) hplace.1 hrun

/-! ### Reading them again -/

/-- What goes on at some level goes on at the lowest one. -/
theorem Grammar.continuation_zero {scope : Scope} {least : Nat} {left next : Phrase .expression}
    {session after : Session}
    (hrun : continuation scope least left session = .ok (some next) after) :
    continuation scope 0 left session = .ok (some next) after := by
  rw [continuation, bind_look] at hrun ⊢
  cases hat : Continuation.at? session.cursor.toPlace with
  | none =>
    rw [hat] at hrun
    cases hrun
  | some found =>
    rw [hat] at hrun
    by_cases hlevel : found.level < least
    · simp only [if_pos hlevel] at hrun
      cases hrun
    · simp only [if_neg hlevel] at hrun
      simp only [Nat.not_lt_zero, if_false]
      exact hrun

/-- In the excerpt the loop of continuations comes to the expression as well. -/
theorem Place.Climbed.reread {length : Nat} {phrase : Phrase .expression}
    (h : start.Climbed limit phrase first last) (hexcerpt : short.Excerpt start first length)
    (hle : last ≤ first + length) {session : Session}
    (hsession : short.At 0 session.cursor.toPlace) :
    let step := Grammar.continuation (Rule.inside limit (limit - 1)) 0
    ∃ operand between after,
      Grammar.operand (Rule.inside limit (limit - 1)) session = .ok operand between ∧
        iterate step operand between = iterate step phrase after ∧
          short.Begins after.cursor.toPlace ∧ last = after.cursor.position + first ∧
            0 < after.cursor.position ∧ after.overflow = session.overflow := by
  intro step
  induction h with
  | @operand room original last' phrase hroom hbegins hrun =>
    have hs := Rule.carried_inside hexcerpt limit limit (Nat.le_sub_one_of_lt hroom)
    have hplaces : short.Abreast start original.cursor.position session.cursor.toPlace
        original.cursor.toPlace := ⟨hsession.1, hbegins, by rw [hsession.2, Nat.zero_add]⟩
    obtain ⟨after, hcopied, hplaces', hoverflow⟩ :=
      (carries_operand hs).copies original session phrase last' hplaces (Nat.zero_le _) hrun hle
    have hlt := hs.forward .operand alike_operand original phrase last'
      (hbegins.closed hexcerpt.closed) hrun
    have hposition := hplaces'.position_eq
    exact ⟨phrase, after, after, hcopied, rfl, hplaces'.begins, hposition, by omega, hoverflow⟩
  | @continuation room least first original last' left next hroom hleft hbegins hrun ih =>
    have hs := Rule.carried_inside hexcerpt limit limit (Nat.le_sub_one_of_lt hroom)
    have hclosed := hbegins.closed hexcerpt.closed
    have hpast := (hs.onward (alike_continuation least left) original (some next) last' hclosed
      hrun).2
    obtain ⟨operand, between, middle, hoperand, hiterate, hmiddle, hposition, hpos, hoverflow⟩ :=
      ih hexcerpt (hpast.trans hle)
    obtain ⟨after, hcopied, hplaces, hoverflow'⟩ := (carries_continuation hs least left).copies
      original middle (some next) last' ⟨hmiddle, hbegins, hposition⟩ hpos hrun hle
    have hstep : step left middle = .ok (some next) after := continuation_zero hcopied
    have hprogressive := Rule.progressive_inside limit (limit - 1)
    have hcloser := hprogressive.loops (.expression 0) (hmiddle.closed hexcerpt.closed_short) hstep
    have hposition' := hplaces.position_eq
    refine ⟨operand, between, after, hoperand, hiterate.trans (iterate_of_closer hstep hcloser),
      hplaces.begins, hposition', ?_, hoverflow'.trans hoverflow⟩
    omega

theorem Place.Climbed.limit_pos {phrase : Phrase .expression}
    (h : start.Climbed limit phrase first last) : 0 < limit := by
  cases h with
  | operand hroom => exact Nat.zero_lt_of_lt hroom
  | continuation hroom => exact Nat.zero_lt_of_lt hroom

/-- An expression is what is read of the excerpt of its tokens. -/
theorem Entry.parse_excerpt {tokens : List Token} {length : Nat} {phrase : Phrase .expression}
    (hexcerpt : (Place.ofTokens tokens).Excerpt start first length)
    (h : start.Climbed limit phrase first (first + length)) :
    (Entry.expression.parse limit tokens).outcome = .ok phrase := by
  obtain ⟨room, rfl⟩ : ∃ room, limit = room + 1 := ⟨limit - 1, by have := h.limit_pos; omega⟩
  let session := entered "expression" (room + 1 - room) (.ofTokens tokens)
  have hsession : (Place.ofTokens tokens).At 0 session.cursor.toPlace := at_ofTokens tokens
  obtain ⟨operand, between, after, hoperand, hiterate, hafter, hposition, -, hoverflow⟩ :=
    h.reread hexcerpt (Nat.le_refl _) hsession
  have hend : length ≤ after.cursor.position := by omega
  have hkind : after.cursor.kind = .endOfInput := by
    rw [Place.kind, hafter.here_eq]
    exact hexcerpt.closed_short.kind_peek (hexcerpt.length_eq ▸ hend)
  have hstop : Grammar.continuation (Rule.inside (room + 1) room) 0 phrase after =
      .ok none after := by
    rw [continuation, bind_look, Continuation.at?_of_endOfInput hkind]
    rfl
  have hbody : Grammar.expression (Rule.inside (room + 1) room) 0 session = .ok phrase after :=
    (bind_of_ok hoperand _).trans (hiterate.trans (iterate_of_none hstop))
  have hexpression : (Scope.top (room + 1)).expression 0 (.ofTokens tokens) =
      .ok phrase (left "expression" (room + 1 - room) none after) := enter_of_ok hbody
  have hexpect : expect .endOfInput (left "expression" (room + 1 - room) none after) =
      .ok _ _ := expect_of_kind hkind
  have hcomplete : Entry.expression.complete (.top (room + 1)) (.ofTokens tokens) = .ok phrase _ :=
    (bind_of_ok hexpression _).trans (bind_of_ok hexpect _)
  have hnone : after.overflow = none := hoverflow
  simp only [parse, hcomplete]
  simp only [left, Session.tested, Session.passed, hnone, Option.elim_none]

end CorpusQuery
