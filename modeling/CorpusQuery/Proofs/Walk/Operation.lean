import CorpusQuery.Proofs.Coupling.Index
import CorpusQuery.Proofs.Vocabulary.KindSet

/-!
Walks over a token list. A walk performs operations of the cursor one after the other: it looks
ahead, tests, passes tokens, asks for failures, marks places and goes back to places that it marked,
in whatever order and as often as it likes. All that one operation does to the cursor is that it
notes the kinds it tests and then stays, passes a token or goes back (`Walk.Performs`), and what
holds of every walk follows from that: its places are places in the list that it began with
(`Over.after`), and what the cursor expects is what has been tested since it last moved
(`expected_after`).
-/

set_option autoImplicit false
set_option relaxedAutoImplicit false

namespace CorpusQuery

/-- What can be asked of a cursor in the course of a walk. -/
inductive Operation where
  /-- Looks at the token so many places ahead. -/
  | peek (count : Nat)
  /-- Asks whether the token so many places ahead touches the one before it. -/
  | touches (count : Nat)
  | advance
  | check (kind : Kind)
  | checkAny (kinds : KindSet)
  | consume (kind : Kind)
  | consumeAny (kinds : KindSet)
  | expect (kind : Kind)
  | expecting (kinds : KindSet)
  /-- Asks for the failure at the token at hand. -/
  | failure (cause : Cause)
  /-- Asks for the failure for want of something that begins with one of the kinds. -/
  | missing (what : String) (kinds : KindSet)
  /-- Marks the place of the cursor. -/
  | mark
  /-- Goes back to a mark, given by its number among the marks of the walk. Without such a mark
  nothing happens. -/
  | rewind (number : Nat)
  deriving DecidableEq, Repr

/-- The kinds that an operation tests or notes. -/
def Operation.tested : Operation → KindSet
  | .check kind | .consume kind | .expect kind => .single kind
  | .checkAny kinds | .consumeAny kinds | .expecting kinds | .missing _ kinds => kinds
  | .peek _ | .touches _ | .advance | .failure _ | .mark | .rewind _ => ∅

/-- What an operation answers. -/
inductive Reply where
  | nothing
  | token (token : Token)
  | answer (yes : Bool)
  | failure (failure : Failure)
  deriving DecidableEq, Repr

theorem Cursor.expecting_empty (cursor : Cursor) : cursor.expecting ∅ = cursor := by
  rw [expecting, KindSet.union_empty]

/-- A cursor on its way, and the places that were marked, the first one first. -/
structure Walk where
  cursor : Cursor
  marks : List Place
  deriving DecidableEq, Repr

namespace Walk

/-- The beginning of a walk over a token list. -/
def ofTokens (tokens : List Token) : Walk := ⟨.ofTokens tokens, []⟩

/-- The walk in which only the cursor has changed. -/
def on (walk : Walk) (cursor : Cursor) : Walk := { walk with cursor }

/-- Performs an operation. -/
def perform (walk : Walk) : Operation → Reply × Walk
  | .peek count => (.token (walk.cursor.peek count), walk)
  | .touches count => (.answer (walk.cursor.touches count), walk)
  | .advance => (.token walk.cursor.here, walk.on walk.cursor.advance)
  | .check kind =>
    let (found, cursor) := walk.cursor.check kind
    (.answer found, walk.on cursor)
  | .checkAny kinds =>
    let (found, cursor) := walk.cursor.checkAny kinds
    (.answer found, walk.on cursor)
  | .consume kind =>
    let (found, cursor) := walk.cursor.consume kind
    (.answer found, walk.on cursor)
  | .consumeAny kinds =>
    match walk.cursor.consumeAny kinds with
    | (some token, cursor) => (.token token, walk.on cursor)
    | (none, cursor) => (.nothing, walk.on cursor)
  | .expect kind =>
    match walk.cursor.expect kind with
    | (.ok token, cursor) => (.token token, walk.on cursor)
    | (.error failure, cursor) => (.failure failure, walk.on cursor)
  | .expecting kinds => (.nothing, walk.on (walk.cursor.expecting kinds))
  | .failure cause => (.failure (walk.cursor.failure cause), walk)
  | .missing what kinds =>
    let (failure, cursor) := walk.cursor.expectedFailure what kinds
    (.failure failure, walk.on cursor)
  | .mark => (.nothing, { walk with marks := walk.marks ++ [walk.cursor.toPlace] })
  | .rewind number =>
    match walk.marks[number]? with
    | some place => (.nothing, walk.on (walk.cursor.rewind place))
    | none => (.nothing, walk)

/-- Where a walk is after some operations. -/
def after (walk : Walk) (operations : List Operation) : Walk :=
  operations.foldl (fun walk operation ↦ (walk.perform operation).2) walk

/-- What the operations of a walk answer. -/
def replies (walk : Walk) : List Operation → List Reply
  | [] => []
  | operation :: rest => (walk.perform operation).1 :: (walk.perform operation).2.replies rest

/-- The number of tokens that lie behind the cursor after some operations. -/
def position (walk : Walk) (operations : List Operation) : Nat :=
  (walk.after operations).cursor.position

variable {walk next : Walk} {tokens : List Token} {operation : Operation}

theorem after_append (walk : Walk) (operations rest : List Operation) :
    walk.after (operations ++ rest) = (walk.after operations).after rest :=
  List.foldl_append

theorem after_concat (walk : Walk) (operations : List Operation) (operation : Operation) :
    walk.after (operations ++ [operation]) = ((walk.after operations).perform operation).2 :=
  after_append walk operations [operation]

/-! ### One operation -/

/-- All that an operation can do: it notes kinds and stays where it is, or it passes the token at
hand after that, or it notes nothing and goes back to a mark. Only the place of the cursor is ever
marked. -/
inductive Performs (walk : Walk) (tested : KindSet) : Walk → Prop
  | stays : Performs walk tested (walk.on (walk.cursor.expecting tested))
  | passes : Performs walk tested (walk.on (walk.cursor.expecting tested).advance)
  | returns {place : Place} (hnone : tested = ∅) (hmark : place ∈ walk.marks) :
    Performs walk tested (walk.on (walk.cursor.rewind place))
  | marks (hnone : tested = ∅) :
    Performs walk tested { walk with marks := walk.marks ++ [walk.cursor.toPlace] }

theorem Performs.stays_of_empty (walk : Walk) : walk.Performs ∅ walk := by
  have hstays : walk.Performs ∅ (walk.on (walk.cursor.expecting ∅)) := .stays
  rwa [Cursor.expecting_empty] at hstays

theorem Performs.passes_of_empty (walk : Walk) :
    walk.Performs ∅ (walk.on walk.cursor.advance) := by
  have hpasses : walk.Performs ∅ (walk.on (walk.cursor.expecting ∅).advance) := .passes
  rwa [Cursor.expecting_empty] at hpasses

theorem performs (walk : Walk) (operation : Operation) :
    walk.Performs operation.tested (walk.perform operation).2 := by
  cases operation with
  | peek count => exact .stays_of_empty walk
  | touches count => exact .stays_of_empty walk
  | advance => exact .passes_of_empty walk
  | check kind => exact .stays
  | checkAny kinds => exact .stays
  | consume kind =>
    by_cases hkind : walk.cursor.kind = kind
    · simpa [perform, Cursor.consume, Cursor.check, hkind, Operation.tested] using .passes
    · simpa [perform, Cursor.consume, Cursor.check, hkind, Operation.tested] using .stays
  | consumeAny kinds =>
    by_cases hkind : kinds.contains walk.cursor.kind = true
    · simpa [perform, Cursor.consumeAny, Cursor.checkAny, hkind, Operation.tested] using .passes
    · simpa [perform, Cursor.consumeAny, Cursor.checkAny, hkind, Operation.tested] using .stays
  | expect kind =>
    by_cases hkind : walk.cursor.kind = kind
    · simpa [perform, Cursor.expect, Cursor.check, hkind, Operation.tested] using .passes
    · simpa [perform, Cursor.expect, Cursor.check, hkind, Operation.tested] using .stays
  | expecting kinds => exact .stays
  | failure cause => exact .stays_of_empty walk
  | missing what kinds => exact .stays
  | mark => exact .marks rfl
  | rewind number =>
    cases hmark : walk.marks[number]? with
    | none =>
      simp only [perform, hmark]
      exact .stays_of_empty walk
    | some place =>
      simp only [perform, hmark]
      exact .returns rfl (List.mem_of_getElem? hmark)

/-! ### The token list -/

/-- The cursor and the marks of a walk are places in one token list. -/
structure Over (tokens : List Token) (walk : Walk) : Prop where
  cursor : walk.cursor.tokens = tokens
  marks : ∀ place ∈ walk.marks, place.tokens = tokens

theorem Performs.over {tested : KindSet} (h : walk.Performs tested next)
    (hover : Over tokens walk) : Over tokens next := by
  cases h with
  | stays => exact ⟨hover.cursor, hover.marks⟩
  | passes => exact ⟨(Cursor.tokens_advance _).trans hover.cursor, hover.marks⟩
  | returns _ hmark => exact ⟨hover.marks _ hmark, hover.marks⟩
  | marks _ =>
    refine ⟨hover.cursor, fun place hplace ↦ ?_⟩
    rcases List.mem_append.mp hplace with hold | hnew
    · exact hover.marks place hold
    · rw [List.mem_singleton.mp hnew]
      exact hover.cursor

theorem over_ofTokens (tokens : List Token) :
    Over (Place.ofTokens tokens).tokens (ofTokens tokens) :=
  ⟨rfl, fun _ hplace ↦ absurd hplace List.not_mem_nil⟩

/-- No operation leaves the token list. -/
theorem Over.after (h : Over tokens walk) (operations : List Operation) :
    Over tokens (walk.after operations) := by
  induction operations generalizing walk with
  | nil => exact h
  | cons operation rest ih => exact ih ((walk.performs operation).over h)

/-! ### What is expected -/

/-- An operation that moves the cursor leaves nothing expected. -/
theorem Performs.expected_of_ne {tested : KindSet} (h : walk.Performs tested next)
    (hmoved : next.cursor.position ≠ walk.cursor.position) : next.cursor.expected = ∅ := by
  cases h with
  | stays => exact absurd rfl hmoved
  | passes =>
    apply Cursor.expected_advance_of_ne_nil
    intro hnil
    exact hmoved (Cursor.position_advance_of_nil hnil)
  | returns _ _ => exact if_neg hmoved
  | marks _ => exact absurd rfl hmoved

/-- An operation that leaves the cursor where it is adds what it tests. -/
theorem Performs.expected_of_eq {tested : KindSet} (h : walk.Performs tested next)
    (hkept : next.cursor.position = walk.cursor.position) :
    next.cursor.expected = walk.cursor.expected ∪ tested := by
  cases h with
  | stays => rfl
  | passes =>
    by_cases hahead : (walk.cursor.expecting tested).ahead = []
    · simp only [on, Cursor.advance_of_nil hahead]
      rfl
    · have hposition := Cursor.position_advance_of_ne_nil hahead
      have hsame : (walk.cursor.expecting tested).advance.position = walk.cursor.position := hkept
      rw [hsame] at hposition
      exact absurd hposition (Nat.ne_of_lt (Nat.lt_succ_self _))
  | returns hnone _ =>
    rw [hnone, KindSet.union_empty]
    exact if_pos hkept
  | marks hnone => rw [hnone, KindSet.union_empty]

/-- The last operations of a walk: since the last one of those before them, which moved the cursor
unless there is none, the cursor stands still. -/
structure Standing (walk : Walk) (before since : List Operation) : Prop where
  moved : ∀ earlier last, before = earlier ++ [last] →
    walk.position before ≠ walk.position earlier
  stands : ∀ first, first <+: since → walk.position (before ++ first) = walk.position before

/-- What a cursor expects is what has been tested since it last moved. -/
theorem expected_after (walk : Walk) (hnone : walk.cursor.expected = ∅)
    (operations : List Operation) :
    ∃ before since, operations = before ++ since ∧ walk.Standing before since ∧
      (walk.after operations).cursor.expected = .join (since.map Operation.tested) := by
  induction operations using List.reverseRecOn with
  | nil =>
    refine ⟨[], [], rfl, ⟨fun earlier last h ↦ by simp at h, fun first hfirst ↦ ?_⟩, hnone⟩
    rw [List.prefix_nil.mp hfirst]
    rfl
  | append_singleton operations operation ih =>
    obtain ⟨before, since, rfl, hstanding, hexpected⟩ := ih
    have hperforms := (walk.after (before ++ since)).performs operation
    rw [← after_concat] at hperforms
    by_cases hkept :
        walk.position (before ++ since ++ [operation]) = walk.position (before ++ since)
    · refine ⟨before, since ++ [operation], List.append_assoc _ _ _,
        ⟨hstanding.moved, fun first hfirst ↦ ?_⟩, ?_⟩
      · rcases List.prefix_concat_iff.mp hfirst with rfl | hshorter
        · rw [← List.append_assoc, hkept]
          exact hstanding.stands since (List.prefix_refl since)
        · exact hstanding.stands first hshorter
      · rw [hperforms.expected_of_eq hkept, hexpected, List.map_append, List.map_singleton,
          KindSet.join_concat]
    · refine ⟨before ++ since ++ [operation], [], (List.append_nil _).symm, ⟨?_, ?_⟩, ?_⟩
      · intro earlier last hsplit
        obtain ⟨rfl, -⟩ := List.append_inj' hsplit rfl
        exact hkept
      · intro first hfirst
        rw [List.prefix_nil.mp hfirst, List.append_nil]
      · exact hperforms.expected_of_ne hkept

end Walk

end CorpusQuery
