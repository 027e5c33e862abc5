import CorpusQuery.Proofs.Diagnosis.Failure
import CorpusQuery.Proofs.Walk.Operation

/-!
Walks by index. A `Tape` is a token list that is read by index, the way a table in memory is: the
index is all that says where the reading stands, the kind of the token passed last is stored beside
it and saved in every mark together with it, and looking outside of the table gives nothing. A
cursor is such a tape (`Cursor.tape`), and a walk over the tape does what the walk of the cursor
does (`Walk.perform?_reel`). So the tape never looks outside of the table, and what it stores
twice never comes apart (`Walk.reel_sound`).
-/

set_option autoImplicit false
set_option relaxedAutoImplicit false

namespace CorpusQuery

/-- A token list that is read by index. -/
structure Tape where
  tokens : List Token
  index : Nat
  /-- The kind of the token passed last, stored beside the index. -/
  previous : Option Kind
  expected : KindSet
  deriving DecidableEq, Repr

namespace Tape

/-- What is saved of a tape in order to go back to where it stands. -/
structure Mark where
  index : Nat
  previous : Option Kind
  deriving DecidableEq, Repr

/-- The beginning of a token list, closed by the end of input if it is not yet. -/
def ofTokens (tokens : List Token) : Tape := ⟨Token.close tokens, 0, none, ∅⟩

/-- The token so many places ahead of the index, or the last one. -/
def peek? (tape : Tape) (count : Nat) : Option Token :=
  tape.tokens[min (tape.index + count) (tape.tokens.length - 1)]?

/-- Whether the token so many places ahead starts where the one before it ends. -/
def touches? (tape : Tape) : Nat → Option Bool
  | 0 =>
    if tape.index = 0 then some false
    else do
      let previous ← tape.tokens[tape.index - 1]?
      let here ← tape.peek? 0
      return previous.span.stop == here.span.start
  | count + 1 => do
    let first ← tape.peek? count
    let second ← tape.peek? (count + 1)
    return first.span.stop == second.span.start

/-- The token at hand, and the tape on which it is passed unless it is the last one. -/
def advance? (tape : Tape) : Option (Token × Tape) := do
  let here ← tape.peek? 0
  if tape.index < tape.tokens.length - 1 then
    return (here, { tape with index := tape.index + 1, previous := some here.kind, expected := ∅ })
  else return (here, tape)

def expecting (tape : Tape) (kinds : KindSet) : Tape :=
  { tape with expected := tape.expected ∪ kinds }

def mark (tape : Tape) : Mark := ⟨tape.index, tape.previous⟩

/-- Goes back to a mark. What was tested is forgotten if the index changes. -/
def rewind (tape : Tape) (mark : Mark) : Tape :=
  { tape with
    index := mark.index
    previous := mark.previous
    expected := if mark.index = tape.index then tape.expected else ∅ }

/-- The failure at the token at hand, for a cause. -/
def failure? (tape : Tape) (cause : Cause) : Option Failure := do
  return ⟨← tape.peek? 0, tape.expected, cause⟩

end Tape

/-- A tape on its way, and the marks that were taken, the first one first. -/
structure Reel where
  tape : Tape
  marks : List Tape.Mark
  deriving DecidableEq, Repr

namespace Reel

/-- The beginning of a walk over a token list. -/
def ofTokens (tokens : List Token) : Reel := ⟨.ofTokens tokens, []⟩

/-- The reel on which only the tape has changed. -/
def on (reel : Reel) (tape : Tape) : Reel := { reel with tape }

/-- Performs an operation, unless it has to look outside of the table. -/
def perform? (reel : Reel) : Operation → Option (Reply × Reel)
  | .peek count => do return (.token (← reel.tape.peek? count), reel)
  | .touches count => do return (.answer (← reel.tape.touches? count), reel)
  | .advance => do
    let (token, tape) ← reel.tape.advance?
    return (.token token, reel.on tape)
  | .check kind => do
    let here ← reel.tape.peek? 0
    return (.answer (here.kind == kind), reel.on (reel.tape.expecting (.single kind)))
  | .checkAny kinds => do
    let here ← reel.tape.peek? 0
    return (.answer (kinds.contains here.kind), reel.on (reel.tape.expecting kinds))
  | .consume kind => do
    let tested := reel.tape.expecting (.single kind)
    let here ← tested.peek? 0
    if here.kind == kind then
      let (_, passed) ← tested.advance?
      return (.answer true, reel.on passed)
    else return (.answer false, reel.on tested)
  | .consumeAny kinds => do
    let tested := reel.tape.expecting kinds
    let here ← tested.peek? 0
    if kinds.contains here.kind then
      let (token, passed) ← tested.advance?
      return (.token token, reel.on passed)
    else return (.nothing, reel.on tested)
  | .expect kind => do
    let tested := reel.tape.expecting (.single kind)
    let here ← tested.peek? 0
    if here.kind == kind then
      let (token, passed) ← tested.advance?
      return (.token token, reel.on passed)
    else return (.failure (← tested.failure? .unexpected), reel.on tested)
  | .expecting kinds => some (.nothing, reel.on (reel.tape.expecting kinds))
  | .failure cause => do return (.failure (← reel.tape.failure? cause), reel)
  | .missing what kinds => do
    let tested := reel.tape.expecting kinds
    return (.failure (← tested.failure? (.missing what)), reel.on tested)
  | .mark => some (.nothing, { reel with marks := reel.marks ++ [reel.tape.mark] })
  | .rewind number =>
    match reel.marks[number]? with
    | some mark => some (.nothing, reel.on (reel.tape.rewind mark))
    | none => some (.nothing, reel)

/-- Performs operations one after the other. -/
def run? (reel : Reel) : List Operation → Option (List Reply × Reel)
  | [] => some ([], reel)
  | operation :: rest => do
    let (reply, next) ← reel.perform? operation
    let (replies, last) ← next.run? rest
    return (reply :: replies, last)

end Reel

/-! ### Places by index -/

/-- The mark of a place. -/
def Place.toMark (place : Place) : Tape.Mark := ⟨place.position, place.previousKind?⟩

/-- The tape that a cursor stands for. -/
def Cursor.tape (cursor : Cursor) : Tape :=
  ⟨cursor.tokens, cursor.position, cursor.previousKind?, cursor.expected⟩

theorem Place.getElem?_along (here : Token) (ahead : List Token) (count : Nat) :
    (here :: ahead)[min count ahead.length]? = some (along here ahead count) := by
  induction ahead generalizing here count with
  | nil => simp [along]
  | cons next rest ih =>
    cases count with
    | zero => simp [along]
    | succ count =>
      rw [List.length_cons, Nat.add_min_add_right, List.getElem?_cons_succ, along]
      exact ih next count

@[simp] theorem Place.peek_zero (place : Place) : place.peek 0 = place.here :=
  along_zero place.here place.ahead

namespace Cursor

variable (cursor : Cursor)

@[simp] theorem tokens_tape : cursor.tape.tokens = cursor.tokens := rfl

@[simp] theorem index_tape : cursor.tape.index = cursor.position := rfl

@[simp] theorem expected_tape : cursor.tape.expected = cursor.expected := rfl

theorem length_tokens : cursor.tokens.length = cursor.position + cursor.ahead.length + 1 := by
  simp only [Place.tokens, Place.position, List.length_append, List.length_reverse,
    List.length_cons]
  omega

@[simp] theorem peek?_tape (count : Nat) : cursor.tape.peek? count = some (cursor.peek count) := by
  have hindex : min (cursor.position + count) (cursor.tokens.length - 1) =
      cursor.behind.reverse.length + min count cursor.ahead.length := by
    rw [length_tokens, Nat.add_sub_cancel, Nat.add_min_add_left, List.length_reverse,
      Place.position]
  rw [Tape.peek?, tokens_tape, index_tape, hindex, Place.tokens,
    List.getElem?_append_right (Nat.le_add_right _ _), Nat.add_sub_cancel_left]
  exact Place.getElem?_along _ _ _

/-- The token before the index is the one that was passed last. -/
theorem getElem?_previous {previous : Token} {rest : List Token}
    (h : cursor.behind = previous :: rest) :
    cursor.tokens[cursor.position - 1]? = some previous := by
  simp [Place.tokens, Place.position, h]

@[simp] theorem touches?_tape (count : Nat) :
    cursor.tape.touches? count = some (cursor.touches count) := by
  cases count with
  | zero =>
    cases hbehind : cursor.behind with
    | nil =>
      have hindex : cursor.position = 0 := by simp [Place.position, hbehind]
      simp [Tape.touches?, hindex, Place.touches, hbehind]
    | cons previous rest =>
      have hindex : cursor.position ≠ 0 := by simp [Place.position, hbehind]
      simp [Tape.touches?, hindex, getElem?_previous cursor hbehind, Place.touches, hbehind]
  | succ count => simp [Tape.touches?, peek?_tape, Place.touches]

theorem tape_advance_of_cons {next : Token} {rest : List Token} (h : cursor.ahead = next :: rest) :
    cursor.advance.tape =
      { cursor.tape with
        index := cursor.position + 1
        previous := some cursor.here.kind
        expected := ∅ } := by
  have htokens := tokens_advance cursor
  rw [tape, htokens, advance_of_cons h]
  rfl

@[simp] theorem advance?_tape :
    cursor.tape.advance? = some (cursor.here, cursor.advance.tape) := by
  have hlength := length_tokens cursor
  cases hahead : cursor.ahead with
  | nil =>
    have hlast : ¬cursor.position < cursor.tokens.length - 1 := by
      rw [hlength, hahead, List.length_nil]
      omega
    simp [Tape.advance?, hlast, advance_of_nil hahead]
  | cons next rest =>
    have hlater : cursor.position < cursor.tokens.length - 1 := by
      rw [hlength, hahead, List.length_cons]
      omega
    simp [Tape.advance?, hlater, tape_advance_of_cons cursor hahead]

@[simp] theorem expecting_tape (kinds : KindSet) :
    cursor.tape.expecting kinds = (cursor.expecting kinds).tape := rfl

@[simp] theorem failure?_tape (cause : Cause) :
    cursor.tape.failure? cause = some (cursor.failure cause) := by
  simp [Tape.failure?, failure]

theorem rewind_tape {place : Place} (h : place.tokens = cursor.tokens) :
    cursor.tape.rewind place.toMark = (cursor.rewind place).tape := by
  simp only [tape, Tape.rewind, Place.toMark, toPlace_rewind, h]
  rfl

end Cursor

namespace Walk

/-- The reel that a walk stands for. -/
def reel (walk : Walk) : Reel := ⟨walk.cursor.tape, walk.marks.map Place.toMark⟩

variable {walk : Walk} {tokens : List Token}

@[simp] theorem tape_reel (walk : Walk) : walk.reel.tape = walk.cursor.tape := rfl

@[simp] theorem on_reel (walk : Walk) (cursor : Cursor) :
    walk.reel.on cursor.tape = (walk.on cursor).reel := rfl

theorem getElem?_marks_reel (walk : Walk) (number : Nat) :
    walk.reel.marks[number]? = walk.marks[number]?.map Place.toMark := List.getElem?_map

/-- What a walk does and answers, the reel that it stands for does and answers too, and it never
looks outside of the table. -/
theorem perform?_reel (h : Over tokens walk) (operation : Operation) :
    walk.reel.perform? operation =
      some ((walk.perform operation).1, (walk.perform operation).2.reel) := by
  cases operation with
  | peek count => simp [Reel.perform?, perform]
  | touches count => simp [Reel.perform?, perform]
  | advance => simp [Reel.perform?, perform]
  | check kind => simp [Reel.perform?, perform, Cursor.check, Place.kind]
  | checkAny kinds => simp [Reel.perform?, perform, Cursor.checkAny, Place.kind]
  | consume kind =>
    by_cases hkind : walk.cursor.here.kind = kind
    · simp [Reel.perform?, perform, Cursor.consume, Cursor.check, Place.kind, hkind]
    · simp [Reel.perform?, perform, Cursor.consume, Cursor.check, Place.kind, hkind]
  | consumeAny kinds =>
    by_cases hkind : kinds.contains walk.cursor.here.kind = true
    · simp [Reel.perform?, perform, Cursor.consumeAny, Cursor.checkAny, Place.kind, hkind]
    · simp [Reel.perform?, perform, Cursor.consumeAny, Cursor.checkAny, Place.kind, hkind]
  | expect kind =>
    by_cases hkind : walk.cursor.here.kind = kind
    · simp [Reel.perform?, perform, Cursor.expect, Cursor.check, Place.kind, hkind]
    · simp [Reel.perform?, perform, Cursor.expect, Cursor.check, Place.kind, hkind]
  | expecting kinds => simp [Reel.perform?, perform]
  | failure cause => simp [Reel.perform?, perform]
  | missing what kinds => simp [Reel.perform?, perform, Cursor.expectedFailure]
  | mark => simp [Reel.perform?, perform, reel, Tape.mark, Place.toMark, Cursor.tape]
  | rewind number =>
    cases hmark : walk.marks[number]? with
    | none => simp [Reel.perform?, perform, getElem?_marks_reel, hmark]
    | some place =>
      have htokens : place.tokens = walk.cursor.tokens :=
        (h.marks place (List.mem_of_getElem? hmark)).trans h.cursor.symm
      simp [Reel.perform?, perform, getElem?_marks_reel, hmark,
        Cursor.rewind_tape walk.cursor htokens]

/-- A whole walk and the reel that it stands for stay together. -/
theorem run?_reel (h : Over tokens walk) (operations : List Operation) :
    walk.reel.run? operations =
      some (walk.replies operations, (walk.after operations).reel) := by
  induction operations generalizing walk with
  | nil => rfl
  | cons operation rest ih =>
    have hnext := ih ((walk.performs operation).over h)
    simp only [Reel.run?, perform?_reel h, Option.bind_eq_bind, Option.bind_some, hnext]
    rfl

theorem reel_ofTokens (tokens : List Token) :
    (ofTokens tokens).reel = Reel.ofTokens tokens := by
  have hbehind := (Place.begins_ofTokens tokens).behind_eq
  have htokens := Place.tokens_ofTokens_eq_close tokens
  simp only [reel, ofTokens, Cursor.ofTokens, Cursor.tape, Place.position, Place.previousKind?,
    hbehind, htokens]
  rfl

end Walk

/-! ### What a tape keeps -/

/-- What a tape over some tokens keeps: its table is closed by the end of the input, the index is in
bounds, and the kind that is stored beside it is that of the token before it. -/
structure Tape.Sound (tokens : List Token) (tape : Tape) : Prop where
  tokens_eq : tape.tokens = Token.close tokens
  closed : Token.Closed tape.tokens
  index_lt : tape.index < tape.tokens.length
  /-- Whatever lies ahead can be looked at, from the end on the last token. -/
  peek? : ∀ count, ∃ token, tape.peek? count = some token ∧ token ∈ tape.tokens
  previous_none : tape.previous = none ↔ tape.index = 0
  previous_some : ∀ index, tape.index = index + 1 →
    ∃ token, tape.tokens[index]? = some token ∧ tape.previous = some token.kind

theorem Cursor.previousKind?_eq_none_iff (cursor : Cursor) :
    cursor.previousKind? = none ↔ cursor.position = 0 := by
  simp [Place.previousKind?, Place.position]

theorem Token.closed_close (tokens : List Token) : Closed (close tokens) := by
  by_cases hclosed : Closed tokens
  · rwa [close, if_pos hclosed]
  · rw [close, if_neg hclosed, Closed, List.getLast?_concat]
    rfl

theorem Cursor.sound_tape {tokens : List Token} {cursor : Cursor}
    (h : cursor.tokens = Token.close tokens) : cursor.tape.Sound tokens where
  tokens_eq := h
  closed := by
    rw [tokens_tape, h]
    exact Token.closed_close tokens
  index_lt := by
    rw [index_tape, tokens_tape, length_tokens]
    omega
  peek? count := ⟨cursor.peek count, peek?_tape cursor count,
    List.mem_of_getElem? (peek?_tape cursor count)⟩
  previous_none := cursor.previousKind?_eq_none_iff
  previous_some index hindex := by
    have hposition : cursor.behind.length = index + 1 := hindex
    obtain ⟨previous, rest, hbehind⟩ :=
      List.exists_cons_of_ne_nil (List.ne_nil_of_length_eq_add_one hposition)
    have hget := cursor.getElem?_previous hbehind
    rw [Place.position, hposition, Nat.add_sub_cancel] at hget
    exact ⟨previous, hget, by simp [tape, Place.previousKind?, hbehind]⟩

/-- Whatever is done on the way, the reel never looks outside of the table and answers what the
walk of the cursor answers; its table stays as it is, its index in bounds, and the kind beside the
index that of the token before it; and what is expected is what has been tested since the index last
changed. -/
theorem Walk.reel_sound (tokens : List Token) (operations : List Operation) :
    let walk := ofTokens tokens
    (Reel.ofTokens tokens).run? operations =
        some (walk.replies operations, (walk.after operations).reel) ∧
      (walk.after operations).reel.tape.Sound tokens ∧
      ∃ before since, operations = before ++ since ∧ walk.Standing before since ∧
        (walk.after operations).reel.tape.expected = .join (since.map Operation.tested) := by
  intro walk
  have hover := over_ofTokens tokens
  refine ⟨?_, ?_, expected_after walk rfl operations⟩
  · rw [← reel_ofTokens]
    exact run?_reel hover operations
  · have htokens := (hover.after operations).cursor
    rw [Place.tokens_ofTokens_eq_close] at htokens
    exact Cursor.sound_tape htokens

end CorpusQuery
