import CorpusQuery.Proofs.Acceptance.Verge

/-!
Two token lists that part at an index. Up to it they are the same, and as long as two parses have
neither tested a kind that one of the lists has there nor looked further, they go the same way
(`Fork.Sessions`). A kind that the first parse tests at the fork and that the second list has there
leads the second parse past it, and the other way round. What the first parse has noted as expected
when it fails at the fork is therefore no kind that the second list has there, unless the second
parse went on (`Fork.Ends`).

Some readings end differently in the two parses although neither has passed the fork. How they may
is a parameter (`Fork.Stray`), and what follows them has to make up for it.
-/

set_option autoImplicit false
set_option relaxedAutoImplicit false

namespace CorpusQuery

open CorpusQuery.Parser CorpusQuery.Grammar

/-! ### The fork -/

/-- Two token lists that agree before an index. -/
structure Fork where
  left : Verge
  right : Verge
  index_eq : right.index = left.index
  agree : ∀ i < left.index, right.start.peek i = left.start.peek i
  start_lt : ∀ i < left.index,
    (left.start.peek i).span.start < (left.start.peek left.index).span.start

namespace Fork

variable (fork : Fork)

/-- So many tokens are left before the fork. -/
def Ample (count : Nat) (place : Place) : Prop := place.position + count ≤ fork.left.index

/-- At the fork none of the kinds is at hand in either list. -/
def Clear (kinds : KindSet) (place : Place) : Prop :=
  place.position = fork.left.index →
    kinds.contains fork.left.kind = false ∧ kinds.contains fork.right.kind = false

/-- The kind that the second list has at the fork is not expected there. -/
def Spared (cursor : Cursor) : Prop :=
  cursor.position = fork.left.index → cursor.expected.contains fork.right.kind = false

/-- Two parses that have gone the same way and have not passed the fork. -/
structure Sessions (session copy : Session) : Prop where
  begins : fork.left.start.Begins session.cursor.toPlace
  begins_copy : fork.right.start.Begins copy.cursor.toPlace
  position_eq : copy.cursor.position = session.cursor.position
  position_le : session.cursor.position ≤ fork.left.index
  spared : fork.Spared session.cursor

/-- A failure at the fork does not expect the kind that the second list has there. -/
def Spares (failure : Failure) : Prop :=
  failure.token.span.start = (fork.left.start.peek fork.left.index).span.start →
    failure.expected.contains fork.right.kind = false

variable {fork} {α β γ δ ε ζ : Type} {session copy after after' : Session}

theorem Ample.mono {more less : Nat} {place : Place} (h : fork.Ample more place)
    (hle : less ≤ more) : fork.Ample less place :=
  Nat.le_trans (Nat.add_le_add_left hle _) h

theorem Clear.mono {kinds more : KindSet} {place : Place} (h : fork.Clear more place)
    (hsub : ∀ kind, kinds.contains kind = true → more.contains kind = true) :
    fork.Clear kinds place := by
  have hmem {kind : Kind} (hmore : more.contains kind = false) : kinds.contains kind = false :=
    Bool.eq_false_iff.mpr fun hkind ↦ by rw [hsub kind hkind] at hmore; cases hmore
  exact fun heq ↦ ⟨hmem (h heq).1, hmem (h heq).2⟩

theorem Clear.union {kinds kinds' : KindSet} {place : Place} (h : fork.Clear kinds place)
    (h' : fork.Clear kinds' place) : fork.Clear (kinds ∪ kinds') place := fun heq ↦ by
  rw [KindSet.contains_union, KindSet.contains_union, (h heq).1, (h heq).2, (h' heq).1,
    (h' heq).2]
  exact ⟨rfl, rfl⟩

theorem Ample.clear {place : Place} (h : fork.Ample 1 place) (kinds : KindSet) :
    fork.Clear kinds place := fun heq ↦ absurd h (by rw [Ample]; omega)

namespace Sessions

theorem at_left (h : fork.Sessions session copy)
    (heq : session.cursor.position = fork.left.index) : fork.left.At session.cursor.toPlace :=
  ⟨h.begins, heq⟩

theorem at_right (h : fork.Sessions session copy)
    (heq : session.cursor.position = fork.left.index) : fork.right.At copy.cursor.toPlace :=
  ⟨h.begins_copy, h.position_eq.trans (heq.trans fork.index_eq.symm)⟩

theorem eq_or_ample (h : fork.Sessions session copy) :
    session.cursor.position = fork.left.index ∨ fork.Ample 1 session.cursor.toPlace :=
  Nat.eq_or_lt_of_le h.position_le

theorem peek_eq (h : fork.Sessions session copy) {count : Nat}
    (hample : fork.Ample (count + 1) session.cursor.toPlace) :
    copy.cursor.peek count = session.cursor.peek count := by
  rw [h.begins_copy.peek_eq, h.begins.peek_eq, h.position_eq]
  exact fork.agree _ hample

theorem here_eq (h : fork.Sessions session copy) (hample : fork.Ample 1 session.cursor.toPlace) :
    copy.cursor.here = session.cursor.here := by
  have hpeek : copy.cursor.peek 0 = session.cursor.peek 0 := h.peek_eq hample
  rwa [Place.peek, Place.peek, Place.along_zero, Place.along_zero] at hpeek

theorem kind_eq (h : fork.Sessions session copy) (hample : fork.Ample 1 session.cursor.toPlace) :
    copy.cursor.kind = session.cursor.kind := congrArg Token.kind (h.here_eq hample)

theorem previous?_eq (h : fork.Sessions session copy) :
    copy.cursor.behind.head? = session.cursor.behind.head? := by
  have hposition : copy.cursor.behind.length = session.cursor.behind.length := h.position_eq
  have hle : session.cursor.behind.length ≤ fork.left.index := h.position_le
  cases hbehind : session.cursor.behind with
  | nil =>
    rw [hbehind] at hposition
    rw [List.eq_nil_of_length_eq_zero hposition]
  | cons previous rest =>
    cases hbehind' : copy.cursor.behind with
    | nil =>
      rw [hbehind, hbehind'] at hposition
      cases hposition
    | cons previous' rest' =>
      rw [hbehind, List.length_cons] at hle
      have hlast : session.cursor.position = rest.length + 1 := congrArg List.length hbehind
      have hprevious := h.begins.previous_eq hbehind
      have hprevious' := h.begins_copy.previous_eq hbehind'
      rw [h.position_eq, fork.agree _ (by omega), ← hprevious] at hprevious'
      rw [List.head?_cons, List.head?_cons, hprevious']

theorem previousKind?_eq (h : fork.Sessions session copy) :
    copy.cursor.previousKind? = session.cursor.previousKind? :=
  congrArg (Option.map Token.kind) h.previous?_eq

/-- Whether the token at hand touches the one before it is seen alike before the fork. -/
theorem touches_eq (h : fork.Sessions session copy) (hample : fork.Ample 1 session.cursor.toPlace) :
    copy.cursor.touches 0 = session.cursor.touches 0 := by
  have hprevious := h.previous?_eq
  rw [Place.touches, Place.touches, h.here_eq hample]
  cases hbehind : session.cursor.behind with
  | nil => rw [List.head?_eq_none_iff.mp (hprevious.trans (hbehind ▸ rfl))]
  | cons previous rest =>
    rw [hbehind, List.head?_cons] at hprevious
    obtain ⟨rest', hbehind'⟩ := List.head?_eq_some_iff.mp hprevious
    rw [hbehind']

theorem remaining_lt_iff {next next' : Session} (h : fork.Sessions session copy)
    (hnext : fork.Sessions next next') :
    next.remaining < session.remaining ↔ next'.remaining < copy.remaining := by
  have hlength := h.begins.length_eq
  have hlength' := h.begins_copy.length_eq
  have hlength₁ := hnext.begins.length_eq
  have hlength₂ := hnext.begins_copy.length_eq
  rw [h.position_eq] at hlength'
  rw [hnext.position_eq] at hlength₂
  simp only [Session.remaining]
  omega

theorem tested (h : fork.Sessions session copy) (kinds : KindSet)
    (hkinds : session.cursor.position = fork.left.index →
      kinds.contains fork.right.kind = false) :
    fork.Sessions (session.tested kinds) (copy.tested kinds) :=
  ⟨h.begins, h.begins_copy, h.position_eq, h.position_le, fun heq ↦ by
    change (session.cursor.expected ∪ kinds).contains _ = false
    rw [KindSet.contains_union, h.spared heq, hkinds heq]
    rfl⟩

theorem ahead_ne_nil {verge : Verge} {place : Place} (hbegins : verge.start.Begins place)
    (hlt : place.position < verge.index) : place.ahead ≠ [] := by
  intro hnil
  have hlength := hbegins.length_eq
  rw [hnil, List.length_nil] at hlength
  have hle := verge.index_le
  omega

theorem passed (h : fork.Sessions session copy) (hample : fork.Ample 1 session.cursor.toPlace) :
    fork.Sessions session.passed copy.passed := by
  have hnil := ahead_ne_nil h.begins hample
  have hnil' := ahead_ne_nil h.begins_copy (by
    rw [fork.index_eq]
    exact h.position_eq ▸ hample)
  have hposition : session.passed.cursor.position = session.cursor.position + 1 :=
    Cursor.position_advance_of_ne_nil hnil
  have hposition' : copy.passed.cursor.position = copy.cursor.position + 1 :=
    Cursor.position_advance_of_ne_nil hnil'
  refine ⟨h.begins.advance, h.begins_copy.advance, ?_, hposition ▸ hample, fun _ ↦ ?_⟩
  · rw [hposition, hposition', h.position_eq]
  · rw [show session.passed.cursor.expected = ∅ from Cursor.expected_advance_of_ne_nil hnil]
    exact KindSet.contains_empty _

/-- Right before the fork the next token is the one that stands there. -/
theorem peekKind_one_left (h : fork.Sessions session copy)
    (hindex : session.cursor.position + 1 = fork.left.index) :
    session.cursor.toPlace.peekKind 1 = fork.left.kind := by
  rw [Verge.kind, ← hindex]
  exact Place.At.peekKind_eq ⟨h.begins, rfl⟩ 1

theorem peekKind_one_right (h : fork.Sessions session copy)
    (hindex : session.cursor.position + 1 = fork.left.index) :
    copy.cursor.toPlace.peekKind 1 = fork.right.kind := by
  rw [Verge.kind, fork.index_eq, ← hindex, ← h.position_eq]
  exact Place.At.peekKind_eq ⟨h.begins_copy, rfl⟩ 1

theorem spares_failure (h : fork.Sessions session copy) (cause : Cause) :
    fork.Spares (session.cursor.failure cause) := by
  intro hstart
  rcases h.eq_or_ample with heq | hample
  · exact h.spared heq
  · have hlt := fork.start_lt _ hample
    rw [← h.begins.here_eq] at hlt
    exact absurd hstart (Nat.ne_of_lt hlt)

end Sessions

theorem Spares.exhausted {failure other : Failure} (h : fork.Spares failure)
    (hother : fork.Spares other) : fork.Spares (other.exhausted [failure]) := by
  simp only [Failure.exhausted, List.foldl_cons, List.foldl_nil, Failure.further]
  split
  · exact h
  · split
    · rename_i heq
      intro hstart
      have hsame : other.token.span.start = (fork.left.start.peek fork.left.index).span.start := by
        rw [Failure.merge] at hstart
        dsimp only at hstart
        split at hstart <;> omega
      rw [Failure.merge, KindSet.contains_union, hother hsame, h (heq.trans hsame)]
      rfl
    · exact hother

theorem Spared.rewound {title : String} {depth : Nat} (h : fork.Spared after.cursor) :
    fork.Spared (rewound title depth session after).cursor := by
  intro heq
  change (if session.cursor.position = after.cursor.position then after.cursor.expected
    else ∅).contains fork.right.kind = false
  split
  · rename_i hsame
    exact h (hsame.symm.trans heq)
  · exact KindSet.contains_empty _

theorem Sessions.rewound {title title' : String} {depth depth' : Nat}
    (h : fork.Sessions session copy) (hspared : fork.Spared after.cursor) :
    fork.Sessions (Parser.rewound title depth session after)
      (Parser.rewound title' depth' copy after') :=
  ⟨h.begins, h.begins_copy, h.position_eq, h.position_le, hspared.rewound⟩

theorem Sessions.answered (h : fork.Sessions session copy) (hspared : fork.Spared after.cursor) :
    fork.Sessions (Parser.answered session after) (Parser.answered copy after') := by
  refine ⟨h.begins, h.begins_copy, h.position_eq, h.position_le, fun heq ↦ ?_⟩
  have hrewound : (Parser.rewound "" 0 session after).cursor.expected.contains fork.right.kind =
      false := hspared.rewound heq
  change (_ ∪ session.cursor.expected).contains fork.right.kind = false
  rw [KindSet.contains_union, h.spared heq, Bool.or_false]
  exact hrewound

/-! ### Ends -/

/-- How a run ended: with or without a failure, and where. -/
def ending : EStateM.Result Failure Session α → Option Failure × Cursor
  | .ok _ after => (none, after.cursor)
  | .error failure after => (some failure, after.cursor)

/-- In which ways two runs may end differently. -/
abbrev Stray : Type := Option Failure × Cursor → Option Failure × Cursor → Prop

/-- Two runs never end differently. -/
abbrev Never : Stray := fun _ _ ↦ False

/-- How two runs end of which neither has to have passed the fork. -/
inductive Ends (fork : Fork) (stray : Stray) (view : α → δ) :
    EStateM.Result Failure Session α → EStateM.Result Failure Session α → Prop
  | left {result result' : EStateM.Result Failure Session α}
      (h : fork.left.coupling.Escapes result) : Ends fork stray view result result'
  | right {result result' : EStateM.Result Failure Session α}
      (h : fork.right.coupling.Escapes result') : Ends fork stray view result result'
  | ok {value value' : α} {after after' : Session} (hvalue : view value = view value')
      (hafter : fork.Sessions after after') :
      Ends fork stray view (.ok value after) (.ok value' after')
  | error {failure failure' : Failure} {after after' : Session} (hfailure : fork.Spares failure)
      (hafter : fork.Spared after.cursor) :
      Ends fork stray view (.error failure after) (.error failure' after')
  | stray {result result' : EStateM.Result Failure Session α}
      (h : stray (ending result) (ending result')) : Ends fork stray view result result'

namespace Ends

variable {stray stray' : Stray} {view : α → δ} {view' : β → ε} {parser parser' : Parser α}
  {next next' : α → Parser β}

/-- What follows two runs ends as they do if they escape or fail. -/
theorem bind (h : fork.Ends stray view (parser session) (parser' copy))
    (hleft : ∀ value, Aloof fork.left.coupling (next value))
    (hright : ∀ value, Aloof fork.right.coupling (next' value))
    (hok : ∀ value value' after after', parser session = .ok value after →
      parser' copy = .ok value' after' → view value = view value' → fork.Sessions after after' →
        fork.Ends stray' view' (next value after) (next' value' after'))
    (hstray : stray (ending (parser session)) (ending (parser' copy)) →
      fork.Ends stray' view' ((parser >>= next) session) ((parser' >>= next') copy)) :
    fork.Ends stray' view' ((parser >>= next) session) ((parser' >>= next') copy) := by
  generalize hrun : parser session = result, hrun' : parser' copy = result' at h hstray
  cases h with
  | left h => exact .left (.bind (hrun ▸ h) hleft)
  | right h => exact .right (.bind (hrun' ▸ h) hright)
  | ok hvalue hafter =>
    rw [bind_of_ok hrun, bind_of_ok hrun']
    exact hok _ _ _ _ hrun hrun' hvalue hafter
  | error hfailure hafter =>
    rw [bind_of_error hrun, bind_of_error hrun']
    exact .error hfailure hafter
  | stray h => exact hstray h

end Ends

end Fork

end CorpusQuery
