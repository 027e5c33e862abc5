import CorpusQuery.Proofs.Coupling.Index

/-!
Brackets by their indices. The height of an index is the number of brackets that are open before it.
Balanced tokens go from an index to one of the same height and never below it; enclosed tokens have
their commas at greater heights, unless a loop begins before them. Up to a negation there is no way
from the first of them to a comma that stays level (`Place.Enclosed.not_comma`).
-/

set_option autoImplicit false
set_option relaxedAutoImplicit false

namespace CorpusQuery

open CorpusQuery.Grammar

/-! ### Brackets -/

/-- How many more brackets are open behind a token than before it. -/
def Kind.rise : Kind → Int
  | .symbol .leftParen | .symbol .leftBracket | .symbol .leftBrace => 1
  | .symbol .rightParen | .symbol .rightBracket | .symbol .rightBrace => -1
  | _ => 0

/-- Neither a bracket nor a comma nor the end of the input. -/
def Kind.isFlat (kind : Kind) : Bool :=
  kind.rise == 0 && kind != .symbol .comma && kind != .endOfInput

theorem Kind.isFlat_iff {kind : Kind} : kind.isFlat = true ↔
    kind.rise = 0 ∧ kind ≠ .symbol .comma ∧ kind ≠ .endOfInput := by
  simp only [isFlat, Bool.and_eq_true, beq_iff_eq, bne_iff_ne, and_assoc]

namespace Place

variable (start : Place)

/-- How many brackets are open before the token at an index. -/
def height : Nat → Int
  | 0 => 0
  | index + 1 => height index + (start.peek index).kind.rise

/-- From an index up to another one all brackets that are closed have been opened, and all that are
opened have been closed. -/
structure Balanced (first last : Nat) : Prop where
  le : first ≤ last
  height_eq : start.height last = start.height first
  height_le : ∀ index, first ≤ index → index < last → start.height first ≤ start.height index

/-- Balanced tokens with no comma outside of their brackets, unless a loop begins before it. -/
structure Enclosed (first last : Nat) : Prop extends Balanced start first last where
  commas : ∀ index, first ≤ index → index < last → (start.peek index).kind = .symbol .comma →
    start.height first < start.height index ∨
      ∃ loop, first ≤ loop ∧ loop < index ∧ (start.peek loop).kind = .keyword .foreach

/-- As many brackets are opened as are closed, and no token begins a loop or negates. -/
structure Level (first last : Nat) : Prop where
  height_eq : start.height last = start.height first
  plain : ∀ index, first ≤ index → index < last → (start.peek index).kind ≠ .keyword .foreach ∧
    Continuation.isNegation (start.peek index).kind = false

/-- From an index on balanced tokens and then a closing token. -/
def Closes (close : Kind) (first last : Nat) : Prop :=
  ∃ middle, start.Balanced first middle ∧ (start.peek middle).kind = close ∧ last = middle + 1

variable {start} {first middle last : Nat}

instance : IsPreorder Nat start.Balanced where
  refl index := ⟨Nat.le_refl index, rfl, fun _ hle hlt ↦ absurd hlt (Nat.not_lt_of_le hle)⟩
  trans first middle last h h' := by
    refine ⟨h.le.trans h'.le, h'.height_eq.trans h.height_eq, fun index hle hlt ↦ ?_⟩
    rcases Nat.lt_or_ge index middle with hbefore | hbehind
    · exact h.height_le index hle hbefore
    · exact h.height_eq ▸ h'.height_le index hbehind hlt

instance : IsPreorder Nat start.Enclosed where
  refl index := ⟨refl_of start.Balanced index, fun _ hle hlt ↦ absurd hlt (Nat.not_lt_of_le hle)⟩
  trans first middle last h h' := by
    refine ⟨trans_of start.Balanced h.toBalanced h'.toBalanced, fun index hle hlt hcomma ↦ ?_⟩
    rcases Nat.lt_or_ge index middle with hbefore | hbehind
    · exact h.commas index hle hbefore hcomma
    · refine (h'.commas index hbehind hlt hcomma).imp (fun hhigher ↦ h.height_eq ▸ hhigher) ?_
      rintro ⟨loop, hloop, hbefore, hforeach⟩
      exact ⟨loop, h.le.trans hloop, hbefore, hforeach⟩

instance : IsPreorder Nat start.Level where
  refl index := ⟨rfl, fun _ hle hlt ↦ absurd hlt (Nat.not_lt_of_le hle)⟩
  trans first middle last h h' := by
    refine ⟨h'.height_eq.trans h.height_eq, fun index hle hlt ↦ ?_⟩
    rcases Nat.lt_or_ge index middle with hbefore | hbehind
    · exact h.plain index hle hbefore
    · exact h'.plain index hbehind hlt

theorem height_succ {kind : Kind} (hkind : (start.peek first).kind = kind) :
    start.height (first + 1) = start.height first + kind.rise := by
  rw [height, hkind]

theorem Balanced.token {kind : Kind} (hkind : (start.peek first).kind = kind)
    (h : kind.rise = 0) : start.Balanced first (first + 1) := by
  refine ⟨Nat.le_succ first, by rw [height_succ hkind, h, Int.add_zero], fun index hle hlt ↦ ?_⟩
  have hsame := Nat.le_antisymm hle (Nat.le_of_lt_succ hlt)
  exact Int.le_of_eq (congrArg start.height hsame)

theorem Enclosed.token {kind : Kind} (hkind : (start.peek first).kind = kind)
    (h : kind.isFlat = true) : start.Enclosed first (first + 1) := by
  obtain ⟨hrise, hcomma, -⟩ := Kind.isFlat_iff.mp h
  refine ⟨.token hkind hrise, fun index hle hlt hindex ↦ absurd ?_ hcomma⟩
  rwa [← Nat.le_antisymm hle (Nat.le_of_lt_succ hlt), hkind] at hindex

theorem Level.token {kind : Kind} (hkind : (start.peek first).kind = kind) (h : kind.rise = 0)
    (hforeach : kind ≠ .keyword .foreach) (hnegation : Continuation.isNegation kind = false) :
    start.Level first (first + 1) := by
  refine ⟨by rw [height_succ hkind, h, Int.add_zero], fun index hle hlt ↦ ?_⟩
  rw [← Nat.le_antisymm hle (Nat.le_of_lt_succ hlt), hkind]
  exact ⟨hforeach, hnegation⟩

/-- Brackets enclose what stands between them, commas included. -/
theorem Closes.enclosed {kind close : Kind} (h : start.Closes close (first + 1) last)
    (hkind : (start.peek first).kind = kind) (hopen : kind.rise = 1) (hclose : close.rise = -1) :
    start.Enclosed first last := by
  obtain ⟨middle, hinner, hlast, rfl⟩ := h
  have hinside : start.height (first + 1) = start.height first + 1 := by
    rw [height_succ hkind, hopen]
  have hhigher (index : Nat) (hle : first ≤ index) (hlt : index < middle + 1) :
      index = first ∨ start.height first < start.height index := by
    rcases Nat.lt_or_ge first index with hlater | hfirst
    · refine .inr (Int.lt_of_lt_of_le (Int.lt_succ _) ?_)
      rw [← hinside]
      rcases Nat.lt_or_ge index middle with hbefore | hmiddle
      · exact hinner.height_le index hlater hbefore
      · have hend := congrArg start.height (Nat.le_antisymm (Nat.le_of_lt_succ hlt) hmiddle)
        exact Int.le_of_eq (hend.trans hinner.height_eq).symm
    · exact .inl (Nat.le_antisymm hfirst hle)
  refine ⟨⟨?_, ?_, fun index hle hlt ↦ ?_⟩, fun index hle hlt hcomma ↦ ?_⟩
  · have := hinner.le
    omega
  · rw [height_succ hlast, hclose, hinner.height_eq, hinside]
    omega
  · rcases hhigher index hle hlt with rfl | hlt
    · exact Int.le_refl _
    · exact Int.le_of_lt hlt
  · rcases hhigher index hle hlt with rfl | hlt
    · rw [← hkind, hcomma] at hopen
      cases hopen
    · exact .inl hlt

/-- What balanced tokens begin with a loop, they enclose. -/
theorem Balanced.enclosed (h : start.Balanced first last)
    (hforeach : (start.peek first).kind = .keyword .foreach) : start.Enclosed first last := by
  refine ⟨h, fun index hle hlt hcomma ↦ .inr ⟨first, Nat.le_refl _, ?_, hforeach⟩⟩
  refine Nat.lt_of_le_of_ne hle fun heq ↦ ?_
  rw [← heq, hforeach] at hcomma
  cases hcomma

/-- Between brackets that are no loop and no negation. -/
theorem Level.wrap (h : start.Level (first + 1) middle)
    (hopen : (start.peek first).kind = .symbol .leftParen)
    (hclose : (start.peek middle).kind = .symbol .rightParen) :
    start.Level first (middle + 1) := by
  refine ⟨?_, fun index hle hlt ↦ ?_⟩
  · rw [height_succ hclose, h.height_eq, height_succ hopen]
    exact Int.add_neg_cancel_right _ 1
  · rcases Nat.lt_or_ge first index with hlater | hfirst
    · rcases Nat.lt_or_ge index middle with hbefore | hmiddle
      · exact h.plain index hlater hbefore
      · rw [Nat.le_antisymm (Nat.le_of_lt_succ hlt) hmiddle, hclose]
        exact ⟨nofun, rfl⟩
    · rw [← Nat.le_antisymm hle hfirst, hopen]
      exact ⟨nofun, rfl⟩

/-- Before a negation there is no way from the beginning of enclosed tokens to a comma on the same
level. -/
theorem Enclosed.not_comma (h : start.Enclosed first last)
    (hnegation : Continuation.isNegation (start.peek last).kind = true)
    (hlevel : start.Level first middle) (hle : first ≤ middle) :
    (start.peek middle).kind ≠ .symbol .comma := by
  intro hcomma
  rcases Nat.lt_trichotomy middle last with hlt | rfl | hgt
  · rcases h.commas middle hle hlt hcomma with hhigher | ⟨loop, hloop, hbefore, hforeach⟩
    · exact absurd hlevel.height_eq (Int.ne_of_gt hhigher)
    · exact (hlevel.plain loop hloop hbefore).1 hforeach
  · rw [hcomma] at hnegation
    cases hnegation
  · have hplain := (hlevel.plain last h.le hgt).2
    rw [hnegation] at hplain
    cases hplain

end Place

end CorpusQuery
