import CorpusQuery.Proofs.Sameness.Outline

/-!
Trees are compared up to their spans. The phrases of a tree are numbered in the order of its rows,
and `Tree.moved` changes the span of each of them as its number says. Moving phrases changes the
spans in the rows and nothing else (`Phrase.outline_moved`); it leaves the bare form of a tree as it
is (`Tree.bare_moved`), and the bare form is one such move itself (`Tree.moved_zero`). Since a
phrase can be told from its outline, two phrases are the same just if their outlines differ in
nothing but spans, and just if one becomes the other by a move (`Tree.same_up_to_spans`).
-/

set_option autoImplicit false
set_option relaxedAutoImplicit false

namespace CorpusQuery

namespace Row

/-- The row of a phrase with its span changed as the number of the phrase says. -/
def moved (move : Nat → Span → Span) (number : Nat) (row : Row) : Row :=
  { row with span := move number row.span }

/-- What a row shows besides the span. -/
def bare (row : Row) : Row := { row with span := .zero }

theorem moved_of_bare_eq {row other : Row} {move : Nat → Span → Span} {number : Nat}
    (hbare : row.bare = other.bare) (hspan : move number row.span = other.span) :
    row.moved move number = other := by
  cases row
  cases other
  simp_all [moved, bare]

end Row

namespace Tree

variable {role : Role} {move : Nat → Span → Span}

/-- The number of phrases of a tree, at any depth. -/
def count : {role : Role} → Tree role → Nat
  | _, .phrase _ _ parts => parts.count + 1
  | _, .nil => 0
  | _, .one part rest => part.count + rest.count
  | _, .absent rest => rest.count
  | _, .present part rest => part.count + rest.count
  | _, .done rest => rest.count
  | _, .more part rest => part.count + rest.count

/-- Changes the span of every phrase of a tree as its number says, the first one having the number
given. -/
def moved (move : Nat → Span → Span) : {role : Role} → (number : Nat) → Tree role → Tree role
  | _, number, .phrase form span parts =>
    .phrase form (move number span) (parts.moved move (number + 1))
  | _, _, .nil => .nil
  | _, number, .one part rest =>
    .one (part.moved move number) (rest.moved move (number + part.count))
  | _, number, .absent rest => .absent (rest.moved move number)
  | _, number, .present part rest =>
    .present (part.moved move number) (rest.moved move (number + part.count))
  | _, number, .done rest => .done (rest.moved move number)
  | _, number, .more part rest =>
    .more (part.moved move number) (rest.moved move (number + part.count))

@[simp] theorem size_moved (tree : Tree role) (number : Nat) :
    (tree.moved move number).size = tree.size := by
  induction tree generalizing number with
  | phrase | nil => rfl
  | one part rest ihpart ihrest | present part rest ihpart ihrest | more part rest ihpart ihrest =>
    simp [moved, size, ihrest]
  | absent rest ih | done rest ih => exact ih number

/-- Moving the phrases of a tree changes the spans in its rows and nothing else. The rows behind the
tree are numbered on from its last phrase, as those behind a part are by the other parts. -/
theorem rowsBefore_moved (tree : Tree role) (move : Nat → Span → Span) (depth : Nat)
    (field : String) (rows : List Row) (number : Nat) :
    (tree.moved move number).rowsBefore depth field
        (rows.mapIdx fun index ↦ Row.moved move (number + tree.count + index)) =
      (tree.rowsBefore depth field rows).mapIdx fun index ↦ Row.moved move (number + index) := by
  induction tree generalizing depth field rows number with
  | phrase form span parts ih =>
    have hparts := ih (depth + 1) field rows (number + 1)
    simp only [moved, rowsBefore, size_moved, List.mapIdx_cons, count]
    congr 1
    simpa only [Nat.add_assoc, Nat.add_comm 1, Nat.add_left_comm 1] using hparts
  | nil => rfl
  | one part rest ihpart ihrest | present part rest ihpart ihrest | more part rest ihpart ihrest =>
    simp only [moved, rowsBefore, count]
    rw [← ihpart, ← ihrest]
    simp only [Nat.add_assoc]
  | absent rest ih | done rest ih => exact ih depth field rows number

theorem bare_moved (tree : Tree role) (number : Nat) :
    (tree.moved move number).bare = tree.bare := by
  induction tree generalizing number with
  | phrase form span parts ih => simp only [moved, bare, ih]
  | nil => rfl
  | one part rest ihpart ihrest | present part rest ihpart ihrest | more part rest ihpart ihrest =>
    simp only [moved, bare, ihpart, ihrest]
  | absent rest ih | done rest ih => simp only [moved, bare, ih]

/-- The bare form of a tree is a move of it to the beginning of the text. -/
theorem moved_zero (tree : Tree role) (number : Nat) :
    tree.moved (fun _ _ ↦ .zero) number = tree.bare := by
  induction tree generalizing number with
  | phrase form span parts ih => simp only [moved, bare, ih]
  | nil => rfl
  | one part rest ihpart ihrest | present part rest ihpart ihrest | more part rest ihpart ihrest =>
    simp only [moved, bare, ihpart, ihrest]
  | absent rest ih | done rest ih => simp only [moved, bare, ih]

/-- However their phrases are moved, two trees compare as before. -/
theorem same_moved (tree other : Tree role) (move otherMove : Nat → Span → Span)
    (number otherNumber : Nat) :
    (tree.moved move number).same (other.moved otherMove otherNumber) = tree.same other := by
  rw [Bool.eq_iff_iff, same_iff, same_iff, bare_moved, bare_moved]

theorem equivalence_same (role : Role) :
    Equivalence fun tree other : Tree role ↦ tree.same other = true where
  refl tree := (same_iff tree tree).mpr rfl
  symm h := (same_iff _ _).mpr ((same_iff _ _).mp h).symm
  trans h hnext := (same_iff _ _).mpr (((same_iff _ _).mp h).trans ((same_iff _ _).mp hnext))

end Tree

namespace Phrase

variable {category : Category} (phrase other : Phrase category)

theorem outline_moved (move : Nat → Span → Span) :
    outline (phrase.moved move 0) = phrase.outline.mapIdx (Row.moved move) := by
  have hrows := phrase.rowsBefore_moved move 0 "root" [] 0
  simp only [Nat.zero_add] at hrows
  exact hrows

/-- Every row of a bare phrase has the span at the beginning of the text. -/
theorem outline_bare : outline phrase.bare = phrase.outline.map Row.bare := by
  rw [← phrase.moved_zero 0, outline_moved]
  apply List.ext_getElem?
  intro number
  rw [List.getElem?_mapIdx, List.getElem?_map]
  rfl

/-- Phrases are the same just if their outlines show the same besides the spans. -/
theorem same_iff_outlines :
    phrase.same other = true ↔ phrase.outline.map Row.bare = other.outline.map Row.bare := by
  rw [Tree.same_iff, ← outline_bare, ← outline_bare, outline_injective.eq_iff]

/-- A phrase that is the same as another one becomes it by taking over its spans. -/
theorem exists_moved_of_same (h : phrase.same other = true) :
    ∃ spans : Nat → Span, phrase.moved (fun number _ ↦ spans number) 0 = other := by
  have hrows := (same_iff_outlines phrase other).mp h
  refine ⟨fun number ↦ (other.outline[number]?.map Row.span).getD .zero, outline_injective ?_⟩
  rw [outline_moved]
  apply List.ext_getElem?
  intro number
  -- Rows with one number show the same, so with the span of the other one they are equal.
  have hrow := congrArg (fun rows ↦ rows[number]?) hrows
  simp only [List.getElem?_map, List.getElem?_mapIdx] at hrow ⊢
  cases hother : other.outline[number]? with
  | none => simpa [hother] using hrow
  | some otherRow =>
    rw [hother] at hrow
    obtain ⟨row, hphrase, hbare⟩ := Option.map_eq_some_iff.mp hrow
    rw [hphrase]
    exact congrArg some (Row.moved_of_bare_eq hbare (by rw [hother]; rfl))

end Phrase

/-- Trees are compared exactly up to their spans. They are the same just if nothing tells them apart
once every phrase of them is at the beginning of the text. This is an equivalence, and it stays as
it is when phrases are moved, at whatever depth. A phrase is the same as another one just if it
becomes the other one by changes to its spans; and it is not the same just if somewhere their
outlines show different things, or one of them ends before the other, be it at an operator, a flag,
a text, a missing part or one more member of a list. -/
theorem Tree.same_up_to_spans :
    (∀ {role : Role} (tree other : Tree role), tree.same other = true ↔ tree.bare = other.bare) ∧
      (∀ role : Role, Equivalence fun tree other : Tree role ↦ tree.same other = true) ∧
      (∀ {role : Role} (tree other : Tree role) (move otherMove : Nat → Span → Span),
        (tree.moved move 0).same (other.moved otherMove 0) = tree.same other) ∧
      (∀ {category : Category} (phrase other : Phrase category), phrase.same other = true ↔
        ∃ spans : Nat → Span, phrase.moved (fun number _ ↦ spans number) 0 = other) ∧
      ∀ {category : Category} (phrase other : Phrase category), phrase.same other = false ↔
        ∃ number : Nat,
          phrase.outline[number]?.map Row.bare ≠ other.outline[number]?.map Row.bare := by
  refine ⟨same_iff, equivalence_same, fun tree other _ _ ↦ same_moved tree other _ _ 0 0,
    fun phrase other ↦ ⟨phrase.exists_moved_of_same other, ?_⟩, fun phrase other ↦ ?_⟩
  · rintro ⟨spans, rfl⟩
    rw [same_iff, bare_moved]
  · rw [← Bool.not_eq_true, Phrase.same_iff_outlines, List.ext_getElem?_iff, Classical.not_forall]
    simp only [List.getElem?_map, ne_eq]

/-- A negated number is the same wherever it stands, and not the same as another one. -/
example :
    let negated (digits : String) (start : Nat) : Phrase .expression :=
      .phrase (.unary .minus) ⟨start, start + 2⟩
        (.one (.phrase (.number (.integer digits)) ⟨start + 1, start + 2⟩ .nil) .nil)
    (negated "1" 0).same (negated "1" 7) = true ∧ (negated "1" 0).same (negated "2" 0) = false := by
  decide

end CorpusQuery
