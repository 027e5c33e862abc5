import CorpusQuery.Phrase.Form
import CorpusQuery.Span

/-!
Phrases: the trees that parsing builds. A phrase has a form, the span of the text it was read from,
and parts that fit the slots of its form. One family of types holds phrases and their parts
(`Tree`), so that one recursion reaches every phrase of a tree.

Where a phrase stands in the text is no part of what it says. `Tree.bare` moves every phrase of a
tree to the beginning of the text, and `Tree.same` compares two trees without looking at any span;
`Tree.same_iff` says that trees are the same exactly when their bare forms are equal.
-/

set_option autoImplicit false
set_option relaxedAutoImplicit false

namespace CorpusQuery

/-- What a tree is: a phrase of a category, or the parts that fill a list of slots. -/
inductive Role where
  | phrase (category : Category)
  | parts (slots : List Slot)

/-- Phrases and lists of parts. -/
inductive Tree : Role → Type where
  | phrase {category : Category} (form : Form category) (span : Span)
      (parts : Tree (.parts form.slots)) : Tree (.phrase category)
  /-- No slot is left. -/
  | nil : Tree (.parts [])
  /-- A part that is always there. -/
  | one {field : String} {category : Category} {slots : List Slot}
      (part : Tree (.phrase category)) (rest : Tree (.parts slots)) :
      Tree (.parts (.one field category :: slots))
  /-- An optional part is missing. -/
  | absent {field : String} {category : Category} {slots : List Slot}
      (rest : Tree (.parts slots)) : Tree (.parts (.optional field category :: slots))
  /-- An optional part is there. -/
  | present {field : String} {category : Category} {slots : List Slot}
      (part : Tree (.phrase category)) (rest : Tree (.parts slots)) :
      Tree (.parts (.optional field category :: slots))
  /-- No more parts of this kind. -/
  | done {field : String} {category : Category} {slots : List Slot}
      (rest : Tree (.parts slots)) : Tree (.parts (.many field category :: slots))
  /-- One more part of this kind. -/
  | more {field : String} {category : Category} {slots : List Slot}
      (part : Tree (.phrase category)) (rest : Tree (.parts (.many field category :: slots))) :
      Tree (.parts (.many field category :: slots))

/-- A phrase of a category. -/
abbrev Phrase (category : Category) : Type := Tree (.phrase category)

/-- The parts for a list of slots. -/
abbrev Parts (slots : List Slot) : Type := Tree (.parts slots)

namespace Phrase

variable {category : Category}

def form : Phrase category → Form category
  | .phrase form _ _ => form

def span : Phrase category → Span
  | .phrase _ span _ => span

end Phrase

namespace Tree

/-! ### Filling slots -/

section

variable {field : String} {category : Category} {slots : List Slot}

/-- Fills an optional slot. -/
def optional (part? : Option (Phrase category)) (rest : Parts slots) :
    Parts (.optional field category :: slots) :=
  match part? with
  | none => .absent rest
  | some part => .present part rest

/-- Fills a slot for any number of parts. -/
def many (parts : List (Phrase category)) (rest : Parts slots) :
    Parts (.many field category :: slots) :=
  parts.foldr .more (.done rest)

end

/-- The number of phrases directly in a list of parts. -/
def size : {role : Role} → Tree role → Nat
  | _, .phrase _ _ _ => 1
  | _, .nil => 0
  | _, .one _ rest => rest.size + 1
  | _, .absent rest => rest.size
  | _, .present _ rest => rest.size + 1
  | _, .done rest => rest.size
  | _, .more _ rest => rest.size + 1

/-! ### Comparison without spans -/

/-- Moves every phrase to the beginning of the text. -/
def bare : {role : Role} → Tree role → Tree role
  | _, .phrase form _ parts => .phrase form .zero parts.bare
  | _, .nil => .nil
  | _, .one part rest => .one part.bare rest.bare
  | _, .absent rest => .absent rest.bare
  | _, .present part rest => .present part.bare rest.bare
  | _, .done rest => .done rest.bare
  | _, .more part rest => .more part.bare rest.bare

/-- Whether two trees have the same forms in the same places, wherever they stand in the text. -/
def same : {role : Role} → Tree role → Tree role → Bool
  | _, .phrase form _ parts, .phrase otherForm _ otherParts =>
    if h : form = otherForm then parts.same (h ▸ otherParts) else false
  | _, .nil, .nil => true
  | _, .one part rest, .one otherPart otherRest => part.same otherPart && rest.same otherRest
  | _, .absent rest, .absent otherRest => rest.same otherRest
  | _, .present part rest, .present otherPart otherRest =>
    part.same otherPart && rest.same otherRest
  | _, .done rest, .done otherRest => rest.same otherRest
  | _, .more part rest, .more otherPart otherRest => part.same otherPart && rest.same otherRest
  | _, _, _ => false

/-- Trees are the same exactly when only their spans differ. -/
theorem same_iff {role : Role} (tree other : Tree role) :
    tree.same other = true ↔ tree.bare = other.bare := by
  induction tree with
  | phrase form span parts ih =>
    cases other with
    | phrase otherForm otherSpan otherParts =>
      by_cases h : form = otherForm
      · subst h
        simp [same, bare, ih]
      · simp [same, bare, h]
  | nil => cases other; simp [same, bare]
  | one part rest ihpart ihrest => cases other; simp [same, bare, ihpart, ihrest]
  | absent rest ih => cases other <;> simp [same, bare, ih]
  | present part rest ihpart ihrest => cases other <;> simp [same, bare, ihpart, ihrest]
  | done rest ih => cases other <;> simp [same, bare, ih]
  | more part rest ihpart ihrest => cases other <;> simp [same, bare, ihpart, ihrest]

end Tree

end CorpusQuery
