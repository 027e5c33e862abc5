import CorpusQuery.Grammar.Pattern.Marker

/-!
The shapes of trees. The slots of a form say which parts it has; what they leave open is said by
`Form.Shapes`. Lists that are written with something in them are not empty, a graph fragment has an
edge or a comma, and the operands of a connective are of the forms that it can join. A sequence
takes in every statement behind it, so in a list of statements nothing can stand behind one, nor
behind a disjunction that ends in one (`Phrase.Swallows`). `Tree.Shaped` asks this of every phrase
of a tree.
-/

set_option autoImplicit false
set_option relaxedAutoImplicit false

namespace CorpusQuery

open CorpusQuery.Grammar

/-! ### Slots -/

/-- What fills the first slot. -/
abbrev Role.Filling : Role → Type
  | .parts (⟨_, .one, category⟩ :: _) => Phrase category
  | .parts (⟨_, .optional, category⟩ :: _) => Option (Phrase category)
  | .parts (⟨_, .many, category⟩ :: _) => List (Phrase category)
  | _ => Unit

/-- The slots behind the first one. -/
abbrev Role.rest : Role → Role
  | .parts (_ :: slots) => .parts slots
  | role => role

namespace Tree

/-- What the first slot holds. -/
def filling : {role : Role} → Tree role → role.Filling
  | _, .phrase _ _ _ => ()
  | _, .nil => ()
  | _, .one part _ => part
  | _, .absent _ => none
  | _, .present part _ => some part
  | _, .done _ => []
  | _, .more part rest => part :: rest.filling

/-- What the other slots hold. -/
def rest : {role : Role} → Tree role → Tree role.rest
  | _, .phrase form span parts => .phrase form span parts
  | _, .nil => .nil
  | _, .one _ rest => rest
  | _, .absent rest => rest
  | _, .present _ rest => rest
  | _, .done rest => rest
  | _, .more _ rest => rest.rest

variable {field : String} {category : Category} {slots : List Slot}

@[simp] theorem filling_many (parts : List (Phrase category)) (rest : Parts slots) :
    (many parts rest : Parts (.many field category :: slots)).filling = parts := by
  induction parts with
  | nil => rfl
  | cons part parts ih => exact congrArg (part :: ·) ih

@[simp] theorem rest_optional (part? : Option (Phrase category)) (rest : Parts slots) :
    (optional part? rest : Parts (.optional field category :: slots)).rest = rest := by
  cases part? <;> rfl

end Tree

/-! ### Statements and markers -/

def Form.isSequence : Form .nodeStatement → Bool
  | .sequence _ => true
  | _ => false

/-- The statement is a sequence or a disjunction that ends in one. -/
def Phrase.Swallows : Phrase .nodeStatement → Prop
  | .phrase (.sequence _) _ _ => True
  | .phrase .nodeDisjunction _ parts => parts.rest.filling.form.isSequence = true
  | _ => False

theorem Phrase.swallows_of_isSequence {statement : Phrase .nodeStatement}
    (h : statement.form.isSequence = true) : statement.Swallows := by
  obtain ⟨form, span, parts⟩ := statement
  cases form with
  | sequence arrangements => trivial
  | _ => cases h

/-- The statements can be read one behind the other: there is at least one, and all but the last one
leave the next one where it is. -/
structure Statements (statements : List (Phrase .nodeStatement)) : Prop where
  ne_nil : statements ≠ []
  leaves : ∀ statement ∈ statements.dropLast, ¬ statement.Swallows

/-- What joins the two parts of a marker. Calls and markers in parentheses have no such parts. -/
def Form.connective? : Form .marker → Option Connective
  | .markerCall _ _ | .markerWrapping => none
  | .markerConjunction => some .conjunction
  | .markerDisjunction => some .disjunction

/-! ### Shapes -/

/-- What a form asks of its attributes and of its parts. -/
def Form.Shapes : {category : Category} → (form : Form category) → Parts form.slots → Prop
  | _, .listAccess, parts | _, .annotationAccess, parts => parts.rest.filling ≠ []
  | _, .structuralConstraint _, parts | _, .grouping, parts => Statements parts.rest.filling
  | _, .sequence arrangements, parts => arrangements ≠ [] ∧ Statements parts.filling
  | _, .graphFragment, parts =>
    parts.filling ≠ [] ∧ ∀ element, parts.filling = [element] → element.form = .connection
  | _, .nodeDisjunction, parts =>
    ¬ parts.filling.Swallows ∧ parts.rest.filling.form ≠ .nodeDisjunction
  | _, .markerConjunction, parts =>
    parts.filling.form ≠ .markerDisjunction ∧ parts.rest.filling.form.connective? = none
  | _, .markerDisjunction, parts => parts.rest.filling.form ≠ .markerDisjunction
  | _, .binding _ members _, _ => members ≠ []
  | _, .quantifier _, parts => parts.filling ≠ []
  | _, .laneSelection, parts => parts.filling ≠ []
  | _, .group, parts => parts.filling ≠ []
  | _, _, _ => True

namespace Tree

/-- Every phrase of the tree has the shape that its form asks for. -/
def Shaped : {role : Role} → Tree role → Prop
  | _, .phrase form _ parts => form.Shapes parts ∧ parts.Shaped
  | _, .nil => True
  | _, .one part rest => part.Shaped ∧ rest.Shaped
  | _, .absent rest => rest.Shaped
  | _, .present part rest => part.Shaped ∧ rest.Shaped
  | _, .done rest => rest.Shaped
  | _, .more part rest => part.Shaped ∧ rest.Shaped

variable {field : String} {category : Category} {slots : List Slot}

theorem shaped_optional {part? : Option (Phrase category)} {rest : Parts slots}
    (h : ∀ part ∈ part?, part.Shaped) (hrest : rest.Shaped) :
    (optional part? rest : Parts (.optional field category :: slots)).Shaped := by
  cases part? with
  | none => exact hrest
  | some part => exact ⟨h part rfl, hrest⟩

theorem shaped_many {parts : List (Phrase category)} {rest : Parts slots}
    (h : ∀ part ∈ parts, part.Shaped) (hrest : rest.Shaped) :
    (many parts rest : Parts (.many field category :: slots)).Shaped := by
  induction parts with
  | nil => exact hrest
  | cons part parts ih =>
    obtain ⟨hpart, hparts⟩ := List.forall_mem_cons.mp h
    exact ⟨hpart, ih hparts⟩

end Tree

end CorpusQuery
