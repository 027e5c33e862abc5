import CorpusQuery.Grammar.Expression.Basic
import CorpusQuery.Grammar.Expression.Loop

/-!
How tightly the parts of a tree bind. An expression is of an infix form, which has a level, or of a
prefix form, which has none. `Tree.Graded` says of every phrase of a tree what its form asks of its
parts: right operands bind more tightly than their operator, a leftmost operand does not bind more
loosely unless nothing could have taken it apart, the operand of a cast or a unary operator takes
only calls and accesses with it, and what a loop runs over and counts is no assignment.
-/

set_option autoImplicit false
set_option relaxedAutoImplicit false

namespace CorpusQuery

open CorpusQuery.Grammar

/-! ### Levels -/

/-- How tightly an operator binds, by the table of the language. The parser has its levels from the
families of the operators instead (`BinaryOperator.level_eq_strength`). -/
def BinaryOperator.strength : BinaryOperator → Nat
  | .multiply | .divide | .modulo => 12
  | .add | .subtract => 11
  | .bitAnd | .doubleAnd | .bitXor | .bitOr | .shiftLeft | .shiftRight => 10
  | .less | .lessOrEqual | .greater | .greaterOrEqual => 9
  | .matching | .notMatching | .containing | .notContaining => 8
  | .equal | .notEqual => 7
  | .and => 6
  | .or => 5

/-- The parser reads every operator at the level that the table gives it. -/
theorem BinaryOperator.level_eq_strength (operator : BinaryOperator) :
    operator.level = operator.strength := by
  cases operator <;> rfl

/-- How tightly an infix form binds. Prefix forms have no level. -/
def Form.level? : Form .expression → Option Nat
  | .path _ => some 19
  | .call => some 18
  | .listAccess => some 17
  | .annotationAccess => some 16
  | .binary operator => some operator.strength
  | .assignment _ _ => some 4
  | .setPredicate _ _ => some 3
  | .ternary => some 2
  | _ => none

/-- Casts and unary operators take an operand of their own. -/
def Form.takesOperand : Form .expression → Bool
  | .cast _ | .unary _ => true
  | _ => false

def Form.isAssignment : Form .expression → Bool
  | .assignment _ _ => true
  | _ => false

/-- The expression is of a prefix form or has at least the level. -/
def Phrase.BindsFrom (least : Nat) (expression : Phrase .expression) : Prop :=
  ∀ level, expression.form.level? = some level → least ≤ level

/-- The expression is of a prefix form, or it is a call or an access. -/
def Phrase.BindsTightly (expression : Phrase .expression) : Prop :=
  ∀ level, expression.form.level? = some level → 16 ≤ level ∧ level ≤ 19

/-- What an infix form of a level asks of its leftmost operand. -/
structure Phrase.LeadsAt (level : Nat) (leftmost : Phrase .expression) : Prop where
  binds : ∀ inner, leftmost.form.level? = some inner →
    level ≤ inner ∨ leftmost.form.isAssignment = true ∨ (16 ≤ inner ∧ inner ≤ 19)
  notTernary : leftmost.form ≠ .ternary
  level_le : leftmost.form.takesOperand = true → level ≤ 12

namespace Tree

variable {field : String} {category : Category} {slots : List Slot}

/-- The part in a slot that is always filled. -/
def part : Parts (.one field category :: slots) → Phrase category
  | .one part _ => part

/-- The parts behind a slot that is always filled. -/
def others : Parts (.one field category :: slots) → Parts slots
  | .one _ rest => rest

end Tree

/-- What a form asks of its parts. -/
def Form.Grades : {category : Category} → (form : Form category) → Parts form.slots → Prop
  | _, .binary operator, parts =>
    parts.part.LeadsAt operator.strength ∧ parts.others.part.BindsFrom (operator.strength + 1)
  | _, .setPredicate _ _, parts => parts.part.LeadsAt 3 ∧ parts.others.part.BindsFrom 4
  | _, .ternary, parts => parts.part.LeadsAt 2
  | _, .assignment _ _, parts => parts.part.LeadsAt 4
  | _, .path _, parts => parts.part.LeadsAt 19
  | _, .call, parts => parts.part.LeadsAt 18
  | _, .listAccess, parts => parts.part.LeadsAt 17
  | _, .annotationAccess, parts => parts.part.LeadsAt 16
  | _, .cast _, parts => parts.part.BindsTightly
  | _, .unary _, parts => parts.part.BindsTightly
  | _, .loop _, parts => parts.part.BindsFrom 5
  | _, .counter _, parts => parts.part.BindsFrom 5
  | _, _, _ => True

namespace Tree

/-- In every phrase of the tree the parts bind as the form asks. -/
def Graded : {role : Role} → Tree role → Prop
  | _, .phrase form _ parts => form.Grades parts ∧ parts.Graded
  | _, .nil => True
  | _, .one part rest => part.Graded ∧ rest.Graded
  | _, .absent rest => rest.Graded
  | _, .present part rest => part.Graded ∧ rest.Graded
  | _, .done rest => rest.Graded
  | _, .more part rest => part.Graded ∧ rest.Graded

variable {field : String} {category : Category} {slots : List Slot}

theorem graded_optional {part? : Option (Phrase category)} {rest : Parts slots}
    (h : ∀ part ∈ part?, part.Graded) (hrest : rest.Graded) :
    (optional part? rest : Parts (.optional field category :: slots)).Graded := by
  cases part? with
  | none => exact hrest
  | some part => exact ⟨h part rfl, hrest⟩

theorem graded_many {parts : List (Phrase category)} {rest : Parts slots}
    (h : ∀ part ∈ parts, part.Graded) (hrest : rest.Graded) :
    (many parts rest : Parts (.many field category :: slots)).Graded := by
  induction parts with
  | nil => exact hrest
  | cons part parts ih =>
    obtain ⟨hpart, hparts⟩ := List.forall_mem_cons.mp h
    exact ⟨hpart, ih hparts⟩

end Tree

/-! ### Continuations -/

theorem Form.level?_le {form : Form .expression} {level : Nat} (h : form.level? = some level) :
    level ≤ 19 := by
  cases form with
  | binary operator =>
    cases h
    cases operator <;> decide
  | _ => simp only [level?, reduceCtorEq, Option.some.injEq] at h <;> omega

/-- No level lies between the operators and the calls and accesses. -/
theorem Phrase.BindsFrom.tightly {expression : Phrase .expression} {least : Nat}
    (h : expression.BindsFrom least) (hleast : 13 ≤ least) : expression.BindsTightly := by
  intro level hlevel
  have hle := Nat.le_trans hleast (h level hlevel)
  refine ⟨?_, Form.level?_le hlevel⟩
  cases hform : expression.form with
  | binary operator =>
    rw [hform] at hlevel
    cases hlevel
    revert hle
    cases operator <;> decide
  | _ =>
    rw [hform] at hlevel
    simp only [Form.level?, reduceCtorEq, Option.some.injEq] at hlevel <;> omega

namespace Grammar.Continuation

theorem level_ge (continuation : Continuation) : 2 ≤ continuation.level := by
  cases continuation with
  | binary operator => cases operator <;> decide
  | _ => decide

theorem level_gap {continuation : Continuation} (h : continuation.level < 15) :
    continuation.level ≤ 12 := by
  cases continuation with
  | binary operator =>
    clear h
    cases operator <;> decide
  | _ =>
    revert h
    decide

/-- Nothing that binds at least as tightly as the level goes on at the place. -/
def EndsAt (least : Nat) (place : Place) : Prop :=
  ∀ continuation, at? place = some continuation → continuation.level < least

end Grammar.Continuation

/-- Whatever goes on at the place may have the expression as its leftmost operand. -/
def Phrase.OpenAt (expression : Phrase .expression) (place : Place) : Prop :=
  ∀ continuation, Continuation.at? place = some continuation →
    expression.LeadsAt continuation.level

namespace Phrase

variable {expression : Phrase .expression} {place : Place}

/-- Behind an expression without a level and an operand of its own anything may go on. -/
theorem openAt_of_complete (hlevel : expression.form.level? = none)
    (hoperand : expression.form.takesOperand = false) : expression.OpenAt place := by
  refine fun continuation _ ↦ ⟨fun inner hinner ↦ ?_, fun hform ↦ ?_, fun htakes ↦ ?_⟩
  · rw [hlevel] at hinner
    cases hinner
  · rw [hform] at hlevel
    cases hlevel
  · rw [hoperand] at htakes
    cases htakes

/-- Behind a cast or a unary operator only operators go on. -/
theorem openAt_of_operand (hlevel : expression.form.level? = none)
    (hends : Continuation.EndsAt 15 place) : expression.OpenAt place := by
  refine fun continuation hat ↦ ⟨fun inner hinner ↦ ?_, fun hform ↦ ?_, fun _ ↦
    Continuation.level_gap (hends continuation hat)⟩
  · rw [hlevel] at hinner
    cases hinner
  · rw [hform] at hlevel
    cases hlevel

/-- Behind a call, an access or an assignment anything may go on. -/
theorem openAt_of_tight {level : Nat} (hlevel : expression.form.level? = some level)
    (hoperand : expression.form.takesOperand = false) (hternary : expression.form ≠ .ternary)
    (h : expression.form.isAssignment = true ∨ 16 ≤ level) : expression.OpenAt place := by
  refine fun continuation _ ↦ ⟨fun inner hinner ↦ ?_, hternary, fun htakes ↦ ?_⟩
  · obtain rfl : level = inner := Option.some.inj (hlevel.symm.trans hinner)
    exact .inr (h.imp_right fun hle ↦ ⟨hle, Form.level?_le hlevel⟩)
  · rw [hoperand] at htakes
    cases htakes

/-- Behind a right operand that has taken all that binds more tightly than its operator, the rest
may go on. -/
theorem openAt_of_right {level : Nat} (hlevel : expression.form.level? = some level)
    (hoperand : expression.form.takesOperand = false) (hternary : expression.form ≠ .ternary)
    (hends : Continuation.EndsAt (level + 1) place) : expression.OpenAt place := by
  refine fun continuation hat ↦ ⟨fun inner hinner ↦ .inl ?_, hternary, fun htakes ↦ ?_⟩
  · obtain rfl : level = inner := Option.some.inj (hlevel.symm.trans hinner)
    exact Nat.le_of_lt_succ (hends continuation hat)
  · rw [hoperand] at htakes
    cases htakes

/-- Behind a ternary nothing goes on. -/
theorem openAt_of_ternary (hends : Continuation.EndsAt 2 place) : expression.OpenAt place :=
  fun continuation hat ↦
    absurd (hends continuation hat) (Nat.not_lt_of_le continuation.level_ge)

end Phrase

end CorpusQuery
