/-!
Places in a query text. A `Span` is a half-open range of byte offsets into the UTF-8 form of the
text, and a `Spanned` value is a value together with the range it was read from. A span says where
something stands and nothing about what it is, so two spanned values agree as soon as their values
do (`Spanned.same`).
-/

set_option autoImplicit false
set_option relaxedAutoImplicit false

namespace CorpusQuery

/-- A range of byte offsets, from `start` up to but not including `stop`. Nothing forces the bounds
into order: tokens handed in by a caller keep whatever offsets they carry. -/
structure Span where
  start : Nat
  stop : Nat
  deriving DecidableEq, Repr

/-- The empty range at the beginning of a text. -/
def Span.zero : Span := ⟨0, 0⟩

instance : Inhabited Span := ⟨.zero⟩

/-- A value with the range of the text it was read from. -/
structure Spanned (α : Type) where
  value : α
  span : Span

namespace Spanned

variable {α β : Type}

/-- Changes the value and keeps its place. -/
def map (f : α → β) (spanned : Spanned α) : Spanned β := ⟨f spanned.value, spanned.span⟩

/-- Agreement of the values, wherever they stand. -/
def same [BEq α] (first second : Spanned α) : Bool := first.value == second.value

@[simp] theorem value_map (f : α → β) (spanned : Spanned α) :
    (spanned.map f).value = f spanned.value := rfl

@[simp] theorem span_map (f : α → β) (spanned : Spanned α) :
    (spanned.map f).span = spanned.span := rfl

end Spanned

end CorpusQuery
