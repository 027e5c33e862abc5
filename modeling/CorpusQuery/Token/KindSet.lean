import CorpusQuery.Token.Kind

/-!
Finite sets of token kinds. The parser describes what it would have accepted as such a set, so sets
are joined at every test and listed in every message. A set is a word of bits, one for each kind at
its `Kind.index`; since the word has no bit to spare, equal members mean equal sets (`ext`).
`toList` is the view of a set: its members once each, in the order of `Kind.values`.
-/

set_option autoImplicit false
set_option relaxedAutoImplicit false

namespace CorpusQuery

/-- A set of token kinds. -/
structure KindSet where
  bits : BitVec Kind.count
  deriving DecidableEq, Repr

namespace KindSet

instance : EmptyCollection KindSet := ⟨⟨0⟩⟩

instance : Inhabited KindSet := ⟨∅⟩

/-- The set with one member. -/
def single (kind : Kind) : KindSet := ⟨BitVec.twoPow Kind.count kind.index⟩

instance : Union KindSet := ⟨fun first second ↦ ⟨first.bits ||| second.bits⟩⟩

/-- The set of the kinds in a list. -/
def ofList (kinds : List Kind) : KindSet := kinds.foldl (fun set kind ↦ set ∪ single kind) ∅

/-- The kinds that a table has an entry for. -/
def ofKeys {α : Type} (table : List (Kind × α)) : KindSet := ofList (table.map Prod.fst)

def contains (set : KindSet) (kind : Kind) : Bool := set.bits.getLsbD kind.index

instance : Membership Kind KindSet := ⟨fun set kind ↦ set.contains kind = true⟩

instance (kind : Kind) (set : KindSet) : Decidable (kind ∈ set) :=
  inferInstanceAs (Decidable (set.contains kind = true))

/-- The members in the order of `Kind.values`. -/
def toList (set : KindSet) : List Kind := Kind.values.filter set.contains

/-- The number of members, counted on the bits. -/
def size (set : KindSet) : Nat := (List.range Kind.count).countP set.bits.getLsbD

def isEmpty (set : KindSet) : Bool := set.bits == 0

/-- The members as a message lists them: quoted and separated by commas. -/
def text (set : KindSet) : String :=
  ", ".intercalate (set.toList.map fun kind ↦ "`" ++ kind.text ++ "`")

/-- The members by name between braces. -/
def listing (set : KindSet) : String :=
  "\x7b" ++ ", ".intercalate (set.toList.map Kind.name) ++ "\x7d"

theorem mem_iff {kind : Kind} {set : KindSet} : kind ∈ set ↔ set.contains kind = true := Iff.rfl

@[simp] theorem contains_empty (kind : Kind) : (∅ : KindSet).contains kind = false := by
  simp [contains, EmptyCollection.emptyCollection]

@[simp] theorem contains_single (member kind : Kind) :
    (single member).contains kind = decide (kind = member) := by
  have hlt := member.index_lt_count
  simp only [contains, single, BitVec.getLsbD_twoPow]
  by_cases h : kind = member
  · subst h
    simp [hlt]
  · have hne : member.index ≠ kind.index := fun he ↦ h (Kind.index_injective he.symm)
    simp [h, hne]

@[simp] theorem contains_union (first second : KindSet) (kind : Kind) :
    (first ∪ second).contains kind = (first.contains kind || second.contains kind) := by
  simp [contains, Union.union]

@[simp] theorem mem_toList {kind : Kind} {set : KindSet} : kind ∈ set.toList ↔ kind ∈ set := by
  simp [toList, mem_iff, Kind.mem_values]

end KindSet

end CorpusQuery
