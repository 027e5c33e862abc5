import CorpusQuery.Proofs.Construction.Run
import Mathlib.Data.Finset.Dedup
import Mathlib.Data.Finset.Insert
import Mathlib.Data.Finset.Lattice.Basic

/-!
Sets of kinds are finite sets. Membership is a test of one bit, the view of a set goes through the
sequence of all kinds, and its size counts bits, so these agree only because the sequence lists
every kind at its own number and no bit belongs to no kind (`map_index_values`). From that a set is
given by its members (`ext`), and whatever is put together from the empty set, lists of kinds,
single kinds and unions represents the finite set of the kinds that were put in
(`Recipe.represents`): in its tests, in its view, in its size, in its text, and bit by bit in the
machine word of 128 bits that holds it.
-/

set_option autoImplicit false
set_option relaxedAutoImplicit false

namespace CorpusQuery

namespace Kind

/-- The sequence of all kinds lists each of them at its own number. -/
theorem map_index_values : values.map index = List.range count := by decide

theorem exists_index_eq {number : Nat} (h : number < count) :
    ∃ kind : Kind, kind.index = number := by
  have hmem : number ∈ values.map index := by
    rw [map_index_values]
    exact List.mem_range.mpr h
  obtain ⟨kind, -, hindex⟩ := List.mem_map.mp hmem
  exact ⟨kind, hindex⟩

theorem pairwise_values : values.Pairwise fun first second ↦ first.index < second.index := by
  have hrange := List.pairwise_lt_range (n := count)
  rw [← map_index_values] at hrange
  exact List.pairwise_map.mp hrange

/-- Kinds one behind the other, each between back quotes and with commas between them. -/
def listed : List Kind → String
  | [] => ""
  | [kind] => "`" ++ kind.text ++ "`"
  | kind :: next :: rest => "`" ++ kind.text ++ "`" ++ ", " ++ listed (next :: rest)

end Kind

namespace KindSet

variable {first second : KindSet} {kind : Kind}

/-! ### Members -/

/-- Equal members mean equal sets. -/
@[ext] theorem ext (h : ∀ kind, kind ∈ first ↔ kind ∈ second) : first = second := by
  have hbits : first.bits = second.bits := by
    apply BitVec.eq_of_getLsbD_eq
    intro number hnumber
    obtain ⟨kind, rfl⟩ := Kind.exists_index_eq hnumber
    exact Bool.eq_iff_iff.mpr (h kind)
  cases first
  cases second
  exact congrArg KindSet.mk hbits

@[simp] theorem not_mem_empty : kind ∉ (∅ : KindSet) := by simp [mem_iff]

@[simp] theorem mem_single {member : Kind} : kind ∈ single member ↔ kind = member := by
  simp [mem_iff]

@[simp] theorem mem_union : kind ∈ first ∪ second ↔ kind ∈ first ∨ kind ∈ second := by
  simp [mem_iff]

@[simp] theorem mem_ofList {kinds : List Kind} : kind ∈ ofList kinds ↔ kind ∈ kinds := by
  simp [mem_iff, contains_ofList]

theorem union_empty (set : KindSet) : set ∪ ∅ = set := by ext; simp

/-- The kinds that are in one of several sets. -/
def join (sets : List KindSet) : KindSet := sets.foldr (· ∪ ·) ∅

@[simp] theorem mem_join {sets : List KindSet} :
    kind ∈ join sets ↔ ∃ set ∈ sets, kind ∈ set := by
  induction sets with
  | nil => simp [join]
  | cons set rest ih =>
    rw [List.exists_mem_cons_iff, ← ih]
    exact mem_union

theorem join_concat (sets : List KindSet) (set : KindSet) :
    join (sets ++ [set]) = join sets ∪ set := by
  ext kind
  simp [or_and_right, exists_or]

/-- The set of the kinds in a list, its bits set one after the other. -/
def gather (kinds : List Kind) : KindSet :=
  ⟨kinds.foldl (fun bits kind ↦ bits ||| BitVec.twoPow Kind.count kind.index) 0⟩

/-- Setting the bits of a list and joining its members one by one come to the same. -/
theorem gather_eq_ofList (kinds : List Kind) : gather kinds = ofList kinds := by
  have hfold (set : KindSet) :
      (⟨kinds.foldl (fun bits kind ↦ bits ||| BitVec.twoPow Kind.count kind.index) set.bits⟩ :
        KindSet) = kinds.foldl (fun set kind ↦ set ∪ single kind) set := by
    induction kinds generalizing set with
    | nil => rfl
    | cons first rest ih => exact ih (set ∪ single first)
  exact hfold ∅

/-! ### The view of a set -/

/-- The view of a set lists its members once each, in the order of their numbers. -/
theorem pairwise_toList (set : KindSet) :
    set.toList.Pairwise fun first second ↦ first.index < second.index :=
  Kind.pairwise_values.filter _

/-- The bits that are set are as many as the kinds in the view. -/
theorem size_eq_length (set : KindSet) : set.size = set.toList.length := by
  rw [size, ← Kind.map_index_values, List.countP_map, toList, List.countP_eq_length_filter]
  rfl

theorem isEmpty_iff (set : KindSet) : set.isEmpty = true ↔ ∀ kind, kind ∉ set := by
  have hempty : set.isEmpty = true ↔ set = ∅ := by
    rw [isEmpty, beq_iff_eq]
    exact ⟨fun hbits ↦ congrArg KindSet.mk hbits, fun heq ↦ congrArg KindSet.bits heq⟩
  rw [hempty]
  constructor
  · rintro rfl kind
    exact not_mem_empty
  · intro h
    ext kind
    simp [h kind]

theorem text_eq_listed (set : KindSet) : set.text = Kind.listed set.toList := by
  rw [text]
  induction set.toList with
  | nil => rfl
  | cons kind rest ih =>
    cases rest with
    | nil => simp [Kind.listed]
    | cons next rest =>
      rw [List.map_cons] at ih
      rw [List.map_cons, List.map_cons, String.intercalate_cons_cons, ih, Kind.listed]

/-! ### The machine word of a set -/

/-- The bits of a set in a machine word. -/
def word (set : KindSet) : BitVec 128 := set.bits.setWidth 128

theorem word_empty : (∅ : KindSet).word = 0 := by
  simp [word, EmptyCollection.emptyCollection]

theorem word_single (kind : Kind) : (single kind).word = 1#128 <<< kind.index := by
  have hlt : kind.index < 101 := kind.index_lt_count
  apply BitVec.eq_of_getLsbD_eq
  intro number hnumber
  rw [← BitVec.twoPow_eq]
  simp only [word, single, BitVec.getLsbD_setWidth, BitVec.getLsbD_twoPow, Kind.count]
  simp [hnumber, hlt, show kind.index < 128 by omega]

theorem word_union (first second : KindSet) :
    (first ∪ second).word = first.word ||| second.word := by
  simp [word, Union.union]

/-- Setting the bits of a list in a word gives the word of the set of its kinds. -/
theorem word_ofList (kinds : List Kind) :
    (ofList kinds).word = kinds.foldl (fun word kind ↦ word ||| 1#128 <<< kind.index) 0 := by
  have hfold (set : KindSet) : (kinds.foldl (fun set kind ↦ set ∪ single kind) set).word =
      kinds.foldl (fun word kind ↦ word ||| 1#128 <<< kind.index) set.word := by
    induction kinds generalizing set with
    | nil => rfl
    | cons first rest ih => rw [List.foldl_cons, ih, word_union, word_single, List.foldl_cons]
  rw [ofList, hfold, word_empty]

/-- The bits of the word that are set are those with the numbers of the members. -/
theorem getLsbD_word (set : KindSet) (number : Nat) :
    set.word.getLsbD number = true ↔ ∃ kind ∈ set, kind.index = number := by
  constructor
  · intro hbit
    have hset : set.bits.getLsbD number = true := by
      simp only [word, BitVec.getLsbD_setWidth, Bool.and_eq_true] at hbit
      exact hbit.2
    obtain ⟨kind, rfl⟩ := Kind.exists_index_eq (BitVec.lt_of_getLsbD hset)
    exact ⟨kind, hset, rfl⟩
  · rintro ⟨kind, hmem, rfl⟩
    have hlt : kind.index < 101 := kind.index_lt_count
    simp only [word, BitVec.getLsbD_setWidth, Bool.and_eq_true, decide_eq_true_eq]
    exact ⟨by omega, hmem⟩

/-- Counting the ones of a word below a bit is counting the bits that are set there. -/
theorem cpopNatRec_eq_countP {width : Nat} (word : BitVec width) (count : Nat) :
    word.cpopNatRec count 0 = (List.range count).countP word.getLsbD := by
  induction count with
  | zero => rfl
  | succ count ih =>
    rw [BitVec.cpopNatRec_succ, BitVec.cpopNatRec_add, ih, List.range_succ, List.countP_append]
    cases hbit : word.getLsbD count <;> simp [hbit]

/-- The size of a set is the number of ones in its word. -/
theorem size_eq_cpop (set : KindSet) : set.size = set.word.cpop.toNat := by
  rw [word, BitVec.toNat_cpop_setWidth_eq_of_le (by decide), BitVec.toNat_cpop,
    cpopNatRec_eq_countP]
  rfl

/-! ### Sets as they are put together -/

/-- How a set of kinds is put together. -/
inductive Recipe where
  | empty
  /-- The kinds of a list, their bits set one after the other. -/
  | gathered (kinds : List Kind)
  | single (kind : Kind)
  /-- The kinds of a list, joined one by one. -/
  | collected (kinds : List Kind)
  | union (first second : Recipe)

namespace Recipe

/-- The set that comes of a recipe. -/
def set : Recipe → KindSet
  | .empty => ∅
  | .gathered kinds => gather kinds
  | .single kind => KindSet.single kind
  | .collected kinds => ofList kinds
  | .union first second => first.set ∪ second.set

/-- The machine word that comes of a recipe, put together bit by bit. -/
def word : Recipe → BitVec 128
  | .empty => 0
  | .gathered kinds | .collected kinds =>
    kinds.foldl (fun word kind ↦ word ||| 1#128 <<< kind.index) 0
  | .single kind => 1#128 <<< kind.index
  | .union first second => first.word ||| second.word

/-- The kinds that a recipe puts in. -/
def members : Recipe → Finset Kind
  | .empty => ∅
  | .gathered kinds => kinds.toFinset
  | .single kind => {kind}
  | .collected kinds => kinds.toFinset
  | .union first second => first.members ∪ second.members

/-- The machine word of a recipe is the word of its set. -/
theorem word_set (recipe : Recipe) : recipe.set.word = recipe.word := by
  induction recipe with
  | empty => exact word_empty
  | gathered kinds => rw [set, gather_eq_ofList, word_ofList, word]
  | single kind => exact word_single kind
  | collected kinds => rw [set, word_ofList, word]
  | union first second ihfirst ihsecond => rw [set, word_union, ihfirst, ihsecond, word]

/-- The members of the set are the kinds that were put in. -/
theorem mem_set_iff (recipe : Recipe) (kind : Kind) :
    kind ∈ recipe.set ↔ kind ∈ recipe.members := by
  induction recipe with
  | empty => simp [set, members]
  | gathered kinds => simp [set, members, gather_eq_ofList]
  | single member => simp [set, members]
  | collected kinds => simp [set, members]
  | union first second ihfirst ihsecond => simp [set, members, ihfirst, ihsecond]

end Recipe

/-- A set of kinds answers, lists, counts and shows the kinds of a finite set, and its word has a
bit for each of them and no other bit. -/
structure Represents (set : KindSet) (members : Finset Kind) : Prop where
  contains : ∀ kind, set.contains kind = true ↔ kind ∈ members
  /-- The view lists each member once, in the order of the numbers of the kinds. -/
  pairwise : set.toList.Pairwise fun first second ↦ first.index < second.index
  mem_toList : ∀ kind, kind ∈ set.toList ↔ kind ∈ members
  size_eq : set.size = set.toList.length
  isEmpty : set.isEmpty = true ↔ members = ∅
  text_eq : set.text = Kind.listed set.toList
  getLsbD_word : ∀ number, set.word.getLsbD number = true ↔ ∃ kind ∈ members, kind.index = number
  cpop_word : set.word.cpop.toNat = set.size

theorem represents_of_mem_iff {set : KindSet} {members : Finset Kind}
    (h : ∀ kind, kind ∈ set ↔ kind ∈ members) : set.Represents members where
  contains := h
  pairwise := set.pairwise_toList
  mem_toList kind := by rw [KindSet.mem_toList, h]
  size_eq := set.size_eq_length
  isEmpty := by simp [isEmpty_iff, h, Finset.eq_empty_iff_forall_notMem]
  text_eq := set.text_eq_listed
  getLsbD_word number := by simp [KindSet.getLsbD_word, h]
  cpop_word := set.size_eq_cpop.symm

/-- However a set of kinds is put together, it represents the finite set of the kinds that were put
in, and its word is the machine word that is put together in the same way; it equals another one
just if the same kinds were put into both; and for the kinds of a list it makes no difference
whether their bits are set or their sets are joined. -/
theorem Recipe.represents (recipe : Recipe) :
    recipe.set.Represents recipe.members ∧ recipe.set.word = recipe.word ∧
      (∀ other : Recipe, recipe.set = other.set ↔ recipe.members = other.members) ∧
      ∀ kinds : List Kind, (gathered kinds).set = (collected kinds).set := by
  refine ⟨represents_of_mem_iff recipe.mem_set_iff, recipe.word_set, fun other ↦ ?_,
    gather_eq_ofList⟩
  constructor
  · intro heq
    ext kind
    rw [← mem_set_iff, heq, mem_set_iff]
  · intro heq
    ext kind
    rw [mem_set_iff, heq, mem_set_iff]

/-- Kinds put in twice or out of order are listed once and in order. -/
example :
    (Recipe.union (.gathered [.endOfInput, .symbol .comma]) (.single .digits)).set.text =
      "`separated digits`, `,`, `end of input`" := by decide

end KindSet

end CorpusQuery
