import CorpusQuery.Proofs.Standalone.Subexpression

/-!
Ranges of a text. `Text.Stands` says which characters a range covers, so its ends lie between
characters, and `Text.Ranges` says of several ranges that they cover one or more characters each and
stand one behind the other. Ranges of two texts become ranges of the two put together
(`Text.Ranges.append`), and every piece of a scan stands where it was cut off
(`Lexed.cut_of_mem_place`).
-/

set_option autoImplicit false
set_option relaxedAutoImplicit false

namespace CorpusQuery

open CorpusQuery.Piece

/-- Neither of two ranges reaches into the other. -/
def Span.Apart (first second : Span) : Prop :=
  first.stop ≤ second.start ∨ second.stop ≤ first.start

/-! ### Ranges of a text -/

namespace Text

/-- Some characters of a text, and the range that they cover if the text begins at an offset. -/
def Stands (offset : Nat) (text word : List Char) (span : Span) : Prop :=
  ∃ before after, text = before ++ (word ++ after) ∧
    span = ⟨offset + byteLength before, offset + byteLength before + byteLength word⟩

/-- Ranges of a text, each of one or more whole characters, one behind the other. -/
structure Ranges (offset : Nat) (text : List Char) (spans : List Span) : Prop where
  stands : ∀ span ∈ spans, ∃ word, word ≠ [] ∧ Stands offset text word span
  ordered : spans.Pairwise fun first second ↦ first.stop ≤ second.start

variable {offset : Nat} {text word : List Char} {span : Span} {spans spans' : List Span}

theorem Stands.le_start (h : Stands offset text word span) : offset ≤ span.start := by
  obtain ⟨before, after, rfl, rfl⟩ := h
  exact Nat.le_add_right _ _

theorem Stands.stop_le (h : Stands offset text word span) :
    span.stop ≤ offset + byteLength text := by
  obtain ⟨before, after, rfl, rfl⟩ := h
  rw [byteLength_append, byteLength_append]
  dsimp only
  omega

theorem Stands.append_right (h : Stands offset text word span) (after : List Char) :
    Stands offset (text ++ after) word span := by
  obtain ⟨before, rest, rfl, rfl⟩ := h
  exact ⟨before, rest ++ after, by simp only [List.append_assoc], rfl⟩

theorem Stands.append_left {before : List Char}
    (h : Stands (offset + byteLength before) text word span) :
    Stands offset (before ++ text) word span := by
  obtain ⟨rest, after, rfl, rfl⟩ := h
  refine ⟨before ++ rest, after, by simp only [List.append_assoc], ?_⟩
  rw [byteLength_append, Nat.add_assoc]

theorem stands_self (offset : Nat) (text : List Char) :
    Stands offset text text ⟨offset, offset + byteLength text⟩ :=
  ⟨[], [], by rw [List.nil_append, List.append_nil], rfl⟩

theorem ranges_nil (offset : Nat) (text : List Char) : Ranges offset text [] := ⟨nofun, .nil⟩

theorem ranges_self (offset : Nat) (htext : text ≠ []) :
    Ranges offset text [⟨offset, offset + byteLength text⟩] :=
  ⟨fun _ h ↦ List.mem_singleton.mp h ▸ ⟨text, htext, stands_self offset text⟩,
    List.pairwise_singleton _ _⟩

/-- The ranges of two texts that stand one behind the other. -/
theorem Ranges.append {text' : List Char} (h : Ranges offset text spans)
    (h' : Ranges (offset + byteLength text) text' spans') :
    Ranges offset (text ++ text') (spans ++ spans') where
  stands span hspan := by
    rcases List.mem_append.mp hspan with hspan | hspan
    · obtain ⟨word, hword, hstands⟩ := h.stands span hspan
      exact ⟨word, hword, hstands.append_right text'⟩
    · obtain ⟨word, hword, hstands⟩ := h'.stands span hspan
      exact ⟨word, hword, hstands.append_left⟩
  ordered := List.pairwise_append.mpr ⟨h.ordered, h'.ordered, fun first hfirst second hsecond ↦ by
    obtain ⟨_, -, hfirst⟩ := h.stands first hfirst
    obtain ⟨_, -, hsecond⟩ := h'.stands second hsecond
    exact hfirst.stop_le.trans hsecond.le_start⟩

theorem ranges_behind (head : List Char) (h : Ranges (offset + byteLength head) text spans) :
    Ranges offset (head ++ text) spans :=
  (ranges_nil offset head).append h

theorem ranges_cons (head : List Char) (hhead : head ≠ [])
    (h : Ranges (offset + byteLength head) text spans) :
    Ranges offset (head ++ text) (⟨offset, offset + byteLength head⟩ :: spans) :=
  (ranges_self offset hhead).append h

end Text

/-! ### Pieces in their places -/

namespace Lexed

theorem split_of_mem_place {offset : Nat} {pieces : List Piece} {placed : Placed}
    (h : placed ∈ place offset pieces) : ∃ before after, pieces = before ++ placed.piece :: after ∧
      placed.offset = offset + Text.byteLength (before.flatMap Piece.text) := by
  induction pieces generalizing offset with
  | nil => cases h
  | cons piece pieces ih =>
    rcases List.mem_cons.mp h with rfl | h
    · exact ⟨[], pieces, rfl, rfl⟩
    · obtain ⟨before, after, rfl, hoffset⟩ := ih h
      refine ⟨piece :: before, after, rfl, ?_⟩
      rw [hoffset, List.flatMap_cons, Text.byteLength_append, Nat.add_assoc]

/-- A piece is cut off where it is placed. -/
theorem cut_of_mem_place {text : List Char} {placed : Placed} (h : placed ∈ place 0 (scan text)) :
    ∃ before first rest, text = before ++ first :: rest ∧
      placed.offset = Text.byteLength before ∧
        placed.piece = ⟨(cut first rest).1, first :: rest.take (cut first rest).2⟩ := by
  obtain ⟨before, after, hpieces, hoffset⟩ := split_of_mem_place h
  have hafter := scan_suffix hpieces
  have htext : text = before.flatMap Piece.text ++
      (placed.piece :: after).flatMap Piece.text := by
    rw [← List.flatMap_append, ← hpieces, flatten_scan]
  cases hrest : (placed.piece :: after).flatMap Piece.text with
  | nil =>
    rw [hrest, scan] at hafter
    cases hafter
  | cons first rest =>
    rw [hrest, scan, List.cons.injEq] at hafter
    rw [Nat.zero_add] at hoffset
    exact ⟨_, first, rest, by rw [htext, hrest], hoffset, hafter.1.symm⟩

theorem stands_of_mem_place {offset : Nat} {pieces : List Piece} {placed : Placed}
    (h : placed ∈ place offset pieces) :
    Text.Stands offset (pieces.flatMap Piece.text) placed.piece.text placed.span := by
  obtain ⟨before, after, rfl, hoffset⟩ := split_of_mem_place h
  refine ⟨before.flatMap Piece.text, after.flatMap Piece.text, ?_, ?_⟩
  · rw [List.flatMap_append, List.flatMap_cons]
  · rw [Placed.span, hoffset]

/-- Every byte of a text belongs to one of its pieces. -/
theorem exists_of_byte {offset byte : Nat} {pieces : List Piece} (hoffset : offset ≤ byte)
    (hbyte : byte < offset + Text.byteLength (pieces.flatMap Piece.text)) :
    ∃ placed ∈ place offset pieces, placed.span.start ≤ byte ∧ byte < placed.span.stop := by
  induction pieces generalizing offset with
  | nil => exact absurd hbyte (Nat.not_lt.mpr hoffset)
  | cons piece pieces ih =>
    by_cases hfirst : byte < offset + Text.byteLength piece.text
    · exact ⟨_, List.mem_cons_self, hoffset, hfirst⟩
    · rw [List.flatMap_cons, Text.byteLength_append, ← Nat.add_assoc] at hbyte
      obtain ⟨placed, hplaced, hrange⟩ := ih (Nat.le_of_not_lt hfirst) hbyte
      exact ⟨placed, List.mem_cons_of_mem _ hplaced, hrange⟩

end Lexed

end CorpusQuery
