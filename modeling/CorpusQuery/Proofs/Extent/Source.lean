import CorpusQuery.Proofs.Coupling.Index
import CorpusQuery.Proofs.Spelling.Lexical

/-!
Where the tokens of a text lie. Pieces are placed one behind the other, so tokens do not overlap and
end with the end of the text (`Lexed.laid_ofSource`). Putting blanks and invalid pieces together
moves no token (`Lexed.tokens_coalesce`).
-/

set_option autoImplicit false
set_option relaxedAutoImplicit false

namespace CorpusQuery

/-- A token list as it lies in a text: every token before the end has some width, and every token
begins where the one before it ends or later. -/
structure Token.Laid (tokens : List Token) : Prop extends Token.Ended tokens where
  width : ∀ token ∈ tokens.dropLast, token.span.start < token.span.stop
  ordered : tokens.Pairwise fun earlier later ↦ earlier.span.stop ≤ later.span.start

/-! ### Pieces -/

theorem Text.byteLength_pos {text : List Char} (h : text ≠ []) : 0 < byteLength text := by
  cases text with
  | nil => exact absurd rfl h
  | cons c rest =>
    have hsize := c.utf8Size_pos
    rw [byteLength_cons]
    omega

namespace Lexed

variable {placed : Placed} {offset : Nat} {pieces : List Piece}

theorem offset_le_of_mem_place (h : placed ∈ place offset pieces) : offset ≤ placed.offset := by
  induction pieces generalizing offset with
  | nil => cases h
  | cons piece pieces ih =>
    rcases List.mem_cons.mp h with rfl | h
    · exact Nat.le_refl _
    · exact (Nat.le_add_right _ _).trans (ih h)

theorem stop_le_of_mem_place (h : placed ∈ place offset pieces) :
    placed.span.stop ≤ offset + Text.byteLength (pieces.flatMap Piece.text) := by
  induction pieces generalizing offset with
  | nil => cases h
  | cons piece pieces ih =>
    rw [List.flatMap_cons, Text.byteLength_append]
    rcases List.mem_cons.mp h with rfl | h
    · simp only [Placed.span]
      omega
    · have hrest := ih h
      omega

/-- Pieces that are placed one behind the other do not overlap. -/
theorem pairwise_place (offset : Nat) (pieces : List Piece) :
    (place offset pieces).Pairwise fun earlier later ↦ earlier.span.stop ≤ later.offset := by
  induction pieces generalizing offset with
  | nil => exact .nil
  | cons piece pieces ih =>
    exact .cons (fun later hlater ↦ offset_le_of_mem_place hlater) (ih _)

theorem span_of_token? {token : Token} (h : placed.token? = some token) :
    token.span = placed.span := by
  unfold Placed.token? at h
  split at h
  · cases h
    rfl
  · cases h
  · cases h

theorem token?_of_skipped (h : placed.piece.shape = .skipped) : placed.token? = none := by
  rw [Placed.token?, h]

theorem token?_of_invalid (h : placed.piece.shape = .invalid) : placed.token? = none := by
  rw [Placed.token?, h]

theorem tokens_join (offset : Nat) (piece : Piece) (rest : List Piece) :
    (place offset (Piece.join piece rest)).filterMap Placed.token? =
      (place offset (piece :: rest)).filterMap Placed.token? := by
  unfold Piece.join
  split
  · rename_i hshape
    simp only [place, Text.byteLength_append, ← Nat.add_assoc]
    rw [List.filterMap_cons_none (token?_of_skipped rfl),
      List.filterMap_cons_none (token?_of_skipped hshape),
      List.filterMap_cons_none (token?_of_skipped rfl)]
  · rename_i hshape
    simp only [place, Text.byteLength_append, ← Nat.add_assoc]
    rw [List.filterMap_cons_none (token?_of_invalid rfl),
      List.filterMap_cons_none (token?_of_invalid hshape),
      List.filterMap_cons_none (token?_of_invalid rfl)]
  · rename_i hshape
    simp only [place, Text.byteLength_append, ← Nat.add_assoc]
    rw [List.filterMap_cons_none (token?_of_invalid rfl),
      List.filterMap_cons_none (token?_of_invalid hshape),
      List.filterMap_cons_none (token?_of_skipped rfl),
      List.filterMap_cons_none (token?_of_invalid rfl)]
  · rfl

/-- Putting pieces together moves no token. -/
theorem tokens_coalesce (offset : Nat) (pieces : List Piece) :
    (place offset (Piece.coalesce pieces)).filterMap Placed.token? =
      (place offset pieces).filterMap Placed.token? := by
  induction pieces generalizing offset with
  | nil => rfl
  | cons piece pieces ih =>
    have hjoin := tokens_join offset piece (Piece.coalesce pieces)
    rw [show Piece.coalesce (piece :: pieces) = Piece.join piece (Piece.coalesce pieces) from rfl,
      hjoin, place, place, List.filterMap_cons, List.filterMap_cons, ih]

theorem ofChars_tokens (text : List Char) : (ofChars text).tokens =
    (place 0 (Piece.scan text)).filterMap Placed.token? ++ [.endAt (Text.byteLength text)] := by
  rw [ofChars, tokens_coalesce]

/-! ### Token lists -/

theorem laid_ofChars (text : List Char) : Token.Laid (ofChars text).tokens := by
  have hregular {token : Token} (h : token ∈ (ofChars text).tokens.dropLast) : token.Regular :=
    Token.regular_of_lexical (lexical_of_mem h)
  have hpiece {token : Token} (h : token ∈ (ofChars text).tokens.dropLast) :
      ∃ placed ∈ place 0 (Piece.scan text), token.span = placed.span := by
    rw [ofChars_tokens, List.dropLast_concat] at h
    obtain ⟨placed, hplaced, htoken⟩ := List.mem_filterMap.mp h
    exact ⟨placed, hplaced, span_of_token? htoken⟩
  refine ⟨⟨?_, fun token h ↦ (hregular h).kind_ne⟩, fun token h ↦ ?_, ?_⟩
  · rw [Token.Closed, ofChars, List.getLast?_concat]
    rfl
  · obtain ⟨placed, hplaced, hspan⟩ := hpiece h
    obtain ⟨first, rest, hcut⟩ := Piece.eq_cut_of_mem_scan (piece_mem_of_mem_place hplaced)
    have hwidth : 0 < Text.byteLength placed.piece.text := by
      rw [hcut]
      exact Text.byteLength_pos (List.cons_ne_nil _ _)
    rw [hspan]
    exact Nat.lt_add_of_pos_right hwidth
  · rw [ofChars_tokens]
    refine List.pairwise_append.mpr
      ⟨?_, List.pairwise_singleton _ _, fun token htoken last hlast ↦ ?_⟩
    · refine (pairwise_place 0 _).filterMap _ fun earlier later hle token htoken token' htoken' ↦ ?_
      rw [span_of_token? htoken, span_of_token? htoken']
      exact hle
    · obtain ⟨placed, hplaced, htoken⟩ := List.mem_filterMap.mp htoken
      have hstop := stop_le_of_mem_place hplaced
      rw [Piece.flatten_scan, Nat.zero_add] at hstop
      rw [List.mem_singleton.mp hlast, span_of_token? htoken]
      exact hstop

/-- The tokens of a source text do not overlap. -/
theorem laid_ofSource (source : String) : Token.Laid (ofSource source).tokens :=
  laid_ofChars source.toList

end Lexed

end CorpusQuery
