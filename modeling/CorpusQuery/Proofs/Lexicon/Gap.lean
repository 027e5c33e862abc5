import CorpusQuery.Proofs.Lexicon.Cut

/-!
What lies between two tokens. A gap consists of blanks, comments and invalid pieces, and a text is
one gap or a gap, a token and a text behind it (`Piece.gap_induction`). Putting pieces together
leaves tokens alone (`Piece.coalesce_append`) and makes one invalid piece of a gap, from the first
of its invalid pieces to the last (`Piece.settled_of_gap`), so a gap with invalid pieces is reported
once (`Lexed.fragment_of_gap`).
-/

set_option autoImplicit false
set_option relaxedAutoImplicit false

namespace CorpusQuery

open CorpusQuery.Piece

namespace Pattern

/-- The patterns whose words are skipped. -/
def IsSkipped (pattern : Pattern) : Prop :=
  pattern = .blanks ∨ pattern = .lineComment ∨ pattern = .blockComment

end Pattern

namespace Piece

/-! ### Gaps -/

/-- A stretch without tokens: whatever in it is not invalid is a run of blanks or a comment. -/
def Gap (pieces : List Piece) : Prop :=
  ∀ piece ∈ pieces, piece.text ≠ [] ∧ (piece.shape = .invalid ∨
    piece.shape = .skipped ∧ ∃ pattern : Pattern, pattern.IsSkipped ∧
      piece.text ∈ pattern.language)

/-- Pieces none of which is invalid or a token. -/
def Skipped (pieces : List Piece) : Prop := ∀ piece ∈ pieces, piece.shape = .skipped

/-- Pieces the first and the last of which are invalid. -/
structure Faulty (pieces : List Piece) : Prop where
  first : ∃ piece ∈ pieces.head?, piece.shape = .invalid
  last : ∃ piece ∈ pieces.getLast?, piece.shape = .invalid

/-- A cut that is no token is a gap. -/
theorem gap_of_cut {first : Char} {rest : List Char}
    (h : ∀ kind, (cut first rest).1 ≠ .token kind) :
    Gap [⟨(cut first rest).1, first :: rest.take (cut first rest).2⟩] := by
  refine List.forall_mem_singleton.mpr ⟨List.cons_ne_nil _ _, ?_⟩
  by_cases hinvalid : (cut first rest).1 = .invalid
  · exact .inl hinvalid
  obtain ⟨pattern, hmem, hshape⟩ := Pattern.cuts_of_cut hinvalid
  rw [hshape] at h
  refine .inr ?_
  cases pattern with
  | blanks => exact ⟨hshape, _, .inl rfl, hmem⟩
  | lineComment => exact ⟨hshape, _, .inr (.inl rfl), hmem⟩
  | blockComment => exact ⟨hshape, _, .inr (.inr rfl), hmem⟩
  | _ => exact absurd rfl (h _)

/-- A text is a gap, or a gap and a token and what is behind it. -/
theorem scan_split (text : List Char) : Gap (scan text) ∨
    ∃ gap kind word rest, Gap gap ∧ word ≠ [] ∧ text = gap.flatMap Piece.text ++ (word ++ rest) ∧
      scan text = gap ++ ⟨.token kind, word⟩ :: scan rest := by
  fun_induction scan text with
  | case1 => exact .inl (List.forall_mem_nil _)
  | case2 first rest ih =>
    have htext : first :: rest = first :: rest.take (cut first rest).2 ++
        rest.drop (cut first rest).2 := by
      rw [List.cons_append, List.take_append_drop]
    by_cases htoken : ∃ kind, (cut first rest).1 = .token kind
    · obtain ⟨kind, hkind⟩ := htoken
      exact .inr ⟨[], kind, first :: rest.take (cut first rest).2, rest.drop (cut first rest).2,
        List.forall_mem_nil _, List.cons_ne_nil _ _, htext, by rw [hkind]; rfl⟩
    · have hpiece := gap_of_cut fun kind hkind ↦ htoken ⟨kind, hkind⟩
      rcases ih with hgap | ⟨gap, kind, word, after, hgap, hword, hrest, hscan⟩
      · exact .inl (List.forall_mem_append.mpr ⟨hpiece, hgap⟩)
      · refine .inr ⟨_ :: gap, kind, word, after, List.forall_mem_append.mpr ⟨hpiece, hgap⟩, hword,
          ?_, by rw [hscan, List.cons_append]⟩
        rw [List.flatMap_cons, List.append_assoc, ← hrest]
        exact htext

/-- What holds of gaps, and of a gap and a token and what is behind it if it holds of what is
behind it, holds of every text. -/
theorem gap_induction {motive : List Char → Prop}
    (finish : ∀ text, Gap (scan text) → motive text)
    (token : ∀ gap kind word rest, Gap gap → word ≠ [] →
      scan (gap.flatMap Piece.text ++ (word ++ rest)) = gap ++ ⟨.token kind, word⟩ :: scan rest →
        motive rest → motive (gap.flatMap Piece.text ++ (word ++ rest)))
    (text : List Char) : motive text := by
  induction hlength : text.length using Nat.strong_induction_on generalizing text with
  | _ length ih =>
    rcases scan_split text with hgap | ⟨gap, kind, word, rest, hgap, hword, rfl, hscan⟩
    · exact finish text hgap
    · refine token gap kind word rest hgap hword hscan (ih rest.length ?_ rest rfl)
      have hpos := List.length_pos_iff.mpr hword
      rw [← hlength, List.length_append, List.length_append]
      omega

/-- Pieces that begin with a token, if there are any. -/
def Fresh (pieces : List Piece) : Prop :=
  ∀ piece ∈ pieces.head?, ∃ kind, piece.shape = .token kind

/-- Joining does not look across the beginning of a token. -/
theorem join_append (piece : Piece) (rest : List Piece) {tail : List Piece} (h : Fresh tail) :
    join piece (rest ++ tail) = join piece rest ++ tail := by
  cases tail with
  | nil => rw [List.append_nil, List.append_nil]
  | cons token tail =>
    obtain ⟨kind, hkind⟩ := h token rfl
    obtain ⟨shape, text⟩ := piece
    obtain ⟨shape', text'⟩ := token
    cases hkind
    rcases rest with _ | ⟨⟨shape₁, text₁⟩, _ | ⟨⟨shape₂, text₂⟩, rest⟩⟩
    · cases shape <;> rfl
    · cases shape <;> cases shape₁ <;> rfl
    · cases shape <;> cases shape₁ <;> cases shape₂ <;> rfl

/-- Nothing is put together across the beginning of a token. -/
theorem coalesce_append (gap : List Piece) {tail : List Piece} (h : Fresh (coalesce tail)) :
    coalesce (gap ++ tail) = coalesce gap ++ coalesce tail := by
  induction gap with
  | nil => rfl
  | cons piece gap ih =>
    change join piece (coalesce (gap ++ tail)) = join piece (coalesce gap) ++ coalesce tail
    rw [ih, join_append piece _ h]

/-- A token stays apart from what stands around it. -/
theorem coalesce_token (before : List Piece) {token : Piece} {kind : Kind}
    (hkind : token.shape = .token kind) (after : List Piece) :
    coalesce (before ++ token :: after) = coalesce before ++ token :: coalesce after := by
  have hbehind : coalesce (token :: after) = token :: coalesce after := by
    obtain ⟨shape, text⟩ := token
    cases hkind
    rfl
  rw [coalesce_append before, hbehind]
  rw [hbehind]
  exact fun _ ↦ by rintro ⟨⟩; exact ⟨kind, hkind⟩

/-! ### Pieces put together -/

/-- Skipped pieces put together. -/
def merged : List Piece → List Piece
  | [] => []
  | piece :: pieces => [⟨.skipped, (piece :: pieces).flatMap Piece.text⟩]

/-- What becomes of a gap: invalid pieces and all that lies between them make one. -/
inductive Settled : List Piece → List Piece → Prop
  | sound {gap : List Piece} (hgap : Skipped gap) : Settled gap (merged gap)
  | faulty {before middle after : List Piece} (hbefore : Skipped before) (hmiddle : Faulty middle)
      (hafter : Skipped after) :
      Settled (before ++ (middle ++ after))
        (merged before ++ ⟨.invalid, middle.flatMap Piece.text⟩ :: merged after)

theorem flatMap_merged (pieces : List Piece) :
    (merged pieces).flatMap Piece.text = pieces.flatMap Piece.text := by
  cases pieces with
  | nil => rfl
  | cons piece pieces => rw [merged, List.flatMap_singleton]

theorem join_skipped {piece : Piece} {pieces tail : List Piece} (hpiece : piece.shape = .skipped)
    (htail : ∀ piece ∈ tail.head?, piece.shape = .invalid) :
    join piece (merged pieces ++ tail) = merged (piece :: pieces) ++ tail := by
  obtain ⟨shape, text⟩ := piece
  cases hpiece
  cases pieces with
  | cons other pieces => rfl
  | nil =>
    rw [merged, merged, List.flatMap_singleton, List.nil_append]
    cases tail with
    | nil => rfl
    | cons other tail =>
      obtain ⟨shape', text'⟩ := other
      cases htail _ rfl
      rfl

theorem join_invalid {piece : Piece} {pieces : List Piece} (hpiece : piece.shape = .invalid) :
    join piece (merged pieces) = piece :: merged pieces := by
  obtain ⟨shape, text⟩ := piece
  cases hpiece
  cases pieces <;> rfl

theorem join_invalid_invalid {piece : Piece} {pieces tail : List Piece} {text : List Char}
    (hpiece : piece.shape = .invalid) :
    join piece (merged pieces ++ ⟨.invalid, text⟩ :: tail) =
      ⟨.invalid, piece.text ++ (pieces.flatMap Piece.text ++ text)⟩ :: tail := by
  obtain ⟨shape, text'⟩ := piece
  cases hpiece
  cases pieces with
  | nil => rfl
  | cons other pieces =>
    rw [← List.append_assoc]
    rfl

theorem faulty_singleton {piece : Piece} (h : piece.shape = .invalid) : Faulty [piece] :=
  ⟨⟨piece, rfl, h⟩, ⟨piece, rfl, h⟩⟩

theorem Faulty.cons {piece : Piece} {middle : List Piece} (h : Faulty middle)
    (hpiece : piece.shape = .invalid) (between : List Piece) :
    Faulty (piece :: (between ++ middle)) := by
  refine ⟨⟨piece, rfl, hpiece⟩, ?_⟩
  obtain ⟨last, hlast, hshape⟩ := h.last
  have hne : middle ≠ [] := by
    rintro rfl
    cases hlast
  refine ⟨last, ?_, hshape⟩
  rwa [← List.cons_append, List.getLast?_append_of_ne_nil _ hne]

/-- The invalid pieces of a gap are put together with all that lies between them. -/
theorem settled_of_gap {gap : List Piece} (h : Gap gap) : Settled gap (coalesce gap) := by
  induction gap with
  | nil => exact .sound (List.forall_mem_nil _)
  | cons piece gap ih =>
    obtain ⟨hpiece, hgap⟩ := List.forall_mem_cons.mp h
    change Settled (piece :: gap) (join piece (coalesce gap))
    have hcases : piece.shape = .invalid ∨ piece.shape = .skipped := hpiece.2.imp_right And.left
    replace ih := ih hgap
    generalize coalesce gap = pieces at ih ⊢
    cases ih with
    | sound hskipped =>
      rcases hcases with hinvalid | hskip
      · rw [join_invalid hinvalid]
        have hsettled := Settled.faulty (List.forall_mem_nil _) (faulty_singleton hinvalid) hskipped
        rw [List.flatMap_singleton, ← hinvalid] at hsettled
        exact hsettled
      · have hjoin : join piece (merged gap ++ []) = merged (piece :: gap) ++ [] :=
          join_skipped hskip nofun
        rw [List.append_nil, List.append_nil] at hjoin
        rw [hjoin]
        exact .sound (List.forall_mem_cons.mpr ⟨hskip, hskipped⟩)
    | @faulty before middle after hbefore hmiddle hafter =>
      rcases hcases with hinvalid | hskip
      · rw [join_invalid_invalid hinvalid, ← List.flatMap_append, ← List.flatMap_cons,
          ← List.append_assoc, ← List.cons_append]
        exact .faulty (List.forall_mem_nil _) (hmiddle.cons hinvalid before) hafter
      · rw [join_skipped hskip fun _ ↦ by rintro ⟨⟩; rfl]
        exact .faulty (List.forall_mem_cons.mpr ⟨hskip, hbefore⟩) hmiddle hafter

end Piece

namespace Lexed

/-- What is reported of a gap that begins at an offset: nothing if all of it is skipped, and
otherwise one stretch from the first of its invalid pieces to the last. -/
inductive Fragment (offset : Nat) : List Piece → List Diagnostic → Prop
  | sound {gap : List Piece} (hgap : Skipped gap) : Fragment offset gap []
  | faulty {before middle after : List Piece} {start : Nat} {text : List Char}
      (hbefore : Skipped before) (hmiddle : Faulty middle) (hafter : Skipped after)
      (hstart : start = offset + Text.byteLength (before.flatMap Piece.text))
      (htext : text = middle.flatMap Piece.text) :
      Fragment offset (before ++ (middle ++ after))
        [invalidText ⟨start, start + Text.byteLength text⟩ text]

theorem diagnostics_merged (offset : Nat) (pieces : List Piece) :
    (place offset (merged pieces)).flatMap Placed.diagnostics = [] := by
  cases pieces <;> rfl

/-- The invalid pieces of a gap are reported once. -/
theorem fragment_of_gap {gap : List Piece} (h : Gap gap) (offset : Nat) :
    Fragment offset gap ((place offset (coalesce gap)).flatMap Placed.diagnostics) := by
  have hsettled := settled_of_gap h
  generalize coalesce gap = pieces at hsettled
  cases hsettled with
  | sound hgap =>
    rw [diagnostics_merged]
    exact .sound hgap
  | faulty hbefore hmiddle hafter =>
    rw [place_append, List.flatMap_append, diagnostics_merged, List.nil_append, place,
      List.flatMap_cons, diagnostics_merged, List.append_nil, flatMap_merged]
    exact .faulty hbefore hmiddle hafter rfl rfl

end Lexed

end CorpusQuery
