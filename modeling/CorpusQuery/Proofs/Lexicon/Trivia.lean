import CorpusQuery.Proofs.Lexicon.Cut
import CorpusQuery.Proofs.Lexicon.Range

/-!
Trivia can be replaced. Blanks and comments leave no trace in a scan, whatever stands behind them
(`Trivia.solid_trivia`), and a word of a token is cut off in full before a blank and before the end
of the text (`Pattern.cut_of_mem`). So a clean text may be taken apart into the words of its tokens
and put together again with other trivia between them: it lexes to the same kinds and texts
(`Lexed.trivia_irrelevant`).
-/

set_option autoImplicit false
set_option relaxedAutoImplicit false

namespace CorpusQuery

open CorpusQuery.Piece

open scoped Computability

/-! ### Words before a blank -/

theorem Symbol.halts_of_isBlank {rest : List Char} (h : ∀ c ∈ rest.head?, isBlank c = true) :
    Halts rest := by
  intro c hc mark hmem
  have hchar := isMarkChar_of_mem hmem
  simp [isMarkChar, h c hc] at hchar

theorem Piece.isNameChar_of_blank {c : Char} (h : isBlank c = true) : isNameChar c = false := by
  simp only [isBlank, Bool.or_eq_true, beq_iff_eq] at h
  rcases h with (((rfl | rfl) | rfl) | rfl) | rfl <;> rfl

namespace Pattern

/-- A word of a token is cut off in full before a blank and before the end of a text. -/
theorem cut_of_mem {pattern : Pattern} {kind : Kind} {first : Char} {tail rest : List Char}
    (h : first :: tail ∈ pattern.language) (hkind : pattern.shape (first :: tail) = .token kind)
    (hrest : ∀ c ∈ rest.head?, isBlank c = true) :
    cut first (tail ++ rest) = (.token kind, tail.length) := by
  have hname : ∀ c ∈ rest.head?, isNameChar c = false :=
    fun c hc ↦ isNameChar_of_blank (hrest c hc)
  have hnumber : ∀ c ∈ rest.head?, isNumberChar c = false :=
    fun c hc ↦ Lexeme.isNumberChar_of_isNameChar (hname c hc)
  rw [← hkind]
  cases pattern with
  | blanks | lineComment | blockComment => cases hkind
  | pureDigits =>
    obtain ⟨_, _, ⟨⟩, hc, hdigits⟩ := mem_pureDigits.mp h
    have hall : ∀ d ∈ first :: tail, isDigit d = true := List.forall_mem_cons.mpr ⟨hc, hdigits⟩
    have hbar : ¬ (first :: tail).contains '_' = true :=
      fun hmem ↦ ne_underscore_of_digit (hall _ (List.contains_iff_mem.mp hmem)) rfl
    rw [cut_number hc (fun d hd ↦ isNumberChar_of_digit (hdigits d hd)) hnumber, numberShape,
      if_neg (getLast?_of_digits hc hdigits), if_neg hbar]
    rfl
  | digits =>
    obtain ⟨_, _, ⟨⟩, hc, hdigits, hbar, hlast⟩ := mem_digits.mp h
    rw [cut_number hc hdigits hnumber, numberShape, if_neg hlast,
      if_pos (List.contains_iff_mem.mpr (List.mem_cons_of_mem _ hbar))]
    rfl
  | stringLiteral =>
    obtain ⟨_, ⟨⟩, hbody⟩ := mem_stringLiteral.mp h
    exact cut_stringLiteral hbody
  | identifier =>
    obtain ⟨_, _, ⟨⟩, hc, htail⟩ := mem_identifier.mp h
    exact cut_word hc htail hname
  | variableName =>
    obtain ⟨_, _, ⟨⟩, hc, htail⟩ := mem_variableName.mp h
    exact sigil_name hc htail hname
  | memberName =>
    obtain ⟨_, _, ⟨⟩, hc, htail⟩ := mem_memberName.mp h
    exact sigil_name hc htail hname
  | symbol mark =>
    have hchars : first :: tail = mark.chars := mem_symbol.mp h
    have hfirst := Symbol.isMarkChar_of_mem (hchars ▸ List.mem_cons_self : first ∈ mark.chars)
    have hslash : first = '/' → ∀ c ∈ (tail ++ rest).head?, c ≠ '/' ∧ c ≠ '*' := by
      rintro rfl
      cases mark <;> cases hchars
      intro c hc
      refine ⟨?_, ?_⟩
      all_goals
        rintro rfl
        cases hrest _ hc
    rw [cut_eq_symbol hfirst hslash, Piece.symbol, ← List.cons_append, hchars,
      Symbol.longest?_append (Symbol.halts_of_isBlank hrest), Symbol.longest?_chars]
    change (_, mark.chars.length - 1) = _
    rw [← hchars]
    rfl

end Pattern

namespace Trivia

/-! ### Trivia -/

/-- A blank, a line comment with the end of its line, or a block comment. -/
def trivium : Language Char :=
  Pattern.blank + (Pattern.lineComment.language * Pattern.literal ['\n'] +
    Pattern.blockComment.language)

/-- Blanks and comments, one behind the other. -/
def trivia : Language Char := trivium∗

theorem mem_trivia_of_trivium {word : List Char} (h : word ∈ trivium) : word ∈ trivia := by
  rw [← List.append_nil word]
  exact Pattern.append_mem_kstar h (Language.nil_mem_kstar _)

theorem blank_mem_trivium {c : Char} (h : isBlank c = true) : [c] ∈ trivium := by
  refine .inl ?_
  rw [Pattern.blank_eq]
  exact ⟨c, h, rfl⟩

/-- The pieces that are not skipped. -/
def solid (pieces : List Piece) : List Piece := pieces.filter (·.shape != .skipped)

theorem solid_cons_skipped {piece : Piece} (h : piece.shape = .skipped) (pieces : List Piece) :
    solid (piece :: pieces) = solid pieces := by
  rw [solid, solid, List.filter_cons_of_neg]
  rw [h]
  decide

theorem solid_cons_token {piece : Piece} {kind : Kind} (h : piece.shape = .token kind)
    (pieces : List Piece) : solid (piece :: pieces) = piece :: solid pieces := by
  rw [solid, solid, List.filter_cons_of_pos]
  rw [h]
  rfl

theorem solid_blanks (run rest : List Char) (h : ∀ c ∈ run, isBlank c = true)
    (hrest : ∀ c ∈ rest.head?, isBlank c = false) :
    solid (scan (run ++ rest)) = solid (scan rest) := by
  cases run with
  | nil => rfl
  | cons c run =>
    obtain ⟨hc, hrun⟩ := List.forall_mem_cons.mp h
    have hcut : cut c (run ++ rest) = (.skipped, run.length) := by
      unfold cut
      rw [if_pos hc, takeWhile_of_head hrun hrest]
    rw [scan_of_cut hcut, solid_cons_skipped rfl]

theorem solid_blank {c : Char} (hc : isBlank c = true) (rest : List Char) :
    solid (scan (c :: rest)) = solid (scan rest) := by
  have hrun : ∀ d ∈ rest.takeWhile isBlank, isBlank d = true := of_mem_takeWhile
  have hhead : ∀ d ∈ (rest.dropWhile isBlank).head?, isBlank d = false := by
    intro d hd
    have hnot := List.head?_dropWhile_not isBlank rest
    rw [Option.mem_def.mp hd] at hnot
    simpa using hnot
  have hcons := solid_blanks (c :: rest.takeWhile isBlank) _
    (List.forall_mem_cons.mpr ⟨hc, hrun⟩) hhead
  have hself := solid_blanks _ _ hrun hhead
  rw [List.takeWhile_append_dropWhile] at hself
  rw [List.cons_append, List.takeWhile_append_dropWhile] at hcons
  rw [hcons, hself]

theorem solid_trivium {word : List Char} (h : word ∈ trivium) (rest : List Char) :
    solid (scan (word ++ rest)) = solid (scan rest) := by
  rcases h with hblank | hline | hblock
  · rw [Pattern.blank_eq] at hblank
    obtain ⟨c, hc, rfl⟩ := hblank
    exact solid_blank hc rest
  · obtain ⟨_, hcomment, _, rfl, rfl⟩ := Language.mem_mul.mp hline
    obtain ⟨body, rfl, hbody⟩ := Pattern.mem_lineComment.mp hcomment
    have hbreak : ∀ c ∈ ('\n' :: rest).head?, (c != '\n') = false := by
      rintro _ ⟨⟩
      rfl
    have hcut : cut '/' ('/' :: body ++ '\n' :: rest) = (.skipped, ('/' :: body).length) := by
      change ((.skipped, 1 + ((body ++ '\n' :: rest).takeWhile (· != '\n')).length) :
        Shape × Nat) = _
      rw [takeWhile_of_head hbody hbreak, Nat.add_comm]
      rfl
    rw [List.append_assoc, List.singleton_append, scan_of_cut hcut, solid_cons_skipped rfl,
      solid_blank rfl]
  · obtain ⟨body, rfl, hbody⟩ := Pattern.mem_blockComment.mp hblock
    have hcut : cut '/' ('*' :: body ++ rest) = (.skipped, ('*' :: body).length) := by
      rw [Pattern.cut_blockComment hbody, Nat.add_comm]
      rfl
    rw [scan_of_cut hcut, solid_cons_skipped rfl]

/-- Trivia leave nothing behind in a scan. -/
theorem solid_trivia {word : List Char} (h : word ∈ trivia) (rest : List Char) :
    solid (scan (word ++ rest)) = solid (scan rest) := by
  induction h using Pattern.kstar_induction with
  | nil => rfl
  | append first others hfirst _ ih => rw [List.append_assoc, solid_trivium hfirst, ih]

/-! ### Words and trivia in turn -/

/-- Trivia behind each of some words, which part the words from each other: none but the last may
be empty, and each begins with a blank if it is not empty. -/
structure Separates (gaps words : List (List Char)) : Prop where
  length_eq : gaps.length = words.length
  trivia : ∀ gap ∈ gaps, gap ∈ trivia
  blank : ∀ gap ∈ gaps, ∀ c ∈ gap.head?, isBlank c = true
  ne_nil : ∀ gap ∈ gaps.dropLast, gap ≠ []

/-- The words with the trivia behind them. -/
def interleave (words gaps : List (List Char)) : List Char :=
  (words.zipWith (· ++ ·) gaps).flatten

theorem Separates.of_cons {gap word : List Char} {gaps words : List (List Char)}
    (h : Separates (gap :: gaps) (word :: words)) : Separates gaps words where
  length_eq := Nat.succ.inj h.length_eq
  trivia other hother := h.trivia other (List.mem_cons_of_mem _ hother)
  blank other hother := h.blank other (List.mem_cons_of_mem _ hother)
  ne_nil other hother := by
    refine h.ne_nil other ?_
    rw [List.dropLast_cons_of_ne_nil (List.ne_nil_of_mem (List.dropLast_subset _ hother))]
    exact List.mem_cons_of_mem _ hother

/-- Behind a word stands a blank, or else nothing. -/
theorem Separates.head_blank {gap word : List Char} {gaps words : List (List Char)}
    (h : Separates (gap :: gaps) (word :: words)) :
    ∀ c ∈ (gap ++ interleave words gaps).head?, isBlank c = true := by
  cases gap with
  | cons c gap => exact h.blank (c :: gap) List.mem_cons_self
  | nil =>
    cases gaps with
    | cons other gaps => exact absurd rfl (h.ne_nil [] List.mem_cons_self)
    | nil =>
      cases words with
      | cons word words => cases h.of_cons.length_eq
      | nil => exact nofun

/-- A token piece as it is cut off: a word of a pattern. -/
inductive Written : Piece → Prop
  | intro {pattern : Pattern} {first : Char} {tail : List Char} {kind : Kind}
      (hmem : first :: tail ∈ pattern.language)
      (hkind : pattern.shape (first :: tail) = .token kind) :
      Written ⟨.token kind, first :: tail⟩

theorem scan_written {piece : Piece} (h : Written piece) {rest : List Char}
    (hrest : ∀ c ∈ rest.head?, isBlank c = true) :
    solid (scan (piece.text ++ rest)) = piece :: solid (scan rest) := by
  cases h with
  | intro hmem hkind =>
    rw [scan_of_cut (Pattern.cut_of_mem hmem hkind hrest)]
    exact solid_cons_token rfl _

/-- The words of token pieces with trivia behind them are cut into the same tokens. -/
theorem solid_interleave {pieces : List Piece} {gaps : List (List Char)}
    (h : ∀ piece ∈ pieces, Written piece) (hgaps : Separates gaps (pieces.map Piece.text)) :
    solid (scan (interleave (pieces.map Piece.text) gaps)) = pieces := by
  induction pieces generalizing gaps with
  | nil =>
    rw [interleave, List.map_nil, List.zipWith_nil_left, List.flatten_nil, scan]
    rfl
  | cons piece pieces ih =>
    cases gaps with
    | nil => cases hgaps.length_eq
    | cons gap gaps =>
      obtain ⟨hpiece, hpieces⟩ := List.forall_mem_cons.mp h
      have htext : interleave ((piece :: pieces).map Piece.text) (gap :: gaps) =
          piece.text ++ (gap ++ interleave (pieces.map Piece.text) gaps) :=
        List.append_assoc _ _ _
      rw [htext, scan_written hpiece hgaps.head_blank,
        solid_trivia (hgaps.trivia gap List.mem_cons_self), ih hpieces hgaps.of_cons]

/-- The pieces of a clean text are tokens, apart from what is skipped. -/
theorem written_of_clean {text : List Char} (h : ∀ piece ∈ scan text, piece.Sound) :
    ∀ piece ∈ solid (scan text), Written piece := by
  intro piece hpiece
  obtain ⟨hmem, hsolid⟩ := List.mem_filter.mp hpiece
  have hvalid := (h piece hmem).shape_ne
  obtain ⟨first, rest, rfl⟩ := eq_cut_of_mem_scan hmem
  obtain ⟨pattern, hword, hshape⟩ := Pattern.cuts_of_cut hvalid
  cases hkind : (cut first rest).1 with
  | skipped =>
    rw [hkind] at hsolid
    cases hsolid
  | invalid => exact absurd hkind hvalid
  | token kind => exact .intro hword (hshape.symm.trans hkind)

end Trivia

namespace Lexed

/-! ### Lexing again -/

/-- The kind and the text of a token piece. -/
def reading? (piece : Piece) : Option (Kind × String) :=
  (⟨0, piece⟩ : Placed).token?.map fun token ↦ (token.kind, token.text)

/-- What a token piece reads does not depend on where it stands. -/
theorem reading?_eq (offset : Nat) (piece : Piece) :
    (⟨offset, piece⟩ : Placed).token?.map (fun token ↦ (token.kind, token.text)) =
      reading? piece := by
  obtain ⟨shape, text⟩ := piece
  cases shape with
  | skipped | invalid => rfl
  | token kind =>
    cases kind with
    | stringLiteral =>
      have hvalue := (Text.decode_offset (offset + 1) 1 text.tail.dropLast).1
      exact congrArg (fun value ↦ some (Kind.stringLiteral, String.ofList value)) hvalue
    | _ => rfl

theorem readings_solid (pieces : List Piece) :
    (Trivia.solid pieces).filterMap reading? = pieces.filterMap reading? := by
  rw [Trivia.solid, List.filterMap_filter]
  refine congrArg (List.filterMap · pieces) (funext fun piece ↦ ?_)
  cases hshape : piece.shape with
  | skipped => rw [if_neg nofun, reading?, token?_of_skipped hshape, Option.map_none]
  | invalid | token kind => rfl

theorem readings_place (offset : Nat) (pieces : List Piece) :
    ((place offset pieces).filterMap Placed.token?).map (fun token ↦ (token.kind, token.text)) =
      (Trivia.solid pieces).filterMap reading? := by
  rw [readings_solid]
  induction pieces generalizing offset with
  | nil => rfl
  | cons piece pieces ih =>
    have hreading := reading?_eq offset piece
    cases htoken : (⟨offset, piece⟩ : Placed).token? with
    | none =>
      rw [htoken, Option.map_none] at hreading
      rw [place, List.filterMap_cons_none htoken, List.filterMap_cons_none hreading.symm, ih]
    | some token =>
      rw [htoken, Option.map_some] at hreading
      rw [place, List.filterMap_cons_some htoken, List.filterMap_cons_some hreading.symm,
        List.map_cons, ih]

/-- In a text without invalid pieces the slices of the tokens are what the token pieces say. -/
theorem slices_place (before : List Char) {pieces : List Piece}
    (h : ∀ piece ∈ pieces, piece.shape ≠ .invalid) :
    ((place (Text.byteLength before) pieces).filterMap Placed.token?).map
        (fun token ↦ Text.slice? (before ++ pieces.flatMap Piece.text) token.span.start
          token.span.stop) =
      (Trivia.solid pieces).map fun piece ↦ some piece.text := by
  induction pieces generalizing before with
  | nil => rfl
  | cons piece pieces ih =>
    have hrest := ih (before ++ piece.text) fun other hother ↦
      h other (List.mem_cons_of_mem _ hother)
    rw [Text.byteLength_append, List.append_assoc, ← List.flatMap_cons] at hrest
    cases hshape : piece.shape with
    | invalid => exact absurd hshape (h piece List.mem_cons_self)
    | skipped =>
      rw [place, List.filterMap_cons_none (token?_of_skipped hshape), hrest,
        Trivia.solid_cons_skipped hshape]
    | token kind =>
      obtain ⟨token, htoken⟩ : ∃ token,
          (⟨Text.byteLength before, piece⟩ : Placed).token? = some token := by
        rw [Placed.token?, hshape]
        exact ⟨_, rfl⟩
      have hslice := Text.slice?_append before piece.text (pieces.flatMap Piece.text)
      rw [place, List.filterMap_cons_some htoken, List.map_cons, hrest,
        Trivia.solid_cons_token hshape, List.map_cons, span_of_token? htoken]
      exact congrArg (· :: _) hslice

/-- A text is clean if nothing is wrong with the pieces that are not skipped. -/
theorem isClean_iff_solid (text : List Char) :
    (ofChars text).isClean = true ↔ ∀ piece ∈ Trivia.solid (scan text), piece.Sound := by
  rw [isClean_iff]
  refine ⟨fun h piece hpiece ↦ h piece (List.mem_of_mem_filter hpiece), fun h piece hpiece ↦ ?_⟩
  by_cases hskipped : piece.shape = .skipped
  · exact sound_of_skipped hskipped
  · exact h piece (List.mem_filter.mpr ⟨hpiece, bne_iff_ne.mpr hskipped⟩)

/-- The trivia of a clean text can be replaced: the words of its tokens with other trivia before the
first of them and behind each lex clean to the same kinds and texts. -/
theorem trivia_irrelevant {source : String} {lead : List Char} {words gaps : List (List Char)}
    (hclean : (ofSource source).isClean = true)
    (hwords : (ofSource source).tokens.dropLast.map (fun token ↦
      Text.slice? source.toList token.span.start token.span.stop) = words.map some)
    (hlead : lead ∈ Trivia.trivia) (hgaps : Trivia.Separates gaps words) :
    let text := lead ++ Trivia.interleave words gaps
    (ofSource (String.ofList text)).isClean = true ∧
      ∃ tokens, (ofSource (String.ofList text)).tokens =
          tokens ++ [.endAt (Text.byteLength text)] ∧
        tokens.map (fun token ↦ (token.kind, token.text)) =
          (ofSource source).tokens.dropLast.map fun token ↦ (token.kind, token.text) := by
  intro text
  rw [ofSource, String.toList_ofList]
  have hsound : ∀ piece ∈ scan source.toList, piece.Sound := (isClean_iff _).mp hclean
  have hdropLast : (ofSource source).tokens.dropLast = _ := dropLast_tokens source.toList
  have hpieces : words = (Trivia.solid (scan source.toList)).map Piece.text := by
    have hslices := slices_place [] fun piece hpiece ↦ (hsound piece hpiece).shape_ne
    rw [List.nil_append, flatten_scan, Text.byteLength_nil, ← hdropLast, hwords] at hslices
    refine List.map_injective_iff.mpr (Option.some_injective _) (hslices.trans ?_)
    rw [List.map_map]
    rfl
  have hsolid : Trivia.solid (scan text) = Trivia.solid (scan source.toList) := by
    rw [hpieces] at hgaps
    change Trivia.solid (scan (lead ++ Trivia.interleave words gaps)) = _
    rw [Trivia.solid_trivia hlead, hpieces,
      Trivia.solid_interleave (Trivia.written_of_clean hsound) hgaps]
  refine ⟨?_, _, ofChars_tokens text, ?_⟩
  · rw [isClean_iff_solid, hsolid, ← isClean_iff_solid]
    exact hclean
  · rw [hdropLast, readings_place, readings_place, hsolid]

/-- A node with a block comment before it, a blank and a line comment in it, and nothing behind
it. -/
theorem trivia_irrelevant_of_commented_node :
    let again := ofSource "/*c*/[ a\t//b\n]"
    again.isClean = true ∧ ∃ tokens, again.tokens = tokens ++ [.endAt 14] ∧
      tokens.map (fun token ↦ (token.kind, token.text)) =
        [(.symbol .leftBracket, "["), (.identifier, "a"), (.symbol .rightBracket, "]")] := by
  have hblock : ['/', '*', 'c', '*', '/'] ∈ Trivia.trivium :=
    .inr (.inr (Pattern.mem_blockComment.mpr
      ⟨['c', '*', '/'], rfl, Pattern.mem_of_commentEnd?.1 rfl⟩))
  have hline : ['/', '/', 'b', '\n'] ∈ Trivia.trivium :=
    .inr (.inl (Language.append_mem_mul
      (Pattern.mem_lineComment.mpr ⟨['b'], rfl, by simp⟩) rfl))
  have hgaps : Trivia.Separates [[' '], ['\t', '/', '/', 'b', '\n'], []] [['['], ['a'], [']']] := by
    refine ⟨rfl, ?_, by simp [isBlank], by decide⟩
    rw [List.forall_mem_cons, List.forall_mem_cons, List.forall_mem_singleton]
    exact ⟨Trivia.mem_trivia_of_trivium (Trivia.blank_mem_trivium rfl),
      Pattern.append_mem_kstar (Trivia.blank_mem_trivium rfl)
        (Trivia.mem_trivia_of_trivium hline), Language.nil_mem_kstar _⟩
  have h := @trivia_irrelevant "[a]//x" ['/', '*', 'c', '*', '/'] [['['], ['a'], [']']]
    [[' '], ['\t', '/', '/', 'b', '\n'], []] (by decide +kernel) (by decide +kernel)
    (Trivia.mem_trivia_of_trivium hblock) hgaps
  rw [show ((ofSource "[a]//x").tokens.dropLast.map fun token ↦ (token.kind, token.text)) =
    [(.symbol .leftBracket, "["), (.identifier, "a"), (.symbol .rightBracket, "]")]
    by decide +kernel] at h
  exact h

end Lexed

end CorpusQuery
