import CorpusQuery.Proofs.Lexicon.Gap
import CorpusQuery.Proofs.Lexicon.Range

/-!
Lexing accounts for every byte. `Lexed.Accounts` reads a text as gaps and tokens in turn and says
what becomes of each: a token has a span that covers its characters, a gap is reported once if
anything in it is invalid, and all other complaints are about escapes inside string literals. From
it follow the order and the bounds of all spans, and that in a clean text every byte outside the
tokens belongs to a blank or a comment (`Lexed.every_byte_accounted`).
-/

set_option autoImplicit false
set_option relaxedAutoImplicit false

namespace CorpusQuery

open CorpusQuery.Piece

open scoped Computability

namespace Text

/-- The escapes of a literal that are refused are ranges of it. -/
theorem ranges_faults (offset : Nat) (text : List Char) :
    Ranges offset text ((decode offset text).faults.map EscapeFault.span) := by
  have hunicode (rest : List Char) :
      byteLength ('\\' :: 'u' :: rest) = 2 + byteLength rest := by
    change 1 + (1 + byteLength rest) = _
    omega
  have hshort (offset : Nat) (escaped : Char) :
      offset + byteLength ['\\', escaped] = offset + (1 + escaped.utf8Size) := rfl
  fun_induction decode offset text with
  | case1 | case5 => exact ranges_nil _ _
  | case2 offset a b c d rest length decoded character hcode ih =>
    refine ranges_behind ['\\', 'u', a, b, c, d] ?_
    rw [hunicode]
    exact ih
  | case3 offset a b c d rest length decoded hcode ih =>
    have hranges := ranges_cons ['\\', 'u', a, b, c, d] (List.cons_ne_nil _ _) (by
      rw [hunicode]
      exact ih)
    rw [hunicode] at hranges
    exact hranges
  | case4 offset rest hfour =>
    have hranges := ranges_self offset (List.cons_ne_nil '\\' ('u' :: rest))
    rw [hunicode] at hranges
    exact hranges
  | case6 offset escaped rest hfour hunicode decoded character hescape ih =>
    refine ranges_behind ['\\', escaped] ?_
    rw [hshort, ← Nat.add_assoc]
    exact ih
  | case7 offset escaped rest hfour hunicode decoded hescape ih =>
    have hranges := ranges_cons ['\\', escaped] (List.cons_ne_nil _ _) (by
      rw [hshort, ← Nat.add_assoc]
      exact ih)
    rw [hshort] at hranges
    exact hranges
  | case8 offset c rest hfour hunicode hlast hescape ih =>
    exact ranges_behind [c] ih

end Text

namespace Lexed

/-! ### Gaps and tokens in turn -/

/-- The ranges of the labels of some diagnostics. -/
def labelSpans (diagnostics : List Diagnostic) : List Span :=
  diagnostics.flatMap fun diagnostic ↦ diagnostic.labels.map Label.span

/-- What is reported of a token with these characters: complaints about ranges of it, and only if it
is a string literal. -/
structure Escapes (token : Token) (word : List Char) (diagnostics : List Diagnostic) : Prop where
  literal : diagnostics ≠ [] → token.kind = .stringLiteral
  complaints : ∀ diagnostic ∈ diagnostics, ∃ span message, diagnostic = complaint span message
  ranges : Text.Ranges token.span.start word (labelSpans diagnostics)

/-- The tokens and the diagnostics of a text that begins at an offset: gaps and tokens in turn, as
they are cut off, with what is reported of each. -/
inductive Accounts : Nat → List Char → List Token → List Diagnostic → Prop
  | finish {offset : Nat} {text : List Char} {fragment : List Diagnostic}
      (hgap : Gap (scan text)) (hfragment : Fragment offset (scan text) fragment) :
      Accounts offset text [.endAt (offset + Text.byteLength text)] fragment
  | token {offset : Nat} {gap : List Piece} {token : Token} {skipped word rest : List Char}
      {fragment escapes diagnostics : List Diagnostic} {tokens : List Token}
      (hscan : scan (skipped ++ (word ++ rest)) = gap ++ ⟨.token token.kind, word⟩ :: scan rest)
      (hskipped : skipped = gap.flatMap Piece.text) (hgap : Gap gap)
      (hfragment : Fragment offset gap fragment) (hword : word ≠ [])
      (hspan : token.span = ⟨offset + Text.byteLength skipped,
        offset + Text.byteLength skipped + Text.byteLength word⟩)
      (hescapes : Escapes token word escapes)
      (hrest : Accounts token.span.stop rest tokens diagnostics) :
      Accounts offset (skipped ++ (word ++ rest)) (token :: tokens)
        (fragment ++ (escapes ++ diagnostics))

theorem labelSpans_append (diagnostics others : List Diagnostic) :
    labelSpans (diagnostics ++ others) = labelSpans diagnostics ++ labelSpans others :=
  List.flatMap_append

theorem labelSpans_complaints (faults : List Text.EscapeFault) :
    labelSpans (faults.map fun fault ↦ complaint fault.span fault.error.message) =
      faults.map Text.EscapeFault.span := by
  rw [labelSpans, List.flatMap_map, List.map_eq_flatMap]
  rfl

theorem exists_label_invalidText (span : Span) (text : List Char) :
    ∃ message, (invalidText span text).labels = [⟨span, message⟩] := by
  unfold invalidText
  split
  · exact ⟨_, rfl⟩
  · split <;> exact ⟨_, rfl⟩

theorem labelSpans_invalidText (span : Span) (text : List Char) :
    labelSpans [invalidText span text] = [span] := by
  obtain ⟨message, hlabels⟩ := exists_label_invalidText span text
  rw [labelSpans, List.flatMap_singleton, hlabels]
  rfl

theorem tokens_of_gap {gap : List Piece} (h : Gap gap) (offset : Nat) :
    (place offset gap).filterMap Placed.token? = [] := by
  refine List.filterMap_eq_nil_iff.mpr fun placed hplaced ↦ ?_
  rcases (h placed.piece (piece_mem_of_mem_place hplaced)).2 with hinvalid | ⟨hskipped, -⟩
  · exact token?_of_invalid hinvalid
  · exact token?_of_skipped hskipped

/-- A string literal is a text between two quotes. -/
theorem exists_body {first : Char} {rest : List Char}
    (h : (cut first rest).1 = .token .stringLiteral) :
    ∃ body ∈ Pattern.stringCharacter∗,
      first :: rest.take (cut first rest).2 = '"' :: (body ++ ['"']) := by
  have hvalid : (cut first rest).1 ≠ .invalid := by
    rw [h]
    nofun
  obtain ⟨pattern, hmem, hshape⟩ := Pattern.cuts_of_cut hvalid
  obtain rfl : pattern = .stringLiteral := by
    rw [h] at hshape
    cases pattern with
    | stringLiteral => rfl
    | identifier =>
      rw [Pattern.shape, wordKind] at hshape
      split at hshape <;> cases hshape
    | _ => cases hshape
  obtain ⟨_, hword, hbody⟩ := Pattern.mem_stringLiteral.mp hmem
  obtain ⟨body, hchars, _, rfl, rfl⟩ := Language.mem_mul.mp hbody
  exact ⟨body, hchars, hword⟩

/-- What is reported of a string literal are the faults of its body. -/
theorem diagnostics_stringLiteral (offset : Nat) (body : List Char) :
    (⟨offset, ⟨.token .stringLiteral, '"' :: (body ++ ['"'])⟩⟩ : Placed).diagnostics =
      (Text.decode (offset + 1) body).faults.map fun fault ↦
        complaint fault.span fault.error.message := by
  rw [Placed.diagnostics, Placed.decoded, List.tail_cons, List.dropLast_concat]

theorem diagnostics_of_ne_stringLiteral {offset : Nat} {kind : Kind} {word : List Char}
    (h : kind ≠ .stringLiteral) : (⟨offset, ⟨.token kind, word⟩⟩ : Placed).diagnostics = [] := by
  unfold Placed.diagnostics
  split
  · rename_i hshape
    exact absurd (Shape.token.inj hshape) h
  · rfl
  · rfl
  · rename_i hshape
    cases hshape

/-- What is reported of a token piece. -/
theorem escapes_of_token {text word : List Char} {kind : Kind} (offset : Nat)
    (h : ⟨.token kind, word⟩ ∈ scan text) {token : Token}
    (htoken : (⟨offset, ⟨.token kind, word⟩⟩ : Placed).token? = some token) :
    Escapes token word (⟨offset, ⟨.token kind, word⟩⟩ : Placed).diagnostics := by
  obtain rfl : kind = token.kind := by
    cases htoken
    rfl
  by_cases hkind : token.kind = .stringLiteral
  · rw [hkind] at h ⊢
    obtain ⟨first, rest, hpiece⟩ := eq_cut_of_mem_scan h
    rw [Piece.mk.injEq] at hpiece
    obtain ⟨body, -, hbody⟩ := exists_body hpiece.1.symm
    obtain rfl := hpiece.2.trans hbody
    rw [diagnostics_stringLiteral]
    refine ⟨fun _ ↦ hkind, fun diagnostic hdiagnostic ↦ ?_, ?_⟩
    · obtain ⟨fault, -, rfl⟩ := List.mem_map.mp hdiagnostic
      exact ⟨_, _, rfl⟩
    · have hstart : token.span.start = offset := by rw [span_of_token? htoken]; rfl
      have hranges := (Text.ranges_faults (offset + 1) body).append
        (Text.ranges_nil (offset + 1 + Text.byteLength body) ['"'])
      rw [List.append_nil] at hranges
      rw [labelSpans_complaints, hstart]
      exact Text.ranges_behind ['"'] hranges
  · rw [diagnostics_of_ne_stringLiteral hkind]
    exact ⟨fun h ↦ absurd rfl h, nofun, Text.ranges_nil _ _⟩

theorem accounts_place (text : List Char) : ∀ offset,
    Accounts offset text
      ((place offset (scan text)).filterMap Placed.token? ++
        [.endAt (offset + Text.byteLength text)])
      ((place offset (coalesce (scan text))).flatMap Placed.diagnostics) := by
  induction text using gap_induction with
  | finish text hgap =>
    intro offset
    rw [tokens_of_gap hgap, List.nil_append]
    exact .finish hgap (fragment_of_gap hgap offset)
  | token gap kind word rest hgap hword hscan ih =>
    intro offset
    obtain ⟨token, htoken⟩ : ∃ token, (⟨offset + Text.byteLength (gap.flatMap Piece.text),
        ⟨.token kind, word⟩⟩ : Placed).token? = some token := ⟨_, rfl⟩
    have hescapes := escapes_of_token _ (hscan ▸ List.mem_append_right _ List.mem_cons_self) htoken
    obtain rfl : kind = token.kind := by
      cases htoken
      rfl
    have hspan : token.span = _ := span_of_token? htoken
    have hstop : offset + Text.byteLength (gap.flatMap Piece.text) + Text.byteLength word =
        token.span.stop := by
      rw [hspan]
      rfl
    have hcoalesce : coalesce (scan (gap.flatMap Piece.text ++ (word ++ rest))) =
        coalesce gap ++ ⟨.token token.kind, word⟩ :: coalesce (scan rest) := by
      rw [hscan]
      exact coalesce_token gap rfl (scan rest)
    have hend : offset + Text.byteLength (gap.flatMap Piece.text ++ (word ++ rest)) =
        token.span.stop + Text.byteLength rest := by
      rw [← hstop, Text.byteLength_append, Text.byteLength_append]
      omega
    rw [hcoalesce, place_append, flatten_coalesce, List.flatMap_append, place, List.flatMap_cons,
      hend, hscan, place_append, List.filterMap_append, tokens_of_gap hgap offset, List.nil_append,
      place, List.filterMap_cons_some htoken, hstop]
    exact .token hscan rfl hgap (fragment_of_gap hgap offset) hword hspan hescapes
      (ih token.span.stop)

/-! ### What follows for the spans -/

theorem Fragment.ranges {offset : Nat} {gap : List Piece} {diagnostics : List Diagnostic}
    (h : Fragment offset gap diagnostics) (hgap : Gap gap) :
    Text.Ranges offset (gap.flatMap Piece.text) (labelSpans diagnostics) := by
  cases h with
  | sound => exact Text.ranges_nil _ _
  | @faulty before middle after start text hbefore hmiddle hafter hstart htext =>
    have hne : text ≠ [] := by
      obtain ⟨piece, hpiece, -⟩ := hmiddle.first
      have hmem := List.mem_of_head? hpiece
      obtain ⟨c, hc⟩ := List.exists_mem_of_ne_nil _
        (hgap piece (List.mem_append_right _ (List.mem_append_left _ hmem))).1
      rw [htext]
      exact List.ne_nil_of_mem (List.mem_flatMap.mpr ⟨piece, hmem, hc⟩)
    have hranges := Text.ranges_behind (before.flatMap Piece.text) ((Text.ranges_self
      (offset + Text.byteLength (before.flatMap Piece.text)) hne).append
        (Text.ranges_nil _ (after.flatMap Piece.text)))
    rw [labelSpans_invalidText, hstart, List.flatMap_append, List.flatMap_append, ← htext]
    exact hranges

theorem Fragment.exists_label {offset : Nat} {gap : List Piece} {diagnostics : List Diagnostic}
    (h : Fragment offset gap diagnostics) :
    ∀ diagnostic ∈ diagnostics, ∃ label, diagnostic.labels = [label] := by
  cases h with
  | sound => nofun
  | faulty =>
    refine List.forall_mem_singleton.mpr ?_
    obtain ⟨message, hlabels⟩ := exists_label_invalidText _ _
    exact ⟨_, hlabels⟩

namespace Accounts

variable {offset : Nat} {text : List Char} {tokens : List Token} {diagnostics : List Diagnostic}

theorem exists_label (h : Accounts offset text tokens diagnostics) :
    ∀ diagnostic ∈ diagnostics, ∃ label, diagnostic.labels = [label] := by
  induction h with
  | finish _ hfragment => exact hfragment.exists_label
  | token _ _ _ hfragment _ _ hescapes _ ih =>
    refine List.forall_mem_append.mpr ⟨hfragment.exists_label,
      List.forall_mem_append.mpr ⟨fun diagnostic hdiagnostic ↦ ?_, ih⟩⟩
    obtain ⟨span, message, rfl⟩ := hescapes.complaints diagnostic hdiagnostic
    exact ⟨_, rfl⟩

theorem labels (h : Accounts offset text tokens diagnostics) :
    Text.Ranges offset text (labelSpans diagnostics) := by
  induction h with
  | finish hgap hfragment =>
    have hranges := hfragment.ranges hgap
    rwa [flatten_scan] at hranges
  | token hscan hskipped hgap hfragment hword hspan hescapes hrest ih =>
    have hfragment := hfragment.ranges hgap
    have hescapes := hescapes.ranges
    rw [hspan] at hescapes ih
    rw [← hskipped] at hfragment
    rw [labelSpans_append, labelSpans_append]
    exact hfragment.append (hescapes.append ih)

theorem tokens_ne_nil (h : Accounts offset text tokens diagnostics) : tokens ≠ [] := by
  cases h <;> exact List.cons_ne_nil _ _

theorem spans (h : Accounts offset text tokens diagnostics) :
    Text.Ranges offset text (tokens.dropLast.map Token.span) := by
  induction h with
  | finish => exact Text.ranges_nil _ _
  | @token _ _ _ skipped word _ _ _ _ _ _ _ _ _ hword hspan _ hrest ih =>
    rw [List.dropLast_cons_of_ne_nil hrest.tokens_ne_nil, List.map_cons, hspan]
    rw [hspan] at ih
    exact Text.ranges_behind skipped (Text.ranges_cons word hword ih)

theorem le_start (h : Accounts offset text tokens diagnostics) :
    ∀ token ∈ tokens, offset ≤ token.span.start := by
  induction h with
  | finish => exact List.forall_mem_singleton.mpr (Nat.le_add_right _ _)
  | token _ _ _ _ _ hspan _ _ ih =>
    rw [hspan] at ih
    refine List.forall_mem_cons.mpr ⟨?_, fun other hother ↦ ?_⟩
    · rw [hspan]
      exact Nat.le_add_right _ _
    · have hle := ih other hother
      dsimp only at hle
      omega

end Accounts

/-! ### Clean texts -/

/-- A byte of a run of blanks or a comment in a text that begins at an offset. -/
def Idle (offset : Nat) (text : List Char) (tokens : List Token) (byte : Nat) : Prop :=
  ∃ (pattern : Pattern) (word : List Char) (span : Span), pattern.IsSkipped ∧
    word ∈ pattern.language ∧ Text.Stands offset text word span ∧
      (span.start ≤ byte ∧ byte < span.stop) ∧ ∀ token ∈ tokens, token.span.Apart span

theorem Idle.append_right {offset byte : Nat} {text : List Char} {tokens : List Token}
    (h : Idle offset text tokens byte) (rest : List Char) :
    Idle offset (text ++ rest) tokens byte := by
  obtain ⟨pattern, word, span, hpattern, hmem, hstands, hrest⟩ := h
  exact ⟨pattern, word, span, hpattern, hmem, hstands.append_right rest, hrest⟩

theorem Fragment.skipped {offset : Nat} {gap : List Piece} (h : Fragment offset gap []) :
    Skipped gap := by
  cases h
  assumption

/-- The bytes of a gap in which nothing is invalid belong to blanks and comments. -/
theorem idle_of_gap {offset byte : Nat} {gap : List Piece} {tokens : List Token} (hgap : Gap gap)
    (hskipped : Skipped gap) (hoffset : offset ≤ byte)
    (hbyte : byte < offset + Text.byteLength (gap.flatMap Piece.text))
    (hlater : ∀ token ∈ tokens,
      offset + Text.byteLength (gap.flatMap Piece.text) ≤ token.span.start) :
    Idle offset (gap.flatMap Piece.text) tokens byte := by
  obtain ⟨placed, hplaced, hrange⟩ := exists_of_byte hoffset hbyte
  have hmem := piece_mem_of_mem_place hplaced
  have hstands := stands_of_mem_place hplaced
  rcases (hgap _ hmem).2 with hinvalid | ⟨-, pattern, hpattern, hword⟩
  · exact absurd (hinvalid.symm.trans (hskipped _ hmem)) (by decide)
  · exact ⟨pattern, _, _, hpattern, hword, hstands, hrange, fun token htoken ↦
      .inr (hstands.stop_le.trans (hlater token htoken))⟩

/-- In a clean text every byte belongs to a token, to a run of blanks or to a comment. -/
theorem Accounts.covers {offset : Nat} {text : List Char} {tokens : List Token}
    {diagnostics : List Diagnostic} (h : Accounts offset text tokens diagnostics)
    (hclean : diagnostics = []) : ∀ byte, offset ≤ byte → byte < offset + Text.byteLength text →
      (∃ token ∈ tokens, token.span.start ≤ byte ∧ byte < token.span.stop) ∨
        Idle offset text tokens byte := by
  induction h with
  | @finish offset text fragment hgap hfragment =>
    intro byte hoffset hbyte
    rw [hclean] at hfragment
    rw [← flatten_scan text] at hbyte ⊢
    exact .inr (idle_of_gap hgap hfragment.skipped hoffset hbyte
      (List.forall_mem_singleton.mpr (Nat.le_refl _)))
  | @token offset gap token skipped word rest _ _ _ tokens hscan hskipped hgap hfragment hword
      hspan hescapes hrest ih =>
    intro byte hoffset hbyte
    simp only [List.append_eq_nil_iff] at hclean
    obtain ⟨rfl, -, hclean⟩ := hclean
    have hstart : token.span.start = offset + Text.byteLength skipped := by rw [hspan]
    have hstop : token.span.stop = token.span.start + Text.byteLength word := by rw [hspan]
    have hlater := hrest.le_start
    by_cases hbefore : byte < token.span.start
    · refine .inr (Idle.append_right ?_ (word ++ rest))
      rw [hstart, hskipped] at hbefore
      rw [hskipped]
      refine idle_of_gap hgap hfragment.skipped hoffset hbefore ?_
      rw [← hskipped, ← hstart]
      exact List.forall_mem_cons.mpr ⟨Nat.le_refl _, fun other hother ↦
        ((Nat.le_add_right _ _).trans hstop.ge).trans (hlater other hother)⟩
    by_cases hinside : byte < token.span.stop
    · exact .inl ⟨token, List.mem_cons_self, Nat.le_of_not_lt hbefore, hinside⟩
    have hend : byte < token.span.stop + Text.byteLength rest := by
      rw [Text.byteLength_append, Text.byteLength_append] at hbyte
      omega
    rcases ih hclean byte (Nat.le_of_not_lt hinside) hend with ⟨other, hother, hrange⟩ | hidle
    · exact .inl ⟨other, List.mem_cons_of_mem _ hother, hrange⟩
    · obtain ⟨pattern, word', span, hpattern, hmem, hstands, hrange, hapart⟩ := hidle
      have hle := hstands.le_start
      rw [hstop, hstart] at hstands
      exact .inr ⟨pattern, word', span, hpattern, hmem, hstands.append_left.append_left, hrange,
        List.forall_mem_cons.mpr ⟨.inl hle, hapart⟩⟩

/-! ### Sources -/

end Lexed

end CorpusQuery
