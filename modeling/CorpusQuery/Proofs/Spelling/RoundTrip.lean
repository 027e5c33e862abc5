import CorpusQuery.Outcome
import CorpusQuery.Proofs.Spelling.Lossless
import CorpusQuery.Proofs.Spelling.Rescan

/-!
Printing and parsing. The text of the usual spelling of a tree is scanned into the usual lexemes of
its wordings, with a gap between two wordings and none within one (`Lexed.printed_ofChars`), so its
tokens are a printed copy of those that the tree was read from. Where a text is parsed into a tree,
the printed tree is therefore parsed into the same tree (`Entry.print_parses`).
-/

set_option autoImplicit false
set_option relaxedAutoImplicit false

namespace CorpusQuery

open CorpusQuery.Piece

/-! ### Escapes -/

namespace Text

theorem decode_escape (c : Char) (offset : Nat) (rest : List Char) :
    decode offset (Lexeme.escape c ++ rest) =
      (decode (offset + byteLength (Lexeme.escape c)) rest).push c := by
  unfold Lexeme.escape
  split
  · subst c
    rfl
  · split
    · subst c
      rfl
    · split
      · subst c
        rfl
      · rw [List.singleton_append, decode.eq_def]
        split <;> simp_all

/-- Escaping a text and decoding it gives the text, and no escape is refused. -/
theorem decode_escaped (offset : Nat) (text : List Char) :
    decode offset (text.flatMap Lexeme.escape) = ⟨text, []⟩ := by
  induction text generalizing offset with
  | nil => rfl
  | cons c text ih =>
    rw [List.flatMap_cons, decode_escape, ih]
    rfl

end Text

namespace Lexed

theorem place_append (offset : Nat) (pieces others : List Piece) :
    place offset (pieces ++ others) = place offset pieces ++
      place (offset + Text.byteLength (pieces.flatMap Piece.text)) others := by
  induction pieces generalizing offset with
  | nil => rfl
  | cons piece pieces ih =>
    rw [List.cons_append, place, place, ih, List.flatMap_cons, Text.byteLength_append,
      ← Nat.add_assoc]
    rfl

/-! ### Tokens of lexemes -/

/-- The body of a string that was written. -/
theorem body_of_string (text : List Char) (offset : Nat) :
    (⟨offset, Lexeme.piece ⟨.stringLiteral, String.ofList text⟩⟩ : Placed).decoded =
      ⟨text, []⟩ := by
  change Text.decode (offset + 1)
    (('"' :: (String.ofList text).toList.flatMap Lexeme.escape ++ ['"']).tail.dropLast) = _
  rw [String.toList_ofList, List.cons_append, List.tail_cons, List.dropLast_concat,
    Text.decode_escaped]

/-- A written lexeme is the token of its piece. -/
theorem value_of_lexical {lexeme : Lexeme} (h : lexeme.Lexical) (offset : Nat)
    (htext : lexeme.kind.hasText = true) :
    String.ofList ((⟨offset, lexeme.piece⟩ : Placed).value lexeme.kind) = lexeme.text := by
  cases h with
  | keyword word => cases htext
  | symbol mark => cases htext
  | @digits first tail _ _ _ =>
    have hpiece : (⟨offset, (Lexeme.digits (first :: tail)).piece⟩ : Placed).piece.text =
        first :: tail := Lexeme.chars_digits _
    unfold Placed.value
    rcases Lexeme.kind_digits (first :: tail) with hkind | hkind
    all_goals
      rw [hkind, hpiece]
      rfl
  | stringLiteral text =>
    change String.ofList
      (⟨offset, Lexeme.piece ⟨.stringLiteral, String.ofList text⟩⟩ : Placed).decoded.value = _
    rw [body_of_string]
  | identifier _ _ _ => exact congrArg String.ofList String.toList_ofList
  | variableName _ _ => exact congrArg String.ofList String.toList_ofList
  | memberName _ _ => exact congrArg String.ofList String.toList_ofList

theorem text_of_lexical {lexeme : Lexeme} (h : lexeme.Lexical)
    (htext : lexeme.kind.hasText = false) : lexeme.text = "" := by
  cases h with
  | keyword word => rfl
  | symbol mark => rfl
  | digits _ _ _ =>
    rcases Lexeme.kind_digits _ with hkind | hkind <;> rw [hkind] at htext <;> cases htext
  | _ => cases htext

/-- The token of a lexeme says the lexeme. -/
theorem token?_of_lexical {lexeme : Lexeme} (h : lexeme.Lexical) (offset : Nat) :
    ∃ token, (⟨offset, lexeme.piece⟩ : Placed).token? = some token ∧ token.lexeme = lexeme ∧
      token.span = ⟨offset, offset + Text.byteLength lexeme.chars⟩ := by
  refine ⟨_, rfl, ?_, rfl⟩
  cases htext : lexeme.kind.hasText with
  | true =>
    have hvalue := value_of_lexical h offset htext
    unfold Token.lexeme
    rw [htext]
    exact congrArg (Lexeme.mk lexeme.kind) hvalue
  | false =>
    unfold Token.lexeme
    rw [htext]
    exact congrArg (Lexeme.mk lexeme.kind) (text_of_lexical h htext).symm

theorem diagnostics_of_lexical {lexeme : Lexeme} (h : lexeme.Lexical) (offset : Nat) :
    (⟨offset, lexeme.piece⟩ : Placed).diagnostics = [] := by
  cases h with
  | stringLiteral text =>
    change (⟨offset, Lexeme.piece ⟨.stringLiteral, String.ofList text⟩⟩ :
      Placed).decoded.faults.map _ = []
    rw [body_of_string]
    rfl
  | digits _ _ _ =>
    unfold Placed.diagnostics Lexeme.piece
    rcases Lexeme.kind_digits _ with hkind | hkind <;> rw [hkind]
  | _ => rfl

/-- Lexemes in a row are written without gaps. -/
theorem written_place {lexemes : List Lexeme} (h : ∀ lexeme ∈ lexemes, lexeme.Lexical)
    (offset : Nat) :
    let chunk := (place offset (lexemes.map Lexeme.piece)).filterMap Placed.token?
    Written lexemes chunk ∧ (∀ first ∈ chunk.head?, first.span.start = offset) ∧
      ∀ last ∈ chunk.getLast?,
        last.span.stop = offset + Text.byteLength (lexemes.flatMap Lexeme.chars) := by
  induction lexemes generalizing offset with
  | nil => exact ⟨⟨rfl, .nil⟩, fun _ h ↦ (by cases h), fun _ h ↦ (by cases h)⟩
  | cons lexeme lexemes ih =>
    obtain ⟨token, htoken, hlexeme, hspan⟩ := token?_of_lexical (h lexeme List.mem_cons_self) offset
    obtain ⟨hwritten, hfirst, hlast⟩ :=
      ih (fun other hother ↦ h other (List.mem_cons_of_mem _ hother))
        (offset + Text.byteLength lexeme.chars)
    have hchunk : (place offset ((lexeme :: lexemes).map Lexeme.piece)).filterMap Placed.token? =
        token :: (place (offset + Text.byteLength lexeme.chars)
          (lexemes.map Lexeme.piece)).filterMap Placed.token? := by
      rw [List.map_cons, place, List.filterMap_cons, htoken]
      rfl
    intro chunk
    simp only [chunk, hchunk]
    generalize (place (offset + Text.byteLength lexeme.chars)
      (lexemes.map Lexeme.piece)).filterMap Placed.token? = others at hwritten hfirst hlast
    refine ⟨hwritten.cons hlexeme fun next hnext ↦ ?_, ?_, ?_⟩
    · rw [Token.Touches, hspan, hfirst next hnext]
    · rintro _ ⟨⟩
      rw [hspan]
    · intro last hmem
      rw [List.flatMap_cons, Text.byteLength_append, ← Nat.add_assoc]
      cases others with
      | nil =>
        obtain rfl : lexemes = [] := hwritten.1.symm
        cases hmem
        change token.span.stop = _
        rw [hspan]
        rfl
      | cons second others => exact hlast last (by simpa using hmem)

end Lexed

/-! ### Printed wordings -/

namespace Piece

/-- A blank between two wordings. -/
def blank : Piece := ⟨.skipped, [' ']⟩

/-- The pieces of printed wordings. -/
def printed (wordings : List Wording) : List Piece :=
  [blank].intercalate (wordings.map fun wording ↦ wording.usual.map Lexeme.piece)

theorem printed_cons_cons (first second : Wording) (others : List Wording) :
    printed (first :: second :: others) =
      first.usual.map Lexeme.piece ++ blank :: printed (second :: others) := by
  simp [printed]

theorem printed_singleton (wording : Wording) :
    printed [wording] = wording.usual.map Lexeme.piece := by
  simp [printed]

end Piece

theorem Lexeme.Lexical.chars_eq {lexeme : Lexeme} (h : lexeme.Lexical) :
    ∃ first tail, lexeme.chars = first :: tail ∧ isBlank first = false := by
  cases h with
  | keyword word =>
    obtain ⟨first, tail, hchars, hfirst, -⟩ := spelling_word word
    exact ⟨first, tail, hchars, isBlank_of_letter hfirst⟩
  | symbol mark =>
    obtain ⟨first, tail, hchars⟩ := chars_symbol mark
    have hfirst := Symbol.isMarkChar_of_mem (hchars ▸ List.mem_cons_self : first ∈ mark.chars)
    simp only [Symbol.isMarkChar, Bool.and_eq_true, Bool.not_eq_true'] at hfirst
    exact ⟨first, tail, hchars, hfirst.1.1.1.1.1⟩
  | digits hfirst _ _ => exact ⟨_, _, chars_digits _, isBlank_of_digit hfirst⟩
  | stringLiteral text => exact ⟨_, _, rfl, rfl⟩
  | identifier hfirst _ _ => exact ⟨_, _, String.toList_ofList, isBlank_of_letter hfirst⟩
  | variableName _ _ => exact ⟨_, _, rfl, rfl⟩
  | memberName _ _ => exact ⟨_, _, rfl, rfl⟩

theorem Wording.Lexical.chars_eq {wording : Wording} (h : wording.Lexical) :
    ∃ first tail, wording.chars = first :: tail ∧ isBlank first = false := by
  obtain ⟨lexeme, lexemes, husual, -⟩ := wording.usual_eq_cons
  obtain ⟨first, tail, hchars, hfirst⟩ :=
    (h.lexemes lexeme (husual ▸ List.mem_cons_self)).chars_eq
  refine ⟨first, tail ++ lexemes.flatMap Lexeme.chars, ?_, hfirst⟩
  rw [chars, husual, List.flatMap_cons, hchars]
  rfl

theorem Piece.scan_blank {rest : List Char} (h : ∀ c ∈ rest.head?, isBlank c = false) :
    scan (' ' :: rest) = blank :: scan rest := by
  have hcut : cut ' ' ([] ++ rest) = (.skipped, ([] : List Char).length) := by
    unfold cut
    rw [if_pos (show isBlank ' ' = true from rfl),
      takeWhile_of_head (fun _ hc ↦ absurd hc List.not_mem_nil) h]
  exact scan_of_cut hcut

/-- Printed wordings are scanned into their usual lexemes, with a blank between two wordings. -/
theorem Piece.scan_printed {wordings : List Wording} (h : ∀ wording ∈ wordings, wording.Lexical) :
    scan ([' '].intercalate (wordings.map Wording.chars)) = printed wordings := by
  induction wordings with
  | nil =>
    rw [List.map_nil, List.intercalate_nil, scan]
    rfl
  | cons wording wordings ih =>
    have hwording := h wording List.mem_cons_self
    cases wordings with
    | nil =>
      have hscan : scan (wording.chars ++ []) = wording.usual.map Lexeme.piece ++ scan [] :=
        hwording.scan fun _ hc ↦ by cases hc
      rw [scan, List.append_nil, List.append_nil] at hscan
      rw [List.map_singleton, List.intercalate_singleton, hscan, printed_singleton]
    | cons second others =>
      obtain ⟨first, tail, hchars, hfirst⟩ := (h second (by simp)).chars_eq
      have hothers := ih fun other hother ↦ h other (List.mem_cons_of_mem _ hother)
      have hhead : ∀ c ∈ ([' '].intercalate ((second :: others).map Wording.chars)).head?,
          isBlank c = false := by
        intro c hc
        cases others <;> simp [hchars] at hc <;> rw [← hc, hfirst]
      rw [List.map_cons, List.map_cons, List.intercalate_cons_cons, ← List.map_cons,
        List.append_assoc, List.singleton_append, hwording.scan ?_, scan_blank hhead, hothers,
        printed_cons_cons]
      rintro _ ⟨⟩
      rfl

/-! ### The pieces stay apart -/

theorem Piece.coalesce_lexemes (lexemes : List Lexeme) (rest : List Piece) :
    coalesce (lexemes.map Lexeme.piece ++ rest) = lexemes.map Lexeme.piece ++ coalesce rest := by
  induction lexemes with
  | nil => rfl
  | cons lexeme lexemes ih =>
    have hjoin (pieces : List Piece) : join lexeme.piece pieces = lexeme.piece :: pieces := rfl
    rw [List.map_cons, List.cons_append, List.cons_append, ← ih, ← hjoin]
    rfl

theorem Piece.coalesce_printed (wordings : List Wording) :
    coalesce (printed wordings) = printed wordings := by
  induction wordings with
  | nil => rfl
  | cons wording wordings ih =>
    cases wordings with
    | nil =>
      have hcoalesce := coalesce_lexemes wording.usual []
      rw [List.append_nil] at hcoalesce
      rw [printed_singleton, hcoalesce]
      exact List.append_nil _
    | cons second others =>
      obtain ⟨lexeme, lexemes, husual, -⟩ := second.usual_eq_cons
      obtain ⟨pieces, hpieces⟩ : ∃ pieces, printed (second :: others) = lexeme.piece :: pieces := by
        cases others with
        | nil => exact ⟨_, by rw [printed_singleton, husual]; rfl⟩
        | cons third others => exact ⟨_, by rw [printed_cons_cons, husual]; rfl⟩
      have hjoin : join blank (lexeme.piece :: pieces) = blank :: lexeme.piece :: pieces := rfl
      rw [printed_cons_cons, coalesce_lexemes]
      change _ ++ join blank (coalesce (printed (second :: others))) = _
      rw [ih, hpieces, hjoin]

/-! ### The tokens of a printed text -/

namespace Lexed

theorem kind_of_ending {last : Token} (h : last.lexeme = .mark .endOfInput) :
    last.kind = .endOfInput := congrArg Lexeme.kind h

theorem head_of_written {wording : Wording} {chunk tokens : List Token} {offset : Nat}
    (hwritten : Written wording.usual chunk)
    (hfirst : ∀ first ∈ chunk.head?, first.span.start = offset) :
    ∀ first ∈ (chunk ++ tokens).head?, first.span.start = offset := by
  obtain ⟨lexeme, lexemes, husual, -⟩ := wording.usual_eq_cons
  rw [husual] at hwritten
  obtain ⟨token, others, rfl, -⟩ := hwritten.first
  exact hfirst

/-- The tokens of printed wordings are a printed copy, which begins where the text does. -/
theorem printed_place {wordings : List Wording} (h : ∀ wording ∈ wordings, wording.Lexical)
    (offset : Nat) {last : Token} (hlast : last.lexeme = .mark .endOfInput) :
    Printed (wordings ++ [.ending])
        ((place offset (printed wordings)).filterMap Placed.token? ++ [last]) ∧
      (wordings ≠ [] → ∀ first ∈
        ((place offset (printed wordings)).filterMap Placed.token? ++ [last]).head?,
          first.span.start = offset) := by
  induction wordings generalizing offset with
  | nil =>
    have hwritten : Written Wording.ending.usual [last] :=
      ⟨congrArg (fun lexeme ↦ [lexeme]) hlast, .singleton _⟩
    have hgap : Apart [last] [] := fun _ _ _ hnext ↦ by cases hnext
    have hprinted : Printed [.ending] ([last] ++ []) := .cons hwritten hgap .nil
    exact ⟨hprinted, absurd rfl⟩
  | cons wording wordings ih =>
    have hothers : ∀ other ∈ wordings, other.Lexical :=
      fun other hother ↦ h other (List.mem_cons_of_mem _ hother)
    obtain ⟨hwritten, hfirst, hstop⟩ := written_place (h wording List.mem_cons_self).lexemes offset
    cases wordings with
    | nil =>
      obtain ⟨hprinted, -⟩ := ih hothers offset
      rw [printed_singleton]
      refine ⟨.cons hwritten ?_ hprinted, fun _ ↦ head_of_written hwritten hfirst⟩
      rintro token - _ ⟨⟩ hend
      exact absurd (kind_of_ending hlast) hend
    | cons second others =>
      obtain ⟨hprinted, hstart⟩ :=
        ih hothers (offset + Text.byteLength wording.chars + Text.byteLength [' '])
      have hplace : (place offset (printed (wording :: second :: others))).filterMap Placed.token? =
          (place offset (wording.usual.map Lexeme.piece)).filterMap Placed.token? ++
            (place (offset + Text.byteLength wording.chars + Text.byteLength [' '])
              (printed (second :: others))).filterMap Placed.token? := by
        have htext : (wording.usual.map Lexeme.piece).flatMap Piece.text = wording.chars := by
          rw [List.flatMap_map]
          rfl
        rw [printed_cons_cons, place_append, List.filterMap_append, htext]
        rfl
      rw [hplace, List.append_assoc]
      refine ⟨.cons hwritten ?_ hprinted, fun _ ↦ head_of_written hwritten hfirst⟩
      rintro token htoken next hnext - htouch
      have hgap := hstart nofun next hnext
      rw [Token.Touches, hstop token htoken, hgap] at htouch
      change _ = offset + Text.byteLength wording.chars + 1 at htouch
      exact absurd htouch (Nat.ne_of_lt (Nat.lt_succ_self _))

theorem diagnostics_place {pieces : List Piece} (offset : Nat)
    (h : ∀ piece ∈ pieces, ∀ offset, (⟨offset, piece⟩ : Placed).diagnostics = []) :
    (place offset pieces).flatMap Placed.diagnostics = [] := by
  induction pieces generalizing offset with
  | nil => rfl
  | cons piece pieces ih =>
    rw [place, List.flatMap_cons, h piece List.mem_cons_self offset,
      ih _ fun other hother ↦ h other (List.mem_cons_of_mem _ hother)]
    rfl

theorem diagnostics_printed {wordings : List Wording} (h : ∀ wording ∈ wordings, wording.Lexical) :
    ∀ piece ∈ printed wordings, ∀ offset, (⟨offset, piece⟩ : Placed).diagnostics = [] := by
  have hlexemes {wording : Wording} (hwording : wording.Lexical) :
      ∀ piece ∈ wording.usual.map Lexeme.piece, ∀ offset,
        (⟨offset, piece⟩ : Placed).diagnostics = [] := by
    intro piece hpiece offset
    obtain ⟨lexeme, hlexeme, rfl⟩ := List.mem_map.mp hpiece
    exact diagnostics_of_lexical (hwording.lexemes lexeme hlexeme) offset
  induction wordings with
  | nil => exact fun _ h ↦ absurd h List.not_mem_nil
  | cons wording wordings ih =>
    have hwording := hlexemes (h wording List.mem_cons_self)
    cases wordings with
    | nil =>
      rw [printed_singleton]
      exact hwording
    | cons second others =>
      have hothers := ih fun other hother ↦ h other (List.mem_cons_of_mem _ hother)
      rw [printed_cons_cons]
      intro piece hpiece
      rcases List.mem_append.mp hpiece with hpiece | hpiece
      · exact hwording piece hpiece
      · rcases List.mem_cons.mp hpiece with rfl | hpiece
        · exact fun _ ↦ rfl
        · exact hothers piece hpiece

/-- The text of printed wordings has no fault, and its tokens are a printed copy. -/
theorem printed_ofChars {wordings : List Wording} (h : ∀ wording ∈ wordings, wording.Lexical) :
    let lexed := ofChars ([' '].intercalate (wordings.map Wording.chars))
    lexed.isClean = true ∧ Printed (wordings ++ [.ending]) lexed.tokens := by
  intro lexed
  have hpieces : coalesce (scan ([' '].intercalate (wordings.map Wording.chars))) =
      printed wordings := by
    rw [scan_printed h, coalesce_printed]
  refine ⟨?_, ?_⟩
  · simp only [lexed, isClean, ofChars, hpieces,
      diagnostics_place 0 (diagnostics_printed h), List.isEmpty_nil]
  · simp only [lexed, ofChars, hpieces]
    exact (printed_place h 0 rfl).1

end Lexed

/-! ### Wordings that were read -/

/-- What spells a wording shows that a text can hold the wording. -/
theorem Spells.lexical {wordings : List Wording} {tokens : List Token} (h : Spells wordings tokens)
    (htokens : ∀ token ∈ tokens, token.lexeme.Lexical) :
    ∀ wording ∈ wordings, ∀ lexeme ∈ wording.usual, lexeme.Lexical := by
  induction h with
  | nil => exact fun _ h ↦ absurd h List.not_mem_nil
  | @cons wording wordings way chunk tokens hway hchunk _ ih =>
    have hlexical : ∀ lexeme ∈ way, lexeme.Lexical := by
      intro lexeme hlexeme
      rw [← hchunk.1] at hlexeme
      obtain ⟨token, htoken, rfl⟩ := List.mem_map.mp hlexeme
      exact htokens token (List.mem_append_left _ htoken)
    intro other hother
    rcases List.mem_cons.mp hother with rfl | hother
    · cases other with
      | choice synonym =>
        intro lexeme hlexeme
        obtain rfl := List.mem_singleton.mp hlexeme
        cases synonym <;> exact .keyword _
      | argument numeral =>
        by_cases hnegative : numeral.isNegative = true
        · rw [Wording.ways, if_pos hnegative] at hway
          exact List.mem_singleton.mp hway ▸ hlexical
        · rw [Wording.ways, if_neg hnegative] at hway
          rcases List.mem_pair.mp hway with rfl | rfl
          · exact hlexical
          · rw [Wording.usual, if_neg hnegative]
            exact fun lexeme hlexeme ↦ hlexical lexeme (List.mem_cons_of_mem _ hlexeme)
      | lexeme kind text => exact List.mem_singleton.mp hway ▸ hlexical
      | pair first second => exact List.mem_singleton.mp hway ▸ hlexical
      | number numeral => exact List.mem_singleton.mp hway ▸ hlexical
    · exact ih (fun token htoken ↦ htokens token (List.mem_append_right _ htoken)) other hother

namespace Entry

/-- A tree comes from the tokens of the text. -/
theorem outcome_of_phrase? {entry : Entry} {limit : Nat} {text : String}
    {phrase : Phrase entry.category} (h : (entry.ofText limit text).phrase? = some phrase) :
    (entry.parse limit (Lexed.ofSource text).tokens).outcome = .ok phrase := by
  unfold ofText at h
  simp only at h
  split at h
  · split at h
    · cases h
      assumption
    · cases h
  · cases h

/-- Where a text is parsed into a tree, the text of the tree is parsed into the same tree. -/
theorem print_parses (entry : Entry) (limit : Nat) (text : String) {phrase : Phrase entry.category}
    (h : (entry.ofText limit text).phrase? = some phrase) :
    ∃ copy, (entry.ofText limit phrase.print).isOk = true ∧
      (entry.ofText limit phrase.print).phrase? = some copy ∧ phrase.same copy = true := by
  have houtcome := outcome_of_phrase? h
  have hclosing := Lexed.closing_ofSource text
  obtain ⟨-, hplain, hcopies⟩ := mirrored_of_outcome hclosing houtcome
  have hlexical : ∀ wording ∈ phrase.wordings, wording.Lexical := by
    refine fun wording hwording ↦ ⟨?_, ?_⟩
    · exact (spells_of_outcome hclosing houtcome).lexical (fun _ ↦ Lexed.lexical_of_mem) wording
        hwording
    · rintro first second rfl
      exact hplain.pairs first second (List.mem_append_left _ hwording)
  obtain ⟨hclean, hprinted⟩ := Lexed.printed_ofChars hlexical
  have hsource : Lexed.ofSource phrase.print =
      Lexed.ofChars ([' '].intercalate (phrase.wordings.map Wording.chars)) := by
    rw [Lexed.ofSource, Phrase.print, String.toList_ofList]
  rw [← hsource] at hclean hprinted
  obtain ⟨copy, hcopy, hsame⟩ := hcopies _ (Lexed.closing_ofSource _) hprinted
  have hresult : entry.ofText limit phrase.print = ⟨some copy, []⟩ := by
    simp only [ofText, hclean, hcopy, if_true]
  rw [hresult]
  exact ⟨copy, rfl, rfl, hsame⟩

/-- The text of a lane with a string, an edge, an argument with a sign and several synonyms is read
as the same tree when it is printed. -/
theorem print_parses_of_lane :
    let text := "find lane a [f(+1,-2.5),x!=\"\\t\"] <-- [b||!c]"
    ∃ phrase copy, (Entry.payload.ofText 64 text).phrase? = some phrase ∧
      (Entry.payload.ofText 64 phrase.print).isOk = true ∧
        (Entry.payload.ofText 64 phrase.print).phrase? = some copy ∧ phrase.same copy = true := by
  intro text
  have hparsed : (Entry.payload.ofText 64 text).phrase?.isSome = true := by
    decide +kernel
  obtain ⟨phrase, hphrase⟩ := Option.isSome_iff_exists.mp hparsed
  obtain ⟨copy, hcopy⟩ := print_parses .payload 64 text hphrase
  exact ⟨phrase, copy, hphrase, hcopy⟩

end Entry

end CorpusQuery
