import CorpusQuery.Proofs.Lexicon.Account

/-!
Strings that are not closed. A text opens a string and does not close it if it begins with a quote
and with no string literal (`Pattern.Unclosed`); such a piece is invalid, and invalid pieces of one
gap are reported together, by how the first of them begins. So an open string is reported as one
exactly if nothing else in its gap is invalid before it, and nothing else is reported as an open
string (`Lexed.open_strings`).
-/

set_option autoImplicit false
set_option relaxedAutoImplicit false

namespace CorpusQuery

open CorpusQuery.Piece

/-! ### Open strings -/

/-- A text that begins with a quote but with no string literal. -/
structure Pattern.Unclosed (text : List Char) : Prop where
  quote : text.head? = some '"'
  unmatched : ∀ word ∈ Pattern.stringLiteral.language, ¬ word <+: text

namespace Piece

/-- Something invalid stands behind the last token of these pieces. -/
def Marred (pieces : List Piece) : Prop :=
  ∃ front gap, pieces = front ++ gap ∧ (∀ piece ∈ gap, ∀ kind, piece.shape ≠ .token kind) ∧
    ∃ piece ∈ gap, piece.shape = .invalid

/-- An invalid piece that begins with a quote. -/
def OpensString (piece : Piece) : Prop := piece.shape = .invalid ∧ piece.text.head? = some '"'

theorem invalid_iff_unclosed (rest : List Char) :
    (cut '"' rest).1 = .invalid ↔ Pattern.Unclosed ('"' :: rest) := by
  refine ⟨fun hinvalid ↦ ⟨rfl, fun word hword hprefix ↦ ?_⟩, fun h ↦ ?_⟩
  · obtain ⟨body, rfl, hbody⟩ := Pattern.mem_stringLiteral.mp hword
    obtain ⟨more, rfl⟩ := (List.cons_prefix_cons.mp hprefix).2
    rw [Pattern.cut_stringLiteral hbody] at hinvalid
    cases hinvalid
  · refine Classical.byContradiction fun hvalid ↦ ?_
    obtain ⟨pattern, hmem, -⟩ := Pattern.cuts_of_cut hvalid
    obtain rfl : .stringLiteral = pattern := by
      obtain ⟨_, _, ⟨⟩, hpattern⟩ := Pattern.ofCut?_of_mem hmem
      exact Option.some.inj hpattern
    exact h.unmatched _ hmem (List.cons_prefix_cons.mpr ⟨rfl, List.take_prefix _ _⟩)

/-- The pieces that open a string and are invalid are those before which the text does so and does
not close it. -/
theorem opensString_iff {text : List Char} {before after : List Piece} {piece : Piece}
    (h : scan text = before ++ piece :: after) :
    piece.OpensString ↔ Pattern.Unclosed (piece.text ++ after.flatMap Piece.text) := by
  have hscan := scan_suffix h
  rw [List.flatMap_cons] at hscan
  cases hrest : piece.text ++ after.flatMap Piece.text with
  | nil =>
    rw [hrest, scan] at hscan
    cases hscan
  | cons first rest =>
    rw [hrest, scan] at hscan
    obtain ⟨rfl, -⟩ := List.cons.inj hscan
    constructor
    · rintro ⟨hinvalid, hquote⟩
      obtain rfl := Option.some.inj hquote
      exact (invalid_iff_unclosed rest).mp hinvalid
    · intro hunclosed
      obtain rfl := Option.some.inj hunclosed.quote
      exact ⟨(invalid_iff_unclosed rest).mpr hunclosed, rfl⟩

/-! ### Gaps -/

/-- What stands before a token does not matter behind it. -/
theorem marred_behind_token {before pieces : List Piece} {token : Piece} {kind : Kind}
    (hkind : token.shape = .token kind) :
    Marred (before ++ token :: pieces) ↔ Marred pieces := by
  constructor
  · rintro ⟨front, gap, hsplit, hgap, hinvalid⟩
    rcases List.append_eq_append_iff.mp hsplit with ⟨more, -, htoken⟩ | ⟨more, -, rfl⟩
    · cases more with
      | nil =>
        have hmem : token ∈ [] ++ gap := htoken ▸ List.mem_cons_self
        exact absurd hkind (hgap token hmem kind)
      | cons _ more =>
        obtain ⟨-, rfl⟩ := List.cons.inj htoken
        exact ⟨more, gap, rfl, hgap, hinvalid⟩
    · exact absurd hkind (hgap token (List.mem_append_right _ List.mem_cons_self) kind)
  · rintro ⟨front, gap, rfl, hgap, hinvalid⟩
    exact ⟨before ++ token :: front, gap, by rw [List.append_assoc, List.cons_append], hgap,
      hinvalid⟩

end Piece

namespace Lexed

/-- A diagnostic that reports an open string which begins at an offset. -/
structure ReportsOpen (diagnostic : Diagnostic) (start : Nat) : Prop where
  message : diagnostic.message = "unclosed string literal"
  label : ∃ label ∈ diagnostic.labels, label.span.start = start

/-- An open string of some pieces that begin at an offset, with nothing invalid before it in its
gap. -/
def Opens (offset : Nat) (pieces : List Piece) (start : Nat) : Prop :=
  ∃ before piece after, pieces = before ++ piece :: after ∧ piece.OpensString ∧ ¬ Marred before ∧
    start = offset + Text.byteLength (before.flatMap Piece.text)

theorem invalid_message_ne (rest : String) : "invalid " ++ rest ≠ "unclosed string literal" := by
  intro h
  have hhead := congrArg (fun text ↦ text.toList.head?) h
  simp [String.toList_append] at hhead

/-- An invalid stretch is reported as an open string if it begins with a quote. -/
theorem reportsOpen_invalidText {span : Span} {text : List Char} {start : Nat} :
    ReportsOpen (invalidText span text) start ↔ text.head? = some '"' ∧ span.start = start := by
  have hchars (message : String) : ¬ ReportsOpen (complaint span ("invalid " ++ message)) start :=
    fun h ↦ invalid_message_ne message h.message
  unfold invalidText
  split
  · rename_i hquote
    refine ⟨fun ⟨_, label, hlabel, hstart⟩ ↦ ?_, fun ⟨_, hstart⟩ ↦
      ⟨rfl, _, List.mem_cons_self, hstart⟩⟩
    obtain rfl := List.mem_singleton.mp hlabel
    exact ⟨hquote, hstart⟩
  · rename_i hquote
    refine iff_of_false ?_ fun h ↦ hquote h.1
    split
    · exact hchars ("character '" ++ String.ofList text ++ "'")
    · exact hchars ("characters '" ++ String.ofList text ++ "'")

/-- What is reported of a token is not an open string. -/
theorem not_reportsOpen_of_token {placed : Placed} {kind : Kind} {diagnostic : Diagnostic}
    {start : Nat} (hkind : placed.piece.shape = .token kind)
    (h : diagnostic ∈ placed.diagnostics) : ¬ ReportsOpen diagnostic start := by
  intro hreports
  unfold Placed.diagnostics at h
  split at h
  · obtain ⟨fault, -, rfl⟩ := List.mem_map.mp h
    have hmessage := hreports.message
    cases herror : fault.error with
    | codePoint =>
      rw [herror] at hmessage
      exact invalid_message_ne "unicode escape sequence" hmessage
    | unknown escaped =>
      rw [herror] at hmessage
      exact invalid_message_ne ("escape sequence '\\" ++ String.singleton escaped ++ "'") hmessage
  · cases h
  · cases h
  · rename_i hinvalid
    rw [hkind] at hinvalid
    cases hinvalid

/-! ### Open strings of a gap -/

theorem not_opens_of_skipped {offset start : Nat} {gap : List Piece} (h : Skipped gap) :
    ¬ Opens offset gap start := by
  rintro ⟨before, piece, after, rfl, ⟨hinvalid, -⟩, -⟩
  have hskipped := h piece (List.mem_append_right _ List.mem_cons_self)
  rw [hinvalid] at hskipped
  cases hskipped

/-- Only the first invalid piece of a gap has nothing invalid before it. -/
theorem opens_iff_of_first {offset start : Nat} {before after : List Piece} {piece : Piece}
    (hgap : Gap (before ++ piece :: after)) (hbefore : Skipped before)
    (hpiece : piece.shape = .invalid) :
    Opens offset (before ++ piece :: after) start ↔ piece.text.head? = some '"' ∧
      offset + Text.byteLength (before.flatMap Piece.text) = start := by
  have hsound {pieces : List Piece} {other : Piece} (h : Skipped pieces) (hmem : other ∈ pieces) :
      other.shape ≠ .invalid := by
    rw [h other hmem]
    nofun
  constructor
  · rintro ⟨front, other, back, hsplit, ⟨hother, hquote⟩, hfront, rfl⟩
    rcases List.append_eq_append_iff.mp hsplit with ⟨more, rfl, hrest⟩ | ⟨more, rfl, hrest⟩
    · cases more with
      | nil =>
        obtain ⟨rfl, -⟩ := List.cons.inj hrest
        exact ⟨hquote, by rw [List.append_nil]⟩
      | cons _ more =>
        obtain ⟨rfl, -⟩ := List.cons.inj hrest
        refine absurd ⟨before, piece :: more, rfl, fun other hother kind hkind ↦ ?_,
          piece, List.mem_cons_self, hpiece⟩ hfront
        have hmem : other ∈ before ++ piece :: after := by
          rw [hsplit]
          exact List.mem_append_left _ (List.mem_append_right _ hother)
        rcases (hgap other hmem).2 with hshape | ⟨hshape, -⟩
        all_goals
          rw [hshape] at hkind
          cases hkind
    · cases more with
      | nil =>
        obtain ⟨rfl, -⟩ := List.cons.inj hrest
        exact ⟨hquote, by rw [List.append_nil]⟩
      | cons _ more =>
        obtain ⟨rfl, -⟩ := List.cons.inj hrest
        exact absurd hother (hsound hbefore (List.mem_append_right _ List.mem_cons_self))
  · rintro ⟨hquote, rfl⟩
    refine ⟨before, piece, after, rfl, ⟨hpiece, hquote⟩, ?_, rfl⟩
    rintro ⟨front, gap, rfl, -, other, hother, hinvalid⟩
    exact hsound hbefore (List.mem_append_right _ hother) hinvalid

/-- Of a gap an open string is reported if its first invalid piece is one. -/
theorem reportsOpen_of_gap {offset start : Nat} {gap : List Piece} {diagnostics : List Diagnostic}
    (hgap : Gap gap) (h : Fragment offset gap diagnostics) :
    (∃ diagnostic ∈ diagnostics, ReportsOpen diagnostic start) ↔ Opens offset gap start := by
  cases h with
  | sound hskipped =>
    exact iff_of_false (fun ⟨_, h, _⟩ ↦ by cases h) (not_opens_of_skipped hskipped)
  | @faulty before middle after stretch text hbefore hmiddle hafter hstart htext =>
    obtain ⟨piece, hfirst, hinvalid⟩ := hmiddle.first
    obtain ⟨rest, rfl⟩ := List.head?_eq_some_iff.mp hfirst
    have hhead : text.head? = piece.text.head? := by
      have hne := (hgap piece (List.mem_append_right _ List.mem_cons_self)).1
      rw [htext, List.flatMap_cons, List.head?_append_of_ne_nil _ hne]
    rw [List.cons_append] at hgap ⊢
    rw [opens_iff_of_first hgap hbefore hinvalid, ← hstart, ← hhead]
    simp only [List.mem_singleton, exists_eq_left, reportsOpen_invalidText]

theorem opens_append_token {offset start : Nat} {gap pieces : List Piece} {token : Piece}
    {kind : Kind} (hkind : token.shape = .token kind) :
    Opens offset (gap ++ token :: pieces) start ↔ Opens offset gap start ∨
      Opens (offset + Text.byteLength (gap.flatMap Piece.text) + Text.byteLength token.text) pieces
        start := by
  have hne {piece : Piece} (h : piece.OpensString) : piece ≠ token := by
    rintro rfl
    rw [h.1] at hkind
    cases hkind
  have hlength (before : List Piece) :
      offset + Text.byteLength ((gap ++ token :: before).flatMap Piece.text) =
        offset + Text.byteLength (gap.flatMap Piece.text) + Text.byteLength token.text +
          Text.byteLength (before.flatMap Piece.text) := by
    rw [List.flatMap_append, List.flatMap_cons, Text.byteLength_append, Text.byteLength_append]
    omega
  constructor
  · rintro ⟨before, piece, after, hsplit, hopens, hmarred, rfl⟩
    rcases List.append_eq_append_iff.mp hsplit with ⟨more, rfl, hrest⟩ | ⟨more, rfl, hrest⟩
    · cases more with
      | nil => exact absurd (List.cons.inj hrest).1.symm (hne hopens)
      | cons _ more =>
        obtain ⟨rfl, rfl⟩ := List.cons.inj hrest
        exact .inr ⟨more, piece, after, rfl, hopens,
          fun h ↦ hmarred ((marred_behind_token hkind).mpr h), hlength more⟩
    · cases more with
      | nil => exact absurd (List.cons.inj hrest).1 (hne hopens)
      | cons _ more =>
        obtain ⟨rfl, rfl⟩ := List.cons.inj hrest
        exact .inl ⟨before, piece, more, rfl, hopens, hmarred, rfl⟩
  · rintro (⟨before, piece, after, rfl, hopens, hmarred, rfl⟩ |
      ⟨before, piece, after, rfl, hopens, hmarred, rfl⟩)
    · exact ⟨before, piece, after ++ token :: pieces,
        by rw [List.append_assoc, List.cons_append], hopens, hmarred, rfl⟩
    · exact ⟨gap ++ token :: before, piece, after, by rw [List.append_assoc, List.cons_append],
        hopens, fun h ↦ hmarred ((marred_behind_token hkind).mp h), (hlength before).symm⟩

/-- The open strings that are reported are those with nothing invalid before them in their gap. -/
theorem reportsOpen_iff (text : List Char) : ∀ offset start,
    (∃ diagnostic ∈ (place offset (coalesce (scan text))).flatMap Placed.diagnostics,
      ReportsOpen diagnostic start) ↔ Opens offset (scan text) start := by
  induction text using gap_induction with
  | finish text hgap =>
    intro offset start
    exact reportsOpen_of_gap hgap (fragment_of_gap hgap offset)
  | token gap kind word rest hgap hword hscan ih =>
    intro offset start
    rw [hscan, coalesce_token gap rfl, place_append, flatten_coalesce, List.flatMap_append, place,
      List.flatMap_cons, opens_append_token rfl, ← ih,
      ← reportsOpen_of_gap hgap (fragment_of_gap hgap offset)]
    simp only [List.mem_append, or_and_right, exists_or]
    refine or_congr_right (or_iff_right ?_)
    rintro ⟨diagnostic, hdiagnostic, hreports⟩
    exact not_reportsOpen_of_token rfl hdiagnostic hreports

/-! ### Sources -/

/-- Pieces of a text that begin at the same offset have the same pieces before them. -/
theorem before_eq_of_byteLength {before before' after after' : List Piece} {piece piece' : Piece}
    (h : before ++ piece :: after = before' ++ piece' :: after')
    (hne : ∀ other ∈ before ++ piece :: after, other.text ≠ [])
    (hlength : Text.byteLength (before.flatMap Piece.text) =
      Text.byteLength (before'.flatMap Piece.text)) : before = before' := by
  have hlt {front more : List Piece} {other : Piece} (hother : other.text ≠ []) :
      Text.byteLength (front.flatMap Piece.text) <
        Text.byteLength ((front ++ other :: more).flatMap Piece.text) := by
    have hpos := Text.byteLength_pos hother
    rw [List.flatMap_append, List.flatMap_cons, Text.byteLength_append, Text.byteLength_append]
    omega
  rcases List.append_eq_append_iff.mp h with ⟨more, rfl, hrest⟩ | ⟨more, rfl, hrest⟩
  · cases more with
    | nil => rw [List.append_nil]
    | cons other more =>
      have hother := hne other
        (h ▸ List.mem_append_left _ (List.mem_append_right _ List.mem_cons_self))
      exact absurd hlength (hlt hother).ne
  · cases more with
    | nil => rw [List.append_nil]
    | cons other more =>
      have hother := hne other (List.mem_append_left _ (List.mem_append_right _ List.mem_cons_self))
      exact absurd hlength (hlt hother).ne'

/-- An open string of a source is reported as one exactly if nothing invalid stands before it behind
the last token, and whatever is reported as an open string is one. -/
theorem open_strings (source : String) :
    (∀ before piece after, scan source.toList = before ++ piece :: after →
      Pattern.Unclosed (piece.text ++ after.flatMap Piece.text) →
        ((∃ diagnostic ∈ (ofSource source).diagnostics,
          ReportsOpen diagnostic (Text.byteLength (before.flatMap Piece.text))) ↔
            ¬ Marred before)) ∧
      ∀ start, ∀ diagnostic ∈ (ofSource source).diagnostics, ReportsOpen diagnostic start →
        ∃ before piece after, scan source.toList = before ++ piece :: after ∧
          Pattern.Unclosed (piece.text ++ after.flatMap Piece.text) ∧
            start = Text.byteLength (before.flatMap Piece.text) := by
  have hreports (start : Nat) : (∃ diagnostic ∈ (ofSource source).diagnostics,
      ReportsOpen diagnostic start) ↔ Opens 0 (scan source.toList) start :=
    reportsOpen_iff source.toList 0 start
  refine ⟨fun before piece after hscan hunclosed ↦ ?_, fun start diagnostic hdiagnostic h ↦ ?_⟩
  · have hopens := (opensString_iff hscan).mpr hunclosed
    rw [hreports]
    refine ⟨?_, fun hmarred ↦ ⟨before, piece, after, hscan, hopens, hmarred, (Nat.zero_add _).symm⟩⟩
    rintro ⟨before', piece', after', hscan', -, hmarred, hlength⟩
    rw [Nat.zero_add] at hlength
    have hne : ∀ other ∈ before ++ piece :: after, other.text ≠ [] := by
      rw [← hscan]
      intro other hother
      obtain ⟨first, rest, rfl⟩ := eq_cut_of_mem_scan hother
      exact List.cons_ne_nil _ _
    rw [before_eq_of_byteLength (hscan.symm.trans hscan') hne hlength]
    exact hmarred
  · obtain ⟨before, piece, after, hscan, hopens, -, hstart⟩ :=
      (hreports start).mp ⟨diagnostic, hdiagnostic, h⟩
    rw [Nat.zero_add] at hstart
    exact ⟨before, piece, after, hscan, (opensString_iff hscan).mp hopens, hstart⟩

theorem unclosed_abc : Pattern.Unclosed ['"', 'a', 'b', 'c'] :=
  (invalid_iff_unclosed ['a', 'b', 'c']).mp rfl

theorem scan_abc : scan ['"', 'a', 'b', 'c'] = [⟨.invalid, ['"', 'a', 'b', 'c']⟩] := by
  have hcut : cut '"' (['a', 'b', 'c'] ++ []) = (.invalid, 3) := rfl
  have hscan := scan_of_cut hcut
  rw [List.append_nil, scan] at hscan
  exact hscan

/-- The open string of a text that holds nothing else is reported. -/
theorem open_strings_of_lone_string :
    scan "\"abc".toList = [] ++ ⟨.invalid, ['"', 'a', 'b', 'c']⟩ :: [] ∧
      Pattern.Unclosed ['"', 'a', 'b', 'c'] ∧
        ∃ diagnostic ∈ (ofSource "\"abc").diagnostics, ReportsOpen diagnostic 0 := by
  refine ⟨scan_abc, unclosed_abc, ?_⟩
  refine ((open_strings "\"abc").1 [] _ [] scan_abc unclosed_abc).mpr ?_
  rintro ⟨front, gap, hsplit, -, piece, hpiece, -⟩
  rw [(List.append_eq_nil_iff.mp hsplit.symm).2] at hpiece
  cases hpiece

/-- An open string behind a character that begins nothing is not reported as one. -/
theorem open_string_unreported :
    scan "#\"abc".toList = [⟨.invalid, ['#']⟩] ++ ⟨.invalid, ['"', 'a', 'b', 'c']⟩ :: [] ∧
      Pattern.Unclosed ['"', 'a', 'b', 'c'] ∧
        ¬ ∃ diagnostic ∈ (ofSource "#\"abc").diagnostics, ReportsOpen diagnostic 1 := by
  have hcut : cut '#' ([] ++ ['"', 'a', 'b', 'c']) = (.invalid, 0) := rfl
  have hscan : scan ['#', '"', 'a', 'b', 'c'] =
      [⟨.invalid, ['#']⟩, ⟨.invalid, ['"', 'a', 'b', 'c']⟩] := by
    have hscan := scan_of_cut hcut
    rw [scan_abc] at hscan
    exact hscan
  refine ⟨hscan, unclosed_abc, ?_⟩
  have hdiagnostics : (ofSource "#\"abc").diagnostics =
      [complaint ⟨0, 5⟩ "invalid characters '#\"abc'"] := by
    change (place 0 (coalesce (scan ['#', '"', 'a', 'b', 'c']))).flatMap Placed.diagnostics = _
    rw [hscan]
    rfl
  rw [hdiagnostics]
  rintro ⟨diagnostic, hdiagnostic, hreports⟩
  obtain rfl := List.mem_singleton.mp hdiagnostic
  exact invalid_message_ne "characters '#\"abc'" hreports.message

end Lexed

end CorpusQuery
