import CorpusQuery.Proofs.Extent.Source
import CorpusQuery.Proofs.Spelling.RoundTrip

/-!
Slices of a text. A scan forgets what it has read, so a text can be cut before any of its pieces,
and a piece that is not invalid is cut off again when less follows it, so the text can be cut behind
it as well (`Piece.scan_slice`). The tokens of a slice are those of the text, moved to the front.
-/

set_option autoImplicit false
set_option relaxedAutoImplicit false

namespace CorpusQuery

open CorpusQuery.Piece

/-! ### Symbols -/

namespace Symbol

theorem exists_longer (held? : Option Symbol) (symbol : Symbol) :
    ∃ next, longer held? symbol = some next ∧ (next = symbol ∨ held? = some next) ∧
      symbol.chars.length ≤ next.chars.length ∧
        ∀ held ∈ held?, held.chars.length ≤ next.chars.length := by
  cases held? with
  | none => exact ⟨symbol, rfl, .inl rfl, Nat.le_refl _, nofun⟩
  | some held =>
    by_cases hlt : held.chars.length < symbol.chars.length
    · exact ⟨symbol, if_pos hlt, .inl rfl, Nat.le_refl _, fun _ h ↦ by cases h; exact hlt.le⟩
    · exact ⟨held, if_neg hlt, .inr rfl, Nat.le_of_not_lt hlt,
        fun _ h ↦ by cases h; exact Nat.le_refl _⟩

/-- The longest of some symbols is one of them, and none of them is longer. -/
theorem of_foldl_longer {symbols : List Symbol} {held? : Option Symbol} {mark : Symbol}
    (h : symbols.foldl longer held? = some mark) :
    (mark ∈ symbols ∨ held? = some mark) ∧
      (∀ symbol ∈ symbols, symbol.chars.length ≤ mark.chars.length) ∧
        ∀ held ∈ held?, held.chars.length ≤ mark.chars.length := by
  induction symbols generalizing held? with
  | nil =>
    obtain rfl : held? = some mark := h
    exact ⟨.inr rfl, nofun, fun _ h ↦ by cases h; exact Nat.le_refl _⟩
  | cons symbol symbols ih =>
    obtain ⟨next, hnext, horigin, hsymbol, hheld⟩ := exists_longer held? symbol
    rw [List.foldl_cons, hnext] at h
    obtain ⟨hmem, hle, hbound⟩ := ih h
    have hnextle := hbound next rfl
    refine ⟨?_, fun other hother ↦ ?_, fun held h ↦ (hheld held h).trans hnextle⟩
    · rcases hmem with hmem | hmem
      · exact .inl (List.mem_cons_of_mem _ hmem)
      · cases hmem
        rcases horigin with rfl | horigin
        · exact .inl List.mem_cons_self
        · exact .inr horigin
    · rcases List.mem_cons.mp hother with rfl | hother
      · exact hsymbol.trans hnextle
      · exact hle other hother

/-- The text begins with its longest symbol. -/
theorem prefix_of_longest? {text : List Char} {mark : Symbol} (h : longest? text = some mark) :
    mark.chars <+: text := by
  obtain ⟨hmem | hnone, -⟩ := of_foldl_longer h
  · exact List.isPrefixOf_iff_prefix.mp (List.mem_filter.mp hmem).2
  · cases hnone

/-- A symbol that is the longest one is so as long as it is there. -/
theorem longest?_of_isPrefix {text short : List Char} {mark : Symbol}
    (h : longest? text = some mark) (hshort : short <+: text)
    (hle : mark.chars.length ≤ short.length) : longest? short = some mark := by
  obtain ⟨-, hlongest, -⟩ := of_foldl_longer h
  rw [← h, longest?, longest?]
  refine congrArg (List.foldl longer none) (List.filter_congr fun symbol hsymbol ↦ ?_)
  rw [Bool.eq_iff_iff, List.isPrefixOf_iff_prefix, List.isPrefixOf_iff_prefix]
  refine ⟨fun hprefix ↦ hprefix.trans hshort, fun hprefix ↦ ?_⟩
  have hmem : symbol ∈ values.filter fun symbol ↦ symbol.chars.isPrefixOf text :=
    List.mem_filter.mpr ⟨hsymbol, List.isPrefixOf_iff_prefix.mpr hprefix⟩
  exact List.prefix_of_prefix_length_le hprefix hshort ((hlongest symbol hmem).trans hle)

end Symbol

namespace Piece

/-! ### Cuts -/

theorem takeWhile_of_isPrefix {p : Char → Bool} {text short : List Char} (hshort : short <+: text)
    (hle : (text.takeWhile p).length ≤ short.length) : short.takeWhile p = text.takeWhile p := by
  obtain ⟨rest, rfl⟩ := hshort
  rw [List.takeWhile_append] at hle ⊢
  split
  · rename_i hwhole
    rw [if_pos hwhole, List.length_append] at hle
    rw [List.eq_nil_of_length_eq_zero (show (rest.takeWhile p).length = 0 by omega),
      List.append_nil]
    exact (List.takeWhile_prefix p).eq_of_length hwhole
  · rfl

theorem exists_of_prefix_cons {c : Char} {rest short : List Char} (hshort : short <+: c :: rest)
    (hpos : 0 < short.length) : ∃ tail, short = c :: tail ∧ tail <+: rest :=
  (List.prefix_cons_iff.mp hshort).resolve_left (List.ne_nil_of_length_pos hpos)

theorem stringEnd_le (text : List Char) : (stringEnd text).2 ≤ text.length := by
  fun_induction stringEnd text <;> simp_all

/-- A string that is closed is closed whatever follows. -/
theorem stringEnd_of_isPrefix {text short : List Char} (hclosed : (stringEnd text).1 = true)
    (hshort : short <+: text) (hle : (stringEnd text).2 ≤ short.length) :
    stringEnd short = stringEnd text := by
  fun_induction stringEnd text generalizing short with
  | case1 | case3 | case4 | case5 => cases hclosed
  | case2 rest =>
    obtain ⟨tail, rfl, -⟩ := exists_of_prefix_cons hshort hle
    rfl
  | case6 c rest hbreak ih =>
    change (stringEnd rest).2 + 2 ≤ short.length at hle
    obtain ⟨tail, rfl, htail⟩ := exists_of_prefix_cons hshort (by omega)
    rw [List.length_cons] at hle
    obtain ⟨tail', rfl, htail'⟩ := exists_of_prefix_cons htail (by omega)
    rw [List.length_cons] at hle
    rw [stringEnd, ih hclosed htail' (by omega)]
    exact hbreak
  | case7 c rest hquote hbreak hlast _ hescape ih =>
    change (stringEnd rest).2 + 1 ≤ short.length at hle
    obtain ⟨tail, rfl, htail⟩ := exists_of_prefix_cons hshort (by omega)
    rw [List.length_cons] at hle
    have hplain : c ≠ '\\' := fun hc ↦ by
      cases rest with
      | nil => exact hlast hc rfl
      | cons next rest => exact hescape next rest hc rfl
    rw [stringEnd, ih hclosed htail (by omega)]
    · exact hquote
    · exact hbreak
    · exact fun hc ↦ absurd hc hplain
    · exact fun _ hc ↦ absurd hc hplain
    · exact fun _ _ hc ↦ absurd hc hplain

theorem commentEnd?_le {text : List Char} {length : Nat} (h : commentEnd? text = some length) :
    length ≤ text.length := by
  fun_induction commentEnd? text generalizing length with
  | case1 => cases h
  | case2 rest =>
    cases h
    simp
  | case3 c rest _ ih =>
    obtain ⟨length, hrest, rfl⟩ := Option.map_eq_some_iff.mp h
    exact Nat.succ_le_succ (ih hrest)

/-- A comment that is closed is closed whatever follows. -/
theorem commentEnd?_of_isPrefix {text short : List Char} {length : Nat}
    (h : commentEnd? text = some length) (hshort : short <+: text) (hle : length ≤ short.length) :
    commentEnd? short = some length := by
  fun_induction commentEnd? text generalizing short length with
  | case1 => cases h
  | case2 rest =>
    cases h
    obtain ⟨tail, rfl, htail⟩ := exists_of_prefix_cons hshort (by omega)
    obtain ⟨tail', rfl, -⟩ := exists_of_prefix_cons htail (Nat.lt_of_succ_lt_succ hle)
    rfl
  | case3 c rest hopen ih =>
    obtain ⟨length, hrest, rfl⟩ := Option.map_eq_some_iff.mp h
    obtain ⟨tail, rfl, htail⟩ := exists_of_prefix_cons hshort (by omega)
    rw [commentEnd?, ih hrest htail (Nat.le_of_succ_le_succ hle)]
    · rfl
    · rintro tail' hc rfl
      obtain ⟨more, rfl⟩ := htail
      exact hopen _ hc rfl

theorem sigil_le (kind : Kind) (rest : List Char) : (sigil kind rest).2 ≤ rest.length := by
  cases rest with
  | nil => exact Nat.le_refl _
  | cons c rest =>
    have hle := (List.takeWhile_prefix isNameChar (l := rest)).length_le
    rw [sigil]
    split
    · rw [List.length_cons]
      omega
    · exact Nat.zero_le _

theorem sigil_of_isPrefix {kind : Kind} {rest short : List Char}
    (h : (sigil kind rest).1 ≠ .invalid) (hshort : short <+: rest)
    (hle : (sigil kind rest).2 ≤ short.length) : sigil kind short = sigil kind rest := by
  cases rest with
  | nil => exact absurd rfl h
  | cons c rest =>
    rw [sigil] at h hle ⊢
    split at h
    · rename_i hletter
      rw [if_pos hletter] at hle ⊢
      obtain ⟨tail, rfl, htail⟩ := exists_of_prefix_cons hshort (by omega)
      rw [List.length_cons] at hle
      rw [sigil, if_pos hletter, takeWhile_of_isPrefix htail (by omega)]
    · exact absurd rfl h

theorem symbol_le (first : Char) (rest : List Char) : (symbol first rest).2 ≤ rest.length := by
  rw [symbol]
  split
  · rename_i mark hmark
    have hle := (Symbol.prefix_of_longest? hmark).length_le
    rw [List.length_cons] at hle
    exact Nat.sub_le_of_le_add hle
  · exact Nat.zero_le _

theorem symbol_of_isPrefix {first : Char} {rest short : List Char}
    (h : (symbol first rest).1 ≠ .invalid) (hshort : short <+: rest)
    (hle : (symbol first rest).2 ≤ short.length) : symbol first short = symbol first rest := by
  rw [symbol] at h hle ⊢
  split at h
  · rename_i mark hmark
    rw [hmark] at hle
    have hlength : mark.chars.length ≤ (first :: short).length := by
      rw [List.length_cons]
      exact Nat.le_add_of_sub_le hle
    rw [symbol, hmark, Symbol.longest?_of_isPrefix hmark
      (List.cons_prefix_cons.mpr ⟨rfl, hshort⟩) hlength]
  · exact absurd rfl h

/-- A cut stays in the text. -/
theorem cut_le (first : Char) (rest : List Char) : (cut first rest).2 ≤ rest.length := by
  have htake (p : Char → Bool) (text : List Char) : (text.takeWhile p).length ≤ text.length :=
    (List.takeWhile_prefix p).length_le
  unfold cut
  split
  · exact htake _ _
  · split
    · exact htake _ _
    · split
      · exact htake _ _
      · split
        · exact stringEnd_le rest
        · exact sigil_le _ _
        · exact sigil_le _ _
        · rename_i comment _ _ _
          have hle := htake (· != '\n') comment
          rw [List.length_cons]
          omega
        · split
          · rename_i length hlength
            have hle := commentEnd?_le hlength
            rw [List.length_cons]
            omega
          · exact Nat.le_refl _
        · exact symbol_le _ _

/-- A piece that is not invalid is cut off again from a shorter text that holds it. -/
theorem cut_of_isPrefix {first : Char} {rest short : List Char}
    (h : (cut first rest).1 ≠ .invalid) (hshort : short <+: rest)
    (hle : (cut first rest).2 ≤ short.length) : cut first short = cut first rest := by
  unfold cut at h hle ⊢
  by_cases hblank : isBlank first
  · rw [if_pos hblank] at hle
    rw [if_pos hblank, if_pos hblank, takeWhile_of_isPrefix hshort hle]
  by_cases hletter : isLetter first
  · rw [if_neg hblank, if_pos hletter] at hle
    rw [if_neg hblank, if_pos hletter, if_neg hblank, if_pos hletter,
      takeWhile_of_isPrefix hshort hle]
  by_cases hdigit : isDigit first
  · rw [if_neg hblank, if_neg hletter, if_pos hdigit] at hle
    rw [if_neg hblank, if_neg hletter, if_pos hdigit, if_neg hblank, if_neg hletter, if_pos hdigit,
      takeWhile_of_isPrefix hshort hle]
  rw [if_neg hblank, if_neg hletter, if_neg hdigit] at h hle
  rw [if_neg hblank, if_neg hletter, if_neg hdigit, if_neg hblank, if_neg hletter, if_neg hdigit]
  split at h
  · have hclosed : (stringEnd rest).1 = true := by
      rcases hend : stringEnd rest with ⟨closed, length⟩
      rw [hend] at h
      cases closed with
      | true => rfl
      | false => exact absurd rfl h
    have hsame := stringEnd_of_isPrefix hclosed hshort hle
    simp only [hsame]
  · exact sigil_of_isPrefix h hshort hle
  · exact sigil_of_isPrefix h hshort hle
  · rename_i comment
    obtain ⟨tail, rfl, htail⟩ := exists_of_prefix_cons hshort (by simp only at hle; omega)
    simp only [List.length_cons] at hle ⊢
    rw [takeWhile_of_isPrefix htail (by omega)]
  · rename_i comment
    split at h
    · rename_i length hlength
      simp only [hlength] at hle ⊢
      obtain ⟨tail, rfl, htail⟩ := exists_of_prefix_cons hshort (by omega)
      rw [List.length_cons] at hle
      simp only [commentEnd?_of_isPrefix hlength htail (by omega)]
    · exact absurd rfl h
  · rename_i hquote hvariable hmember hline hblock
    simp only at hle ⊢
    split
    · exact absurd rfl hquote
    · exact absurd rfl hvariable
    · exact absurd rfl hmember
    · obtain ⟨more, rfl⟩ := hshort
      exact absurd rfl (hline _ rfl)
    · obtain ⟨more, rfl⟩ := hshort
      exact absurd rfl (hblock _ rfl)
    · exact symbol_of_isPrefix h hshort hle

/-! ### Scans -/

/-- A scan begins anew behind each of its pieces. -/
theorem scan_suffix {text : List Char} {before rest : List Piece}
    (h : scan text = before ++ rest) : scan (rest.flatMap Piece.text) = rest := by
  induction before generalizing text with
  | nil =>
    rw [List.nil_append] at h
    rw [← h, flatten_scan]
  | cons piece before ih =>
    cases text with
    | nil =>
      rw [scan] at h
      cases h
    | cons first text =>
      rw [scan, List.cons_append, List.cons.injEq] at h
      exact ih h.2

/-- What follows can be cut off behind pieces that are not invalid. -/
theorem scan_isPrefix {text : List Char} {pieces rest : List Piece}
    (h : scan text = pieces ++ rest) (hvalid : ∀ piece ∈ pieces, piece.shape ≠ .invalid) :
    scan (pieces.flatMap Piece.text) = pieces := by
  induction pieces generalizing text with
  | nil => rw [List.flatMap_nil, scan]
  | cons piece pieces ih =>
    cases text with
    | nil =>
      rw [scan] at h
      cases h
    | cons first text =>
      rw [scan, List.cons_append, List.cons.injEq] at h
      obtain ⟨rfl, hrest⟩ := h
      have hothers := ih hrest fun other hother ↦ hvalid other (List.mem_cons_of_mem _ hother)
      have htext : text = text.take (cut first text).2 ++
          (pieces.flatMap Piece.text ++ rest.flatMap Piece.text) := by
        rw [← List.flatMap_append, ← hrest, flatten_scan, List.take_append_drop]
      have hlength : (text.take (cut first text).2).length = (cut first text).2 :=
        List.length_take_of_le (cut_le first text)
      have hshort : text.take (cut first text).2 ++ pieces.flatMap Piece.text <+: text :=
        ⟨rest.flatMap Piece.text, by rw [List.append_assoc]; exact htext.symm⟩
      have hcut := cut_of_isPrefix (hvalid _ List.mem_cons_self) hshort (by
        rw [List.length_append, hlength]
        exact Nat.le_add_right _ _)
      rw [List.flatMap_cons, scan_of_cut (hcut.trans (Prod.ext rfl hlength.symm)), hothers]

/-- The pieces between two cuts are those of the text between them. -/
theorem scan_slice {text : List Char} {before pieces rest : List Piece}
    (h : scan text = before ++ (pieces ++ rest))
    (hvalid : ∀ piece ∈ pieces, piece.shape ≠ .invalid) :
    scan (pieces.flatMap Piece.text) = pieces :=
  scan_isPrefix (scan_suffix h) hvalid

end Piece

/-! ### Faults -/

/-- What the body of a literal stands for, and whether something is wrong with it, does not depend
on where it stands. -/
theorem Text.decode_offset (offset offset' : Nat) (text : List Char) :
    (decode offset text).value = (decode offset' text).value ∧
      ((decode offset text).faults = [] ↔ (decode offset' text).faults = []) := by
  have hpush {decoded decoded' : Decoded} (c : Char) (h : decoded.value = decoded'.value ∧
      (decoded.faults = [] ↔ decoded'.faults = [])) :
      (decoded.push c).value = (decoded'.push c).value ∧
        ((decoded.push c).faults = [] ↔ (decoded'.push c).faults = []) :=
    ⟨congrArg (c :: ·) h.1, h.2⟩
  have hrefuse {decoded decoded' : Decoded} (start start' length : Nat) (error : EscapeError)
      (h : decoded.value = decoded'.value) :
      (decoded.refuse start length error).value = (decoded'.refuse start' length error).value ∧
        ((decoded.refuse start length error).faults = [] ↔
          (decoded'.refuse start' length error).faults = []) :=
    ⟨h, iff_of_false nofun nofun⟩
  fun_induction decode offset text generalizing offset' with
  | case1 => exact ⟨rfl, Iff.rfl⟩
  | case2 offset a b c d rest length decoded character hcode ih =>
    rw [decode, hcode]
    exact hpush character (ih _)
  | case3 offset a b c d rest length decoded hcode ih =>
    rw [decode, hcode]
    exact hrefuse _ _ _ _ (ih _).1
  | case4 offset rest hshort =>
    rw [decode]
    · exact hrefuse _ _ _ _ rfl
    · exact hshort
  | case5 => exact ⟨rfl, Iff.rfl⟩
  | case6 offset escaped rest hfour hunicode decoded character hescape ih =>
    rw [decode, hescape]
    · exact hpush character (ih _)
    · exact hfour
    · exact hunicode
  | case7 offset escaped rest hfour hunicode decoded hescape ih =>
    rw [decode, hescape]
    · exact hrefuse _ _ _ _ (hpush escaped (ih _)).1
    · exact hfour
    · exact hunicode
  | case8 offset c rest hfour hunicode hlast hescape ih =>
    rw [decode]
    · exact hpush c (ih _)
    · exact hfour
    · exact hunicode
    · exact hlast
    · exact hescape

namespace Piece

/-- A piece with which nothing is wrong. -/
def Sound (piece : Piece) : Prop := ∀ offset, (⟨offset, piece⟩ : Lexed.Placed).diagnostics = []

theorem Sound.shape_ne {piece : Piece} (h : piece.Sound) : piece.shape ≠ .invalid := by
  intro hshape
  have hdiagnostics := h 0
  rw [Lexed.Placed.diagnostics, hshape] at hdiagnostics
  cases hdiagnostics

/-- If nothing is wrong with a piece in one place, nothing is wrong with it anywhere. -/
theorem sound_of_diagnostics {offset : Nat} {piece : Piece}
    (h : (⟨offset, piece⟩ : Lexed.Placed).diagnostics = []) : piece.Sound := by
  intro offset'
  obtain ⟨shape, text⟩ := piece
  cases shape with
  | skipped => rfl
  | invalid => cases h
  | token kind =>
    cases kind with
    | stringLiteral =>
      exact List.map_eq_nil_iff.mpr
        ((Text.decode_offset (offset + 1) (offset' + 1) _).2.mp (List.map_eq_nil_iff.mp h))
    | _ => rfl

theorem sound_of_skipped {piece : Piece} (h : piece.shape = .skipped) : piece.Sound := by
  intro offset
  rw [Lexed.Placed.diagnostics, h]

theorem sound_join (piece : Piece) (rest : List Piece) :
    (∀ other ∈ join piece rest, other.Sound) ↔ piece.Sound ∧ ∀ other ∈ rest, other.Sound := by
  have hunsound {piece : Piece} (h : piece.shape = .invalid) : ¬ piece.Sound :=
    fun hsound ↦ hsound.shape_ne h
  have hskipped {text : List Char} : (⟨.skipped, text⟩ : Piece).Sound := sound_of_skipped rfl
  have hinvalid {text : List Char} : ¬ (⟨.invalid, text⟩ : Piece).Sound := hunsound rfl
  unfold join
  split
  · rename_i text tail hshape
    simp only [List.forall_mem_cons, hskipped, sound_of_skipped hshape, true_and]
  · rename_i text tail hshape
    simp only [List.forall_mem_cons, hunsound hshape, hinvalid, false_and]
  · rename_i gap text tail hshape
    simp only [List.forall_mem_cons, hunsound hshape, hinvalid, false_and]
  · exact List.forall_mem_cons

theorem sound_coalesce (pieces : List Piece) :
    (∀ piece ∈ coalesce pieces, piece.Sound) ↔ ∀ piece ∈ pieces, piece.Sound := by
  induction pieces with
  | nil => exact Iff.rfl
  | cons piece pieces ih =>
    rw [List.forall_mem_cons, ← ih]
    exact sound_join piece (coalesce pieces)

end Piece

namespace Lexed

theorem diagnostics_place_iff (offset : Nat) (pieces : List Piece) :
    (place offset pieces).flatMap Placed.diagnostics = [] ↔ ∀ piece ∈ pieces, piece.Sound := by
  refine ⟨fun h ↦ ?_, fun h ↦ diagnostics_place offset fun piece hpiece ↦ h piece hpiece⟩
  induction pieces generalizing offset with
  | nil => exact nofun
  | cons piece pieces ih =>
    rw [place, List.flatMap_cons, List.append_eq_nil_iff] at h
    exact List.forall_mem_cons.mpr ⟨sound_of_diagnostics h.1, ih _ h.2⟩

/-- A text is clean if nothing is wrong with any of its pieces. -/
theorem isClean_iff (text : List Char) :
    (ofChars text).isClean = true ↔ ∀ piece ∈ scan text, piece.Sound := by
  rw [isClean, List.isEmpty_iff, ofChars, diagnostics_place_iff, sound_coalesce]

end Lexed

end CorpusQuery
