import CorpusQuery.Proofs.Spelling.Lexical

/-!
Scanning what was printed. A lexeme that a text can hold is cut off again as one piece, as long as
nothing behind it would make it longer (`Lexeme.Lexical.scan`). Behind a wording there is a blank or
the end of the text, which prolongs nothing, and within a wording a point stands before digits, a
minus before digits, and the two symbols of an end of an edge next to each other, none of which is
the beginning of a longer symbol (`Wording.Lexical.scan`).
-/

set_option autoImplicit false
set_option relaxedAutoImplicit false

namespace CorpusQuery

open CorpusQuery.Piece

/-! ### Symbols -/

namespace Symbol

/-- A text whose first character belongs to no symbol. -/
def Halts (rest : List Char) : Prop := ∀ c ∈ rest.head?, ∀ mark : Symbol, c ∉ mark.chars

theorem isPrefixOf_append {chars rest : List Char} (h : ∀ c ∈ rest.head?, c ∉ chars)
    (text : List Char) : chars.isPrefixOf (text ++ rest) = chars.isPrefixOf text := by
  induction text generalizing chars with
  | nil =>
    cases chars with
    | nil => simp
    | cons first chars =>
      cases rest with
      | nil => rfl
      | cons c rest =>
        have hne : first ≠ c := by
          rintro rfl
          exact h first rfl List.mem_cons_self
        simp [List.isPrefixOf, hne]
  | cons c text ih =>
    cases chars with
    | nil => simp
    | cons first chars =>
      have hchars : ∀ c ∈ rest.head?, c ∉ chars :=
        fun c hc hmem ↦ h c hc (List.mem_cons_of_mem _ hmem)
      simp only [List.cons_append, List.isPrefixOf, ih hchars]

/-- What follows makes no symbol longer if it begins with another character. -/
theorem longest?_append {rest : List Char} (h : Halts rest) (text : List Char) :
    longest? (text ++ rest) = longest? text := by
  have hprefix (mark : Symbol) :
      mark.chars.isPrefixOf (text ++ rest) = mark.chars.isPrefixOf text :=
    isPrefixOf_append (fun c hc ↦ h c hc mark) text
  simp only [longest?, hprefix]

theorem longest?_chars (mark : Symbol) : longest? mark.chars = some mark := by
  have hvalues : ∀ mark ∈ values, longest? mark.chars = some mark := by decide +kernel
  exact hvalues mark mark.mem_values

theorem longest?_edgeEnd {first second : Symbol} (h : first.isEdgeEnd second = true) :
    longest? (first.chars ++ second.chars) = some first := by
  unfold isEdgeEnd at h
  split at h
  · rfl
  · rfl
  · rfl
  · cases h

/-- The characters that are neither blanks nor the beginning of a word, a number or a string. -/
def isMarkChar (c : Char) : Bool :=
  !isBlank c && !isLetter c && !isDigit c && c != '"' && c != '@' && c != '$'

theorem isMarkChar_of_mem {mark : Symbol} {c : Char} (h : c ∈ mark.chars) :
    isMarkChar c = true := by
  have hvalues : ∀ mark ∈ values, mark.chars.all isMarkChar = true := by decide +kernel
  exact List.all_eq_true.mp (hvalues mark mark.mem_values) c h

theorem halts_of_digit {first : Char} {rest : List Char} (h : isDigit first = true) :
    Halts (first :: rest) := by
  rintro _ ⟨⟩ mark hmem
  have hchar := isMarkChar_of_mem hmem
  simp [isMarkChar, h] at hchar

/-- What begins with a blank or is empty. -/
theorem halts_of_blank {rest : List Char} (h : ∀ c ∈ rest.head?, c = ' ') : Halts rest := by
  intro c hc mark hmem
  rw [h c hc] at hmem
  exact absurd (isMarkChar_of_mem hmem) (by decide)

end Symbol

namespace Piece

/-! ### Cuts -/

theorem cut_eq_symbol {first : Char} {rest : List Char} (hfirst : Symbol.isMarkChar first = true)
    (hcomment : first = '/' → ∀ c ∈ rest.head?, c ≠ '/' ∧ c ≠ '*') :
    cut first rest = symbol first rest := by
  simp only [Symbol.isMarkChar, Bool.and_eq_true, Bool.not_eq_true', bne_iff_ne, ne_eq] at hfirst
  obtain ⟨⟨⟨⟨⟨hblank, hletter⟩, hdigit⟩, hquote⟩, hvariable⟩, hmember⟩ := hfirst
  unfold cut
  rw [if_neg (Bool.eq_false_iff.mp hblank), if_neg (Bool.eq_false_iff.mp hletter),
    if_neg (Bool.eq_false_iff.mp hdigit)]
  split
  · exact absurd rfl hquote
  · exact absurd rfl hvariable
  · exact absurd rfl hmember
  · exact absurd rfl (hcomment rfl _ rfl).1
  · exact absurd rfl (hcomment rfl _ rfl).2
  · rfl

theorem takeWhile_of_head {p : Char → Bool} {tail rest : List Char} (htail : ∀ c ∈ tail, p c = true)
    (hrest : ∀ c ∈ rest.head?, p c = false) : (tail ++ rest).takeWhile p = tail := by
  have hnone : rest.takeWhile p = [] := by
    cases rest with
    | nil => rfl
    | cons c rest => rw [List.takeWhile_cons, hrest c rfl, if_neg nofun]
  rw [List.takeWhile_append_of_pos htail, hnone, List.append_nil]

theorem isBlank_of_letter {c : Char} (h : isLetter c = true) : isBlank c = false := by
  refine Bool.eq_false_iff.mpr fun hblank ↦ ?_
  simp only [isBlank, Bool.or_eq_true, beq_iff_eq] at hblank
  rcases hblank with (((rfl | rfl) | rfl) | rfl) | rfl <;> cases h

theorem isBlank_of_digit {c : Char} (h : isDigit c = true) : isBlank c = false := by
  refine Bool.eq_false_iff.mpr fun hblank ↦ ?_
  simp only [isBlank, Bool.or_eq_true, beq_iff_eq] at hblank
  rcases hblank with (((rfl | rfl) | rfl) | rfl) | rfl <;> cases h

theorem isLetter_of_digit {c : Char} (h : isDigit c = true) : isLetter c = false := by
  simp only [isDigit, isLetter, Bool.and_eq_true, decide_eq_true_eq, Bool.or_eq_false_iff,
    Bool.and_eq_false_iff, decide_eq_false_iff_not, Char.le_def, UInt32.le_iff_toNat_le] at h ⊢
  simp at h ⊢
  omega

theorem cut_word {first : Char} {tail rest : List Char} (hfirst : isLetter first = true)
    (htail : ∀ c ∈ tail, isNameChar c = true) (hrest : ∀ c ∈ rest.head?, isNameChar c = false) :
    cut first (tail ++ rest) = (.token (wordKind (first :: tail)), tail.length) := by
  unfold cut
  rw [if_neg (Bool.eq_false_iff.mp (isBlank_of_letter hfirst)), if_pos hfirst,
    takeWhile_of_head htail hrest]

theorem cut_number {first : Char} {tail rest : List Char} (hfirst : isDigit first = true)
    (htail : ∀ c ∈ tail, isNumberChar c = true)
    (hrest : ∀ c ∈ rest.head?, isNumberChar c = false) :
    cut first (tail ++ rest) = (numberShape (first :: tail), tail.length) := by
  unfold cut
  rw [if_neg (Bool.eq_false_iff.mp (isBlank_of_digit hfirst)),
    if_neg (Bool.eq_false_iff.mp (isLetter_of_digit hfirst)), if_pos hfirst,
    takeWhile_of_head htail hrest]

theorem sigil_name {kind : Kind} {first : Char} {tail rest : List Char}
    (hfirst : isLetter first = true) (htail : ∀ c ∈ tail, isNameChar c = true)
    (hrest : ∀ c ∈ rest.head?, isNameChar c = false) :
    sigil kind (first :: tail ++ rest) = (.token kind, (first :: tail).length) := by
  rw [List.cons_append, sigil, if_pos hfirst, takeWhile_of_head htail hrest, Nat.add_comm]
  rfl

theorem stringEnd_escape (c : Char) (rest : List Char) :
    stringEnd (Lexeme.escape c ++ rest) =
      (stringEnd rest).map id (· + (Lexeme.escape c).length) := by
  unfold Lexeme.escape
  split
  · rfl
  · split
    · rfl
    · split
      · rfl
      · rw [List.singleton_append, stringEnd.eq_def]
        split <;> simp_all

/-- The end of a string is found behind the escapes of its text. -/
theorem stringEnd_escaped (text rest : List Char) :
    stringEnd (text.flatMap Lexeme.escape ++ '"' :: rest) =
      (true, (text.flatMap Lexeme.escape).length + 1) := by
  induction text with
  | nil => rfl
  | cons c text ih =>
    rw [List.flatMap_cons, List.append_assoc, List.length_append, stringEnd_escape, ih]
    refine congrArg (Prod.mk true) ?_
    change _ + 1 + _ = _ + _ + 1
    omega

/-! ### Lexemes -/

theorem scan_of_cut {first : Char} {tail rest : List Char} {shape : Shape}
    (h : cut first (tail ++ rest) = (shape, tail.length)) :
    scan (first :: tail ++ rest) = ⟨shape, first :: tail⟩ :: scan rest := by
  rw [List.cons_append, scan, h, List.take_left, List.drop_left]

end Piece

namespace Lexeme

/-- The piece that a lexeme is written as. -/
def piece (lexeme : Lexeme) : Piece := ⟨.token lexeme.kind, lexeme.chars⟩

/-- What may stand behind a lexeme without making it longer. -/
def EndsBefore (lexeme : Lexeme) (rest : List Char) : Prop :=
  match lexeme.kind with
  | .symbol mark => Symbol.longest? (mark.chars ++ rest) = some mark ∧
      (mark = .slash → ∀ c ∈ rest.head?, c ≠ '/' ∧ c ≠ '*')
  | .stringLiteral | .endOfInput => True
  | _ => ∀ c ∈ rest.head?, isNameChar c = false

theorem endsBefore_of_blank (lexeme : Lexeme) {rest : List Char} (h : ∀ c ∈ rest.head?, c = ' ') :
    lexeme.EndsBefore rest := by
  have hname : ∀ c ∈ rest.head?, isNameChar c = false := by
    intro c hc
    rw [h c hc]
    rfl
  unfold EndsBefore
  split
  · rename_i mark _
    refine ⟨?_, fun _ c hc ↦ ?_⟩
    · rw [Symbol.longest?_append (Symbol.halts_of_blank h), Symbol.longest?_chars]
    · rw [h c hc]
      exact ⟨nofun, nofun⟩
  · trivial
  · trivial
  · exact hname

theorem kind_digits (text : List Char) :
    (Lexeme.digits text).kind = .pureDigits ∨ (Lexeme.digits text).kind = .digits := by
  unfold Lexeme.digits
  split
  · exact .inr rfl
  · exact .inl rfl

theorem chars_digits (text : List Char) : (Lexeme.digits text).chars = text := by
  have htext : (Lexeme.digits text).text = String.ofList text := rfl
  unfold chars
  rcases kind_digits text with h | h
  all_goals
    rw [h, htext]
    exact String.toList_ofList

theorem endsBefore_digits {text rest : List Char} :
    (Lexeme.digits text).EndsBefore rest ↔ ∀ c ∈ rest.head?, isNameChar c = false := by
  unfold EndsBefore
  rcases kind_digits text with h | h
  all_goals
    rw [h]

theorem numberShape_digits {first : Char} {tail : List Char}
    (hlast : (first :: tail).getLast? ≠ some '_') :
    numberShape (first :: tail) = .token (Lexeme.digits (first :: tail)).kind := by
  unfold numberShape Lexeme.digits
  rw [if_neg hlast]
  split <;> rfl

theorem chars_symbol (mark : Symbol) : ∃ first tail, mark.chars = first :: tail := by
  cases mark <;> exact ⟨_, _, rfl⟩

theorem spelling_word (word : Keyword) : ∃ first tail, word.spelling.toList = first :: tail ∧
    isLetter first = true ∧ (∀ c ∈ tail, isNameChar c = true) ∧
      wordKind (first :: tail) = .keyword word := by
  have hvalues : ∀ word ∈ Keyword.values, word.spelling.toList ≠ [] ∧
      word.spelling.toList.head?.all isLetter = true ∧
        word.spelling.toList.all isNameChar = true ∧
          wordKind word.spelling.toList = .keyword word := by decide +kernel
  obtain ⟨hne, hfirst, htail, hkind⟩ := hvalues word word.mem_values
  cases hchars : word.spelling.toList with
  | nil => exact absurd hchars hne
  | cons first tail =>
    rw [hchars] at hfirst htail hkind
    exact ⟨first, tail, rfl, hfirst,
      fun c hc ↦ List.all_eq_true.mp htail c (List.mem_cons_of_mem _ hc), hkind⟩

theorem isNumberChar_of_isNameChar {c : Char} (h : isNameChar c = false) :
    isNumberChar c = false := by
  simp only [isNameChar, isNumberChar, Bool.or_eq_false_iff] at h ⊢
  exact ⟨h.1.2, h.2⟩

/-- A lexeme that a text can hold is cut off again where it was written. -/
theorem Lexical.scan {lexeme : Lexeme} (h : lexeme.Lexical) {rest : List Char}
    (hrest : lexeme.EndsBefore rest) :
    Piece.scan (lexeme.chars ++ rest) = lexeme.piece :: Piece.scan rest := by
  cases h with
  | keyword word =>
    obtain ⟨first, tail, hchars, hfirst, htail, hkind⟩ := spelling_word word
    change Piece.scan (word.spelling.toList ++ rest) =
      ⟨.token (.keyword word), word.spelling.toList⟩ :: Piece.scan rest
    rw [hchars, ← hkind]
    exact scan_of_cut (cut_word hfirst htail hrest)
  | symbol mark =>
    obtain ⟨first, tail, hchars⟩ := chars_symbol mark
    change Piece.scan (mark.chars ++ rest) = ⟨.token (.symbol mark), mark.chars⟩ :: Piece.scan rest
    obtain ⟨hlongest, hcomment⟩ := hrest
    have hfirst := Symbol.isMarkChar_of_mem (hchars ▸ List.mem_cons_self : first ∈ mark.chars)
    have hslash : first = '/' → ∀ c ∈ (tail ++ rest).head?, c ≠ '/' ∧ c ≠ '*' := by
      rintro rfl
      cases mark <;> cases hchars
      exact hcomment rfl
    rw [hchars] at hlongest ⊢
    refine scan_of_cut ?_
    rw [cut_eq_symbol hfirst hslash, Piece.symbol, ← List.cons_append, hlongest]
    simp [hchars]
  | @digits first tail hfirst htail hlast =>
    rw [piece, chars_digits, ← numberShape_digits hlast]
    exact scan_of_cut (cut_number hfirst htail fun c hc ↦
      isNumberChar_of_isNameChar (endsBefore_digits.mp hrest c hc))
  | stringLiteral text =>
    let escaped := text.flatMap Lexeme.escape
    have hcut : cut '"' (escaped ++ ['"'] ++ rest) =
        (.token .stringLiteral, (escaped ++ ['"']).length) := by
      change ((if (stringEnd (escaped ++ ['"'] ++ rest)).1 then .token .stringLiteral
        else .invalid : Shape), (stringEnd (escaped ++ ['"'] ++ rest)).2) = _
      rw [List.append_assoc, List.singleton_append, stringEnd_escaped, List.length_append]
      rfl
    change Piece.scan ('"' :: (String.ofList text).toList.flatMap Lexeme.escape ++ ['"'] ++ rest) =
      ⟨.token .stringLiteral, '"' :: (String.ofList text).toList.flatMap Lexeme.escape ++ ['"']⟩ ::
        Piece.scan rest
    rw [String.toList_ofList]
    exact scan_of_cut hcut
  | @identifier first tail hfirst htail hword =>
    have hkind : wordKind (first :: tail) = .identifier := by rw [wordKind, hword]
    change Piece.scan ((String.ofList (first :: tail)).toList ++ rest) =
      ⟨.token .identifier, (String.ofList (first :: tail)).toList⟩ :: Piece.scan rest
    rw [String.toList_ofList, ← hkind]
    exact scan_of_cut (cut_word hfirst htail hrest)
  | @variableName first tail hfirst htail =>
    change Piece.scan ('@' :: (String.ofList (first :: tail)).toList ++ rest) =
      ⟨.token .variableName, '@' :: (String.ofList (first :: tail)).toList⟩ :: Piece.scan rest
    rw [String.toList_ofList]
    exact scan_of_cut (sigil_name hfirst htail hrest)
  | @memberName first tail hfirst htail =>
    change Piece.scan ('$' :: (String.ofList (first :: tail)).toList ++ rest) =
      ⟨.token .memberName, '$' :: (String.ofList (first :: tail)).toList⟩ :: Piece.scan rest
    rw [String.toList_ofList]
    exact scan_of_cut (sigil_name hfirst htail hrest)

/-- Digits begin with a digit. -/
theorem Lexical.first_digit {text : List Char} (h : (Lexeme.digits text).Lexical) :
    ∃ first tail, text = first :: tail ∧ isDigit first = true := by
  have hkind := kind_digits text
  generalize heq : Lexeme.digits text = lexeme at h hkind
  cases h with
  | @digits first tail hfirst _ _ =>
    have htext : String.ofList text = String.ofList (first :: tail) := congrArg Lexeme.text heq
    exact ⟨first, tail, String.ofList_injective htext, hfirst⟩
  | _ => rcases hkind with hkind | hkind <;> cases hkind

/-- A symbol that is not lengthened by a digit. -/
theorem endsBefore_of_digit {mark : Symbol} {first : Char} {rest : List Char}
    (h : isDigit first = true) : (Lexeme.mark (.symbol mark)).EndsBefore (first :: rest) := by
  refine ⟨?_, ?_⟩
  · rw [Symbol.longest?_append (Symbol.halts_of_digit h), Symbol.longest?_chars]
  · rintro - _ ⟨⟩
    refine ⟨?_, ?_⟩
    all_goals
      rintro rfl
      cases h

/-! ### Several lexemes -/

/-- Lexemes none of which is lengthened by what stands behind it. -/
def Discrete : List Lexeme → List Char → Prop
  | [], _ => True
  | lexeme :: lexemes, rest =>
    lexeme.EndsBefore (lexemes.flatMap chars ++ rest) ∧ Discrete lexemes rest

theorem scan_discrete {lexemes : List Lexeme} {rest : List Char}
    (hlexical : ∀ lexeme ∈ lexemes, lexeme.Lexical) (h : Discrete lexemes rest) :
    Piece.scan (lexemes.flatMap chars ++ rest) = lexemes.map piece ++ Piece.scan rest := by
  induction lexemes with
  | nil => rfl
  | cons lexeme lexemes ih =>
    rw [List.flatMap_cons, List.append_assoc, (hlexical lexeme List.mem_cons_self).scan h.1,
      ih (fun other hother ↦ hlexical other (List.mem_cons_of_mem _ hother)) h.2]
    rfl

theorem discrete_numeral {numeral : Numeral} {rest : List Char}
    (hlexical : ∀ lexeme ∈ numeral.lexemes, lexeme.Lexical) (hrest : ∀ c ∈ rest.head?, c = ' ') :
    Discrete numeral.lexemes rest := by
  cases numeral with
  | integer text => exact ⟨endsBefore_of_blank _ hrest, trivial⟩
  | decimal text =>
    have hfraction : (Lexeme.digits (text.toList.dropWhile (· != '.')).tail).Lexical :=
      hlexical _ (by simp [Numeral.lexemes])
    obtain ⟨first, tail, htext, hfirst⟩ := hfraction.first_digit
    refine ⟨endsBefore_digits.mpr ?_, ?_, endsBefore_of_blank _ hrest, trivial⟩
    · rintro _ ⟨⟩
      rfl
    · rw [List.flatMap_singleton, chars_digits, htext]
      exact endsBefore_of_digit hfirst

theorem first_digit_of_numeral {numeral : Numeral}
    (hlexical : ∀ lexeme ∈ numeral.lexemes, lexeme.Lexical) :
    ∃ first tail, numeral.lexemes.flatMap chars = first :: tail ∧ isDigit first = true := by
  cases numeral with
  | integer text =>
    obtain ⟨first, tail, htext, hfirst⟩ := (hlexical _ List.mem_cons_self).first_digit
    exact ⟨first, tail, by rw [Numeral.lexemes, List.flatMap_singleton, chars_digits, htext],
      hfirst⟩
  | decimal text =>
    obtain ⟨first, tail, htext, hfirst⟩ := (hlexical _ List.mem_cons_self).first_digit
    refine ⟨first, tail ++ (Numeral.decimal text).lexemes.tail.flatMap chars, ?_, hfirst⟩
    rw [Numeral.lexemes, List.flatMap_cons, chars_digits, htext]
    rfl

end Lexeme

/-! ### Wordings -/

/-- A wording that a text can hold. -/
structure Wording.Lexical (wording : Wording) : Prop where
  lexemes : ∀ lexeme ∈ wording.usual, lexeme.Lexical
  pair : ∀ first second, wording = .pair first second → first.isEdgeEnd second = true

theorem Wording.Lexical.discrete {wording : Wording} (h : wording.Lexical) {rest : List Char}
    (hrest : ∀ c ∈ rest.head?, c = ' ') : Lexeme.Discrete wording.usual rest := by
  cases wording with
  | lexeme kind text => exact ⟨Lexeme.endsBefore_of_blank _ hrest, trivial⟩
  | choice synonym => exact ⟨Lexeme.endsBefore_of_blank _ hrest, trivial⟩
  | pair first second =>
    have hends := h.pair first second rfl
    refine ⟨⟨?_, ?_⟩, Lexeme.endsBefore_of_blank _ hrest, trivial⟩
    · change Symbol.longest? (first.chars ++ (second.chars ++ [] ++ rest)) = some first
      rw [List.append_nil, ← List.append_assoc,
        Symbol.longest?_append (Symbol.halts_of_blank hrest), Symbol.longest?_edgeEnd hends]
    · rintro rfl
      rcases Symbol.of_isEdgeEnd hends with heq | heq <;> cases heq
  | number numeral => exact Lexeme.discrete_numeral h.lexemes hrest
  | argument numeral =>
    have hlexemes := h.lexemes
    simp only [usual] at hlexemes ⊢
    split at hlexemes
    · have hunsigned : ∀ lexeme ∈ numeral.unsigned.lexemes, lexeme.Lexical :=
        fun lexeme hmem ↦ hlexemes lexeme (List.mem_cons_of_mem _ hmem)
      obtain ⟨first, tail, hchars, hfirst⟩ := Lexeme.first_digit_of_numeral hunsigned
      rw [if_pos ‹_›]
      refine ⟨?_, Lexeme.discrete_numeral hunsigned hrest⟩
      rw [hchars]
      exact Lexeme.endsBefore_of_digit hfirst
    · rw [if_neg ‹_›]
      exact Lexeme.discrete_numeral hlexemes hrest

/-- A wording with a blank or nothing behind it is cut into its usual lexemes. -/
theorem Wording.Lexical.scan {wording : Wording} (h : wording.Lexical) {rest : List Char}
    (hrest : ∀ c ∈ rest.head?, c = ' ') :
    Piece.scan (wording.chars ++ rest) = wording.usual.map Lexeme.piece ++ Piece.scan rest :=
  Lexeme.scan_discrete h.lexemes (h.discrete hrest)

end CorpusQuery
