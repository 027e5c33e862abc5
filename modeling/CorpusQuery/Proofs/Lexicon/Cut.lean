import CorpusQuery.Proofs.Lexicon.Pattern
import CorpusQuery.Proofs.Standalone.Slice

/-!
What a text is cut into. A word belongs to one pattern only, which is told by how the word begins
(`Pattern.eq_of_mem`). A cut that is not invalid is a word of a pattern (`Pattern.cuts_of_cut`), and
no word of any pattern with which the text begins is longer (`Pattern.length_le_of_mem`), so a cut
is the longest of these words (`Pattern.longest_of_cut`).
-/

set_option autoImplicit false
set_option relaxedAutoImplicit false

namespace CorpusQuery

open CorpusQuery.Piece

open scoped Computability

namespace Pattern

/-! ### The pattern of a word -/

/-- The only pattern that a word can belong to, judged by how it begins. -/
def ofCut? (first : Char) (rest : List Char) : Option Pattern :=
  if isBlank first then some .blanks
  else if isLetter first then some .identifier
  else if isDigit first then some (if rest.contains '_' then .digits else .pureDigits)
  else match first, rest with
    | '"', _ => some .stringLiteral
    | '@', _ => some .variableName
    | '$', _ => some .memberName
    | '/', '/' :: _ => some .lineComment
    | '/', '*' :: _ => some .blockComment
    | _, _ => (Symbol.values.find? fun mark ↦ mark.chars == first :: rest).map .symbol

variable {pattern other : Pattern} {first : Char} {rest word : List Char}

theorem ofCut?_of_blank (h : isBlank first = true) : ofCut? first rest = some .blanks := by
  unfold ofCut?
  rw [if_pos h]

theorem ofCut?_of_letter (h : isLetter first = true) : ofCut? first rest = some .identifier := by
  unfold ofCut?
  rw [if_neg (Bool.eq_false_iff.mp (isBlank_of_letter h)), if_pos h]

theorem ofCut?_of_digit (h : isDigit first = true) : ofCut? first rest =
    some (if rest.contains '_' then .digits else .pureDigits) := by
  unfold ofCut?
  rw [if_neg (Bool.eq_false_iff.mp (isBlank_of_digit h)),
    if_neg (Bool.eq_false_iff.mp (isLetter_of_digit h)), if_pos h]

theorem ofCut?_of_mem (h : word ∈ pattern.language) :
    ∃ first rest, word = first :: rest ∧ ofCut? first rest = some pattern := by
  cases pattern with
  | blanks =>
    obtain ⟨c, tail, rfl, hc, -⟩ := mem_blanks.mp h
    exact ⟨c, tail, rfl, ofCut?_of_blank hc⟩
  | lineComment =>
    obtain ⟨body, rfl, -⟩ := mem_lineComment.mp h
    exact ⟨_, _, rfl, rfl⟩
  | blockComment =>
    obtain ⟨body, rfl, -⟩ := mem_blockComment.mp h
    exact ⟨_, _, rfl, rfl⟩
  | pureDigits =>
    obtain ⟨c, tail, rfl, hc, htail⟩ := mem_pureDigits.mp h
    have hbar : ¬ tail.contains '_' = true :=
      fun hmem ↦ ne_underscore_of_digit (htail _ (List.contains_iff_mem.mp hmem)) rfl
    exact ⟨c, tail, rfl, by rw [ofCut?_of_digit hc, if_neg hbar]⟩
  | digits =>
    obtain ⟨c, tail, rfl, hc, -, hbar, -⟩ := mem_digits.mp h
    exact ⟨c, tail, rfl, by rw [ofCut?_of_digit hc, if_pos (List.contains_iff_mem.mpr hbar)]⟩
  | stringLiteral =>
    obtain ⟨body, rfl, -⟩ := mem_stringLiteral.mp h
    exact ⟨_, _, rfl, rfl⟩
  | identifier =>
    obtain ⟨c, tail, rfl, hc, -⟩ := mem_identifier.mp h
    exact ⟨c, tail, rfl, ofCut?_of_letter hc⟩
  | variableName =>
    obtain ⟨c, tail, rfl, -⟩ := mem_variableName.mp h
    exact ⟨_, _, rfl, rfl⟩
  | memberName =>
    obtain ⟨c, tail, rfl, -⟩ := mem_memberName.mp h
    exact ⟨_, _, rfl, rfl⟩
  | symbol mark =>
    obtain rfl := mem_symbol.mp h
    cases mark <;> exact ⟨_, _, rfl, rfl⟩

/-- A word belongs to one pattern only. -/
theorem eq_of_mem (h : word ∈ pattern.language) (hother : word ∈ other.language) :
    other = pattern := by
  obtain ⟨first, rest, rfl, hpattern⟩ := ofCut?_of_mem h
  obtain ⟨_, _, heq, hsame⟩ := ofCut?_of_mem hother
  cases heq
  exact Option.some.inj (hsame.symm.trans hpattern)

/-! ### Words of a cut -/

/-- What a piece is that consists of a word of the pattern. -/
def shape (word : List Char) : Pattern → Shape
  | .blanks | .lineComment | .blockComment => .skipped
  | .pureDigits => .token .pureDigits
  | .digits => .token .digits
  | .stringLiteral => .token .stringLiteral
  | .identifier => .token (wordKind word)
  | .variableName => .token .variableName
  | .memberName => .token .memberName
  | .symbol mark => .token (.symbol mark)

/-- A shape and a length that make the beginning of a text a word of a pattern. -/
def Cuts (first : Char) (rest : List Char) (result : Shape × Nat) : Prop :=
  ∃ pattern : Pattern, first :: rest.take result.2 ∈ pattern.language ∧
    result.1 = pattern.shape (first :: rest.take result.2)

theorem cuts_of_digit (hfirst : isDigit first = true)
    (h : numberShape (first :: rest.takeWhile isNumberChar) ≠ .invalid) :
    Cuts first rest (numberShape (first :: rest.takeWhile isNumberChar),
      (rest.takeWhile isNumberChar).length) := by
  rw [Cuts, take_takeWhile]
  have htail : ∀ c ∈ rest.takeWhile isNumberChar, isNumberChar c = true := of_mem_takeWhile
  generalize rest.takeWhile isNumberChar = tail at h htail
  unfold numberShape at h ⊢
  split at h
  · exact absurd rfl h
  rename_i hlast
  rw [if_neg hlast]
  have hfirstBar := ne_underscore_of_digit hfirst
  split
  · rename_i hbar
    have hbar : '_' ∈ tail :=
      (List.mem_cons.mp (List.contains_iff_mem.mp hbar)).resolve_left (Ne.symm hfirstBar)
    exact ⟨.digits, mem_digits.mpr ⟨first, tail, rfl, hfirst, htail, hbar, hlast⟩, rfl⟩
  · rename_i hbar
    refine ⟨.pureDigits, mem_pureDigits.mpr ⟨first, tail, rfl, hfirst, fun c hc ↦ ?_⟩, rfl⟩
    rcases Bool.or_eq_true_iff.mp (htail c hc) with hdigit | hunder
    · exact hdigit
    · rw [beq_iff_eq.mp hunder] at hc
      exact absurd (List.contains_iff_mem.mpr (List.mem_cons_of_mem _ hc)) hbar

theorem cuts_of_sigil (pattern : Pattern) {kind : Kind}
    (hlanguage : pattern.language = literal [first] * (letter * nameCharacter∗))
    (hshape : ∀ word, pattern.shape word = .token kind) (h : (sigil kind rest).1 ≠ .invalid) :
    Cuts first rest (sigil kind rest) := by
  cases rest with
  | nil => exact absurd rfl h
  | cons c tail =>
    rw [sigil] at h ⊢
    split at h
    · rename_i hc
      refine ⟨pattern, ?_, ?_⟩
      · rw [if_pos hc, Nat.add_comm, List.take_succ_cons, take_takeWhile, hlanguage]
        exact mem_sigil_mul.mpr ⟨c, _, rfl, hc, of_mem_takeWhile⟩
      · rw [if_pos hc, hshape]
    · exact absurd rfl h

theorem stringLiteral_of_stringEnd {length : Nat} (h : stringEnd rest = (true, length)) :
    '"' :: rest.take length ∈ stringLiteral.language := by
  have hle : length ≤ rest.length := by
    have hle := stringEnd_le rest
    rwa [h] at hle
  have hlength : (rest.take length).length = length := List.length_take_of_le hle
  refine mem_stringLiteral.mpr ⟨_, rfl, mem_of_stringEnd ?_⟩
  rw [hlength, ← h]
  exact stringEnd_of_isPrefix (by rw [h]) (List.take_prefix length rest) (by rw [h, hlength])

theorem blockComment_of_commentEnd? {length : Nat} (h : commentEnd? rest = some length) :
    '/' :: '*' :: rest.take length ∈ blockComment.language := by
  have hlength : (rest.take length).length = length := List.length_take_of_le (commentEnd?_le h)
  have hend := commentEnd?_of_isPrefix h (List.take_prefix length rest) (Nat.le_of_eq hlength.symm)
  refine mem_blockComment.mpr ⟨_, rfl, mem_of_commentEnd?.1 ?_⟩
  rw [hend, hlength]

theorem cuts_of_symbol (h : (Piece.symbol first rest).1 ≠ .invalid) :
    Cuts first rest (Piece.symbol first rest) := by
  rw [Piece.symbol] at h ⊢
  split at h
  · rename_i mark hmark
    refine ⟨.symbol mark, mem_symbol.mpr ?_, rfl⟩
    obtain ⟨c, tail, hchars⟩ := Lexeme.chars_symbol mark
    have hprefix := Symbol.prefix_of_longest? hmark
    rw [hchars] at hprefix ⊢
    obtain ⟨rfl, htail⟩ := List.cons_prefix_cons.mp hprefix
    exact congrArg (c :: ·) (List.prefix_iff_eq_take.mp htail).symm
  · exact absurd rfl h

/-- A cut that is not invalid is a word of a pattern. -/
theorem cuts_of_cut (h : (cut first rest).1 ≠ .invalid) : Cuts first rest (cut first rest) := by
  unfold cut at h ⊢
  split at h
  · rename_i hblank
    rw [if_pos hblank, Cuts, take_takeWhile]
    exact ⟨.blanks, mem_blanks.mpr ⟨first, _, rfl, hblank, of_mem_takeWhile⟩, rfl⟩
  rename_i hblank
  rw [if_neg hblank]
  split at h
  · rename_i hletter
    rw [if_pos hletter, Cuts, take_takeWhile]
    exact ⟨.identifier, mem_identifier.mpr ⟨first, _, rfl, hletter, of_mem_takeWhile⟩, rfl⟩
  rename_i hletter
  rw [if_neg hletter]
  split at h
  · rename_i hdigit
    rw [if_pos hdigit]
    exact cuts_of_digit hdigit h
  rename_i hdigit
  rw [if_neg hdigit]
  split at h
  · rcases hend : stringEnd rest with ⟨_ | _, length⟩
    · rw [hend] at h
      exact absurd rfl h
    · exact ⟨.stringLiteral, stringLiteral_of_stringEnd hend, rfl⟩
  · exact cuts_of_sigil .variableName rfl (fun _ ↦ rfl) h
  · exact cuts_of_sigil .memberName rfl (fun _ ↦ rfl) h
  · rename_i comment
    refine ⟨.lineComment, ?_, rfl⟩
    rw [Nat.add_comm, List.take_succ_cons, take_takeWhile]
    exact mem_lineComment.mpr ⟨_, rfl, of_mem_takeWhile⟩
  · rename_i comment
    split at h
    · rename_i length hlength
      refine ⟨.blockComment, ?_, rfl⟩
      rw [Nat.add_comm, List.take_succ_cons]
      exact blockComment_of_commentEnd? hlength
    · exact absurd rfl h
  · exact cuts_of_symbol h

/-! ### No longer word -/

theorem cut_blockComment {body : List Char} (h : body ∈ commentBody) :
    cut '/' ('*' :: body ++ rest) = (.skipped, 1 + body.length) := by
  have hend : commentEnd? (body ++ rest) = some body.length := commentEnd?_of_mem h rest
  rw [List.cons_append, cut]
  simp [isBlank, isLetter, isDigit, hend]

theorem cut_stringLiteral {body : List Char} (h : body ∈ stringCharacter∗ * literal ['"']) :
    cut '"' (body ++ rest) = (.token .stringLiteral, body.length) := by
  change ((if (stringEnd (body ++ rest)).1 then .token .stringLiteral else .invalid : Shape),
    (stringEnd (body ++ rest)).2) = _
  rw [stringEnd_of_mem h]
  rfl

theorem length_le_takeWhile {p : Char → Bool} {tail : List Char} (htail : ∀ c ∈ tail, p c = true)
    (h : tail <+: rest) : tail.length ≤ (rest.takeWhile p).length := by
  obtain ⟨more, rfl⟩ := h
  rw [List.takeWhile_append_of_pos htail, List.length_append]
  exact Nat.le_add_right _ _

theorem length_le_number {tail : List Char} (hfirst : isDigit first = true)
    (htail : ∀ c ∈ tail, isNumberChar c = true) (h : tail <+: rest) :
    tail.length ≤ (cut first rest).2 := by
  unfold cut
  rw [if_neg (Bool.eq_false_iff.mp (isBlank_of_digit hfirst)),
    if_neg (Bool.eq_false_iff.mp (isLetter_of_digit hfirst)), if_pos hfirst]
  exact length_le_takeWhile htail h

theorem length_le_sigil {kind : Kind} {c : Char} {tail : List Char} (hc : isLetter c = true)
    (htail : ∀ d ∈ tail, isNameChar d = true) (h : c :: tail <+: rest) :
    (c :: tail).length ≤ (sigil kind rest).2 := by
  obtain ⟨more, rfl⟩ := h
  have hle := length_le_takeWhile htail (List.prefix_append tail more)
  rw [List.cons_append, sigil, if_pos hc, List.length_cons]
  omega

theorem of_foldl_longer_eq_none {symbols : List Symbol} {held? : Option Symbol}
    (h : symbols.foldl Symbol.longer held? = none) : symbols = [] := by
  induction symbols generalizing held? with
  | nil => rfl
  | cons symbol symbols ih =>
    obtain ⟨next, hnext, -⟩ := Symbol.exists_longer held? symbol
    rw [List.foldl_cons, hnext] at h
    obtain rfl := ih h
    cases h

/-- A text that begins with a symbol has a longest one. -/
theorem exists_longest? {mark : Symbol} {text : List Char} (h : mark.chars <+: text) :
    ∃ longest, Symbol.longest? text = some longest ∧
      mark.chars.length ≤ longest.chars.length := by
  have hmem : mark ∈ Symbol.values.filter fun symbol ↦ symbol.chars.isPrefixOf text :=
    List.mem_filter.mpr ⟨mark.mem_values, List.isPrefixOf_iff_prefix.mpr h⟩
  cases hlongest : Symbol.longest? text with
  | none =>
    rw [of_foldl_longer_eq_none hlongest] at hmem
    cases hmem
  | some longest =>
    obtain ⟨-, hle, -⟩ := Symbol.of_foldl_longer hlongest
    exact ⟨longest, rfl, hle mark hmem⟩

theorem length_le_symbol {mark : Symbol} {tail : List Char} (hchars : mark.chars = first :: tail)
    (h : tail <+: rest) : tail.length ≤ (cut first rest).2 := by
  have hfirst := Symbol.isMarkChar_of_mem (hchars ▸ List.mem_cons_self : first ∈ mark.chars)
  obtain ⟨longest, hlongest, hle⟩ :=
    exists_longest? (hchars ▸ List.cons_prefix_cons.mpr ⟨rfl, h⟩ : mark.chars <+: first :: rest)
  by_cases hslash : first = '/'
  · obtain rfl : mark = .slash := by
      subst hslash
      cases mark <;> cases hchars
      rfl
    cases hchars
    exact Nat.zero_le _
  · rw [cut_eq_symbol hfirst fun h ↦ absurd h hslash, Piece.symbol, hlongest]
    rw [hchars, List.length_cons] at hle
    exact Nat.le_sub_of_add_le hle

/-- No word of a pattern that a text begins with is longer than the cut. -/
theorem length_le_of_mem {tail : List Char} (h : first :: tail ∈ pattern.language)
    (htail : tail <+: rest) : tail.length ≤ (cut first rest).2 := by
  cases pattern with
  | blanks =>
    obtain ⟨_, _, ⟨⟩, hc, hblanks⟩ := mem_blanks.mp h
    unfold cut
    rw [if_pos hc]
    exact length_le_takeWhile hblanks htail
  | lineComment =>
    obtain ⟨body, ⟨⟩, hbody⟩ := mem_lineComment.mp h
    obtain ⟨comment, rfl⟩ := htail
    have hle := length_le_takeWhile hbody (List.prefix_append body comment)
    change _ ≤ 1 + ((body ++ comment).takeWhile (· != '\n')).length
    rw [List.length_cons]
    omega
  | blockComment =>
    obtain ⟨body, ⟨⟩, hbody⟩ := mem_blockComment.mp h
    obtain ⟨comment, rfl⟩ := htail
    rw [cut_blockComment hbody, List.length_cons, Nat.add_comm]
  | pureDigits =>
    obtain ⟨_, _, ⟨⟩, hc, hdigits⟩ := mem_pureDigits.mp h
    exact length_le_number hc (fun d hd ↦ isNumberChar_of_digit (hdigits d hd)) htail
  | digits =>
    obtain ⟨_, _, ⟨⟩, hc, hdigits, -⟩ := mem_digits.mp h
    exact length_le_number hc hdigits htail
  | stringLiteral =>
    obtain ⟨_, ⟨⟩, hbody⟩ := mem_stringLiteral.mp h
    obtain ⟨more, rfl⟩ := htail
    rw [cut_stringLiteral hbody]
  | identifier =>
    obtain ⟨_, _, ⟨⟩, hc, hname⟩ := mem_identifier.mp h
    unfold cut
    rw [if_neg (Bool.eq_false_iff.mp (isBlank_of_letter hc)), if_pos hc]
    exact length_le_takeWhile hname htail
  | variableName =>
    obtain ⟨_, _, ⟨⟩, hc, hname⟩ := mem_variableName.mp h
    exact length_le_sigil hc hname htail
  | memberName =>
    obtain ⟨_, _, ⟨⟩, hc, hname⟩ := mem_memberName.mp h
    exact length_le_sigil hc hname htail
  | symbol mark => exact length_le_symbol (mem_symbol.mp h).symm htail

/-- A word of the pattern, and of no other pattern, that a text begins with and that is the longest
of all the words that the text begins with. -/
structure Longest (pattern : Pattern) (word text : List Char) : Prop where
  isPrefix : word <+: text
  mem_iff : ∀ other : Pattern, word ∈ other.language ↔ other = pattern
  length_le : ∀ (other : Pattern) (longer : List Char), longer <+: text →
    longer ∈ other.language → longer.length ≤ word.length

/-- A cut that is not invalid is a longest word. -/
theorem longest_of_cut (h : (cut first rest).1 ≠ .invalid) :
    ∃ pattern : Pattern, pattern.Longest (first :: rest.take (cut first rest).2) (first :: rest) ∧
      (cut first rest).1 = pattern.shape (first :: rest.take (cut first rest).2) := by
  obtain ⟨pattern, hmem, hshape⟩ := cuts_of_cut h
  refine ⟨pattern, ⟨?_, fun other ↦ ⟨eq_of_mem hmem, ?_⟩, fun other longer hlonger hother ↦ ?_⟩,
    hshape⟩
  · exact List.cons_prefix_cons.mpr ⟨rfl, List.take_prefix _ _⟩
  · rintro rfl
    exact hmem
  · rcases List.prefix_cons_iff.mp hlonger with rfl | ⟨tail, rfl, htail⟩
    · exact Nat.zero_le _
    · rw [List.length_cons, List.length_cons, List.length_take_of_le (cut_le first rest)]
      exact Nat.succ_le_succ (length_le_of_mem hother htail)

end Pattern

end CorpusQuery
