import CorpusQuery.Proofs.Lexicon.Cut
import CorpusQuery.Proofs.Lexicon.Range

/-!
Every token is the longest word that stands where the token begins, and the pattern of this word
says what kind the token has. Only a word in the shape of an identifier can be more: it is reserved
if it has the letters of a reserved word, be they small or capital (`Pattern.gives_wordKind`). A
block comment that is skipped ends with the first star behind its opening that a slash follows, and
no token reaches into it (`Lexed.longest_match`).
-/

set_option autoImplicit false
set_option relaxedAutoImplicit false

namespace CorpusQuery

open CorpusQuery.Piece

/-! ### Reserved words -/

/-- Two words with the same letters, be they small or capital. -/
def SameLetters (word other : List Char) : Prop := word.map Char.toLower = other.map Char.toLower

instance (word other : List Char) : Decidable (SameLetters word other) :=
  inferInstanceAs (Decidable (_ = _))

theorem toNat_toLower (c : Char) :
    c.toLower.toNat = if 65 ≤ c.toNat ∧ c.toNat ≤ 90 then c.toNat + 32 else c.toNat := by
  unfold Char.toLower
  split
  · rename_i h
    have hrange : 65 ≤ c.toNat ∧ c.toNat ≤ 90 := by simpa [UInt32.le_iff_toNat_le] using h
    rw [if_pos hrange]
    change (c.val + 32).toNat = c.toNat + 32
    rw [UInt32.toNat_add]
    change (c.toNat + 32) % 2 ^ 32 = _
    omega
  · rename_i h
    rw [if_neg fun hrange ↦ h (by simpa [UInt32.le_iff_toNat_le] using hrange)]

theorem toNat_toUpper (c : Char) :
    c.toUpper.toNat = if 97 ≤ c.toNat ∧ c.toNat ≤ 122 then c.toNat - 32 else c.toNat := by
  unfold Char.toUpper
  split
  · rename_i h
    have hrange : 97 ≤ c.toNat ∧ c.toNat ≤ 122 := by simpa [UInt32.le_iff_toNat_le] using h
    rw [if_pos hrange]
    change (c.val + 4294967264).toNat = c.toNat - 32
    rw [UInt32.toNat_add]
    change (c.toNat + 4294967264) % 2 ^ 32 = _
    omega
  · rename_i h
    rw [if_neg fun hrange ↦ h (by simpa [UInt32.le_iff_toNat_le] using hrange)]

theorem toUpper_eq_iff {c d : Char} : c.toUpper = d.toUpper ↔ c.toLower = d.toLower := by
  simp only [← Char.toNat_inj, toNat_toLower, toNat_toUpper]
  split <;> split <;> split <;> split <;> omega

/-- It makes no difference whether letters are compared as small or as capital ones. -/
theorem map_toUpper_eq_iff {word other : List Char} :
    word.map Char.toUpper = other.map Char.toUpper ↔ SameLetters word other := by
  unfold SameLetters
  induction word generalizing other with
  | nil => simp
  | cons c word ih =>
    cases other with
    | nil => simp
    | cons d other => simp only [List.map_cons, List.cons.injEq, toUpper_eq_iff, ih]

theorem Keyword.ofChars?_eq_some_iff {word : List Char} {keyword : Keyword} :
    ofChars? word = some keyword ↔ SameLetters word keyword.spelling.toList := by
  have hvalues : ∀ keyword ∈ values, keyword.spelling.toList.map Char.toUpper =
      keyword.spelling.toList ∧ ofChars? keyword.spelling.toList = some keyword := by
    decide +kernel
  obtain ⟨hcapital, hself⟩ := hvalues keyword keyword.mem_values
  rw [← map_toUpper_eq_iff, hcapital]
  constructor
  · intro h
    exact (beq_iff_eq.mp (List.find?_some (p := fun keyword : Keyword ↦
      keyword.spelling.toList == word.map Char.toUpper) h)).symm
  · intro h
    rw [← hself, ofChars?, ofChars?, h, hcapital]

namespace Pattern

/-- The kind of a token that is a word of the pattern. A word in the shape of an identifier is
reserved exactly if it has the letters of a reserved word. -/
def Gives (pattern : Pattern) (word : List Char) (kind : Kind) : Prop :=
  match pattern with
  | .blanks | .lineComment | .blockComment => False
  | .pureDigits => kind = .pureDigits
  | .digits => kind = .digits
  | .stringLiteral => kind = .stringLiteral
  | .identifier =>
    (∀ reserved : Kind, reserved.isKeyword = true →
      (kind = reserved ↔ SameLetters word reserved.text.toList)) ∧
        (kind.isKeyword = true ∨ kind = .identifier)
  | .variableName => kind = .variableName
  | .memberName => kind = .memberName
  | .symbol mark => kind = .symbol mark

theorem gives_wordKind (word : List Char) : identifier.Gives word (wordKind word) := by
  refine ⟨fun reserved hreserved ↦ ?_, ?_⟩
  · cases reserved with
    | keyword keyword =>
      change _ ↔ SameLetters word keyword.spelling.toList
      rw [← Keyword.ofChars?_eq_some_iff, wordKind]
      cases Keyword.ofChars? word with
      | none => exact iff_of_false (fun h ↦ by cases h) fun h ↦ by cases h
      | some found => rw [Option.some.injEq, Kind.keyword.injEq]
    | _ => cases hreserved
  · rw [wordKind]
    cases Keyword.ofChars? word with
    | none => exact .inr rfl
    | some found => exact .inl rfl

/-- There are 51 kinds of reserved words. -/
example : (Kind.values.filter Kind.isKeyword).length = 51 := by decide

theorem gives_of_shape {pattern : Pattern} {word : List Char} {kind : Kind}
    (h : pattern.shape word = .token kind) : pattern.Gives word kind := by
  cases pattern with
  | blanks | lineComment | blockComment => cases h
  | identifier =>
    cases h
    exact gives_wordKind word
  | _ =>
    cases h
    rfl

end Pattern

/-! ### Comments -/

/-- A comment ends with the first star that a slash follows. -/
theorem exists_of_commentEnd? {text : List Char} (h : commentEnd? text = some text.length) :
    ∃ body, text = body ++ ['*', '/'] ∧ ¬ ['*', '/'] <:+: body ++ ['*'] := by
  fun_induction commentEnd? text with
  | case1 => cases h
  | case2 rest =>
    have hlength : 2 = rest.length + 1 + 1 := Option.some.inj h
    obtain rfl : rest = [] := List.eq_nil_of_length_eq_zero (by omega)
    exact ⟨[], rfl, by decide⟩
  | case3 c rest hopen ih =>
    obtain ⟨length, hlength, hsucc⟩ := Option.map_eq_some_iff.mp h
    obtain rfl : length = rest.length := Nat.succ.inj hsucc
    obtain ⟨body, rfl, hbody⟩ := ih hlength
    refine ⟨c :: body, rfl, fun hinfix ↦ ?_⟩
    rcases List.infix_cons_iff.mp hinfix with hprefix | hinfix
    · obtain ⟨rfl, htail⟩ := List.cons_prefix_cons.mp hprefix
      cases body with
      | nil => exact absurd (List.cons_prefix_cons.mp htail).1 (by decide)
      | cons d body =>
        obtain ⟨rfl, -⟩ := List.cons_prefix_cons.mp htail
        exact hopen _ rfl rfl
    · exact hbody hinfix

/-! ### Tokens -/

namespace Lexed

/-- A token is what it is because the text where it stands begins with this longest word. -/
def IsLongest (text : List Char) (token : Token) : Prop :=
  ∃ (pattern : Pattern) (word after : List Char),
    Text.dropBytes? token.span.start text = some (word ++ after) ∧
      Text.slice? text token.span.start token.span.stop = some word ∧
        pattern.Longest word (word ++ after) ∧ pattern.Gives word token.kind

theorem shape_of_token? {placed : Placed} {token : Token} (h : placed.token? = some token) :
    placed.piece.shape = .token token.kind := by
  unfold Placed.token? at h
  split at h
  · rename_i hshape
    cases h
    exact hshape
  · cases h
  · cases h

theorem isLongest_of_mem {text : List Char} {placed : Placed} {token : Token}
    (h : placed ∈ place 0 (scan text)) (htoken : placed.token? = some token) :
    IsLongest text token := by
  obtain ⟨before, first, rest, rfl, hoffset, hpiece⟩ := cut_of_mem_place h
  have hshape : (cut first rest).1 = .token token.kind := by
    rw [← shape_of_token? htoken, hpiece]
  have hvalid : (cut first rest).1 ≠ .invalid := by
    rw [hshape]
    nofun
  obtain ⟨pattern, hlongest, hpattern⟩ := Pattern.longest_of_cut hvalid
  have hspan : token.span = ⟨Text.byteLength before, Text.byteLength before +
      Text.byteLength (first :: rest.take (cut first rest).2)⟩ := by
    rw [span_of_token? htoken, Placed.span, hoffset, hpiece]
  have htext : first :: rest = first :: rest.take (cut first rest).2 ++
      rest.drop (cut first rest).2 := by
    rw [List.cons_append, List.take_append_drop]
  refine ⟨pattern, first :: rest.take (cut first rest).2, rest.drop (cut first rest).2,
    ?_, ?_, ?_, ?_⟩
  · rw [hspan, ← htext, Text.dropBytes?_append]
  · rw [hspan, htext, Text.slice?_append]
  · rw [← htext]
    exact hlongest
  · exact Pattern.gives_of_shape (hpattern.symm.trans hshape)

/-- A comment that ends with the first star behind its opening that a slash follows, and that no
token reaches into. -/
structure BlockComment (text : List Char) (tokens : List Token) (placed : Placed) : Prop where
  closed : ∃ body after, placed.piece.text = ['/', '*'] ++ body ++ ['*', '/'] ∧
    Text.dropBytes? placed.offset text = some (placed.piece.text ++ after) ∧
      ¬ ['*', '/'] <:+: body ++ ['*']
  untouched : ∀ token ∈ tokens, token.span.Apart placed.span

/-- A word of a pattern that opens like a block comment is one, and ends where it can. -/
theorem exists_of_opening {pattern : Pattern} {word : List Char} (h : word ∈ pattern.language)
    (hopening : ['/', '*'] <+: word) :
    ∃ body, word = ['/', '*'] ++ body ++ ['*', '/'] ∧ ¬ ['*', '/'] <:+: body ++ ['*'] := by
  obtain ⟨tail, rfl⟩ := hopening
  obtain rfl : .blockComment = pattern := by
    obtain ⟨_, _, ⟨⟩, hpattern⟩ := Pattern.ofCut?_of_mem h
    exact Option.some.inj hpattern
  obtain ⟨_, ⟨⟩, hbody⟩ := Pattern.mem_blockComment.mp h
  have hend := Pattern.commentEnd?_of_mem hbody []
  rw [List.append_nil] at hend
  obtain ⟨body, rfl, hfirst⟩ := exists_of_commentEnd? hend
  exact ⟨body, rfl, hfirst⟩

/-- No token reaches into what is skipped. -/
theorem apart_of_skipped {text : List Char} {placed : Placed} (h : placed ∈ place 0 (scan text))
    (hskipped : placed.piece.shape = .skipped) :
    ∀ token ∈ (place 0 (scan text)).filterMap Placed.token?, token.span.Apart placed.span := by
  intro token htoken
  obtain ⟨other, hother, htoken⟩ := List.mem_filterMap.mp htoken
  have hne : other ≠ placed := by
    rintro rfl
    rw [token?_of_skipped hskipped] at htoken
    cases htoken
  have hsymm : Std.Symm fun first second : Placed ↦ first.span.Apart second.span :=
    ⟨fun _ _ ↦ Or.symm⟩
  have hapart : (place 0 (scan text)).Pairwise fun first second ↦ first.span.Apart second.span :=
    (pairwise_place 0 (scan text)).imp .inl
  rw [span_of_token? htoken]
  exact hapart.forall hother h hne

theorem blockComment_of_mem {text : List Char} {placed : Placed} (h : placed ∈ place 0 (scan text))
    (hskipped : placed.piece.shape = .skipped) (hopening : ['/', '*'] <+: placed.piece.text) :
    BlockComment text ((place 0 (scan text)).filterMap Placed.token?) placed := by
  refine ⟨?_, apart_of_skipped h hskipped⟩
  obtain ⟨before, first, rest, htext, hoffset, hpiece⟩ := cut_of_mem_place h
  have hvalid : (cut first rest).1 ≠ .invalid := by
    rw [hpiece] at hskipped
    exact fun hinvalid ↦ absurd (hinvalid.symm.trans hskipped) (by decide)
  have hpieceText : placed.piece.text = first :: rest.take (cut first rest).2 :=
    congrArg Piece.text hpiece
  obtain ⟨pattern, hmem, -⟩ := Pattern.cuts_of_cut hvalid
  obtain ⟨body, hbody, hfirst⟩ := exists_of_opening (hpieceText ▸ hmem) hopening
  refine ⟨body, rest.drop (cut first rest).2, hbody, ?_, hfirst⟩
  rw [hpieceText, List.cons_append, List.take_append_drop, hoffset, htext, Text.dropBytes?_append]

/-- Every token before the end of input is the longest word of any pattern that stands where the
token begins, and has the kind that the pattern of this word gives. A block comment that is skipped
ends with the first `*/` behind its opening, and nothing in it is part of a token. -/
theorem longest_match (source : String) :
    ∃ tokens, (ofSource source).tokens = tokens ++ [.endAt (Text.byteLength source.toList)] ∧
      (∀ token ∈ tokens, IsLongest source.toList token) ∧
        ∀ placed ∈ place 0 (scan source.toList), placed.piece.shape = .skipped →
          ['/', '*'] <+: placed.piece.text → BlockComment source.toList tokens placed := by
  refine ⟨_, ofChars_tokens source.toList, fun token htoken ↦ ?_, fun placed hplaced ↦ ?_⟩
  · obtain ⟨placed, hplaced, htoken⟩ := List.mem_filterMap.mp htoken
    exact isLongest_of_mem hplaced htoken
  · exact blockComment_of_mem hplaced

end Lexed

end CorpusQuery
