import CorpusQuery.Lexed
import CorpusQuery.Proofs.Spelling.Ready

/-!
What a text can hold. `Lexeme.Lexical` lists the lexemes that the pieces of a text can be. Every
token of a text says one of them, so its digits are classed by their separators, and its tokens end
with the only end of input (`Lexed.closing_ofSource`).
-/

set_option autoImplicit false
set_option relaxedAutoImplicit false

namespace CorpusQuery

open CorpusQuery.Piece

/-- The lexemes that a piece of a text can be. -/
inductive Lexeme.Lexical : Lexeme → Prop
  | keyword (word : Keyword) : Lexical (.mark (.keyword word))
  | symbol (mark : Symbol) : Lexical (.mark (.symbol mark))
  | digits {first : Char} {tail : List Char} (hfirst : isDigit first = true)
      (htail : ∀ c ∈ tail, isNumberChar c = true)
      (hlast : (first :: tail).getLast? ≠ some '_') : Lexical (.digits (first :: tail))
  | stringLiteral (text : List Char) : Lexical ⟨.stringLiteral, String.ofList text⟩
  | identifier {first : Char} {tail : List Char} (hfirst : isLetter first = true)
      (htail : ∀ c ∈ tail, isNameChar c = true)
      (hword : Keyword.ofChars? (first :: tail) = none) :
      Lexical ⟨.identifier, String.ofList (first :: tail)⟩
  | variableName {first : Char} {tail : List Char} (hfirst : isLetter first = true)
      (htail : ∀ c ∈ tail, isNameChar c = true) :
      Lexical ⟨.variableName, String.ofList (first :: tail)⟩
  | memberName {first : Char} {tail : List Char} (hfirst : isLetter first = true)
      (htail : ∀ c ∈ tail, isNameChar c = true) :
      Lexical ⟨.memberName, String.ofList (first :: tail)⟩

namespace Lexeme.Lexical

theorem kind_ne {lexeme : Lexeme} (h : lexeme.Lexical) : lexeme.kind ≠ .endOfInput := by
  cases h with
  | digits _ _ _ =>
    unfold Lexeme.digits
    split <;> nofun
  | _ => nofun

end Lexeme.Lexical

/-! ### Pieces -/

namespace Piece

/-- The pieces that a scan finds are cuts. -/
theorem eq_cut_of_mem_scan {text : List Char} {piece : Piece} (h : piece ∈ scan text) :
    ∃ first rest, piece = ⟨(cut first rest).1, first :: rest.take (cut first rest).2⟩ := by
  fun_induction scan text with
  | case1 => cases h
  | case2 first rest ih =>
    rcases List.mem_cons.mp h with rfl | h
    · exact ⟨first, rest, rfl⟩
    · exact ih h

/-- Joining pieces makes no token. -/
theorem mem_of_mem_join {piece other : Piece} {pieces : List Piece} {kind : Kind}
    (hshape : piece.shape = .token kind) (h : piece ∈ join other pieces) :
    piece = other ∨ piece ∈ pieces := by
  unfold join at h
  split at h
  iterate 3
    rcases List.mem_cons.mp h with rfl | h
    · cases hshape
    · exact .inr (by simp [h])
  exact List.mem_cons.mp h

theorem mem_of_mem_coalesce {piece : Piece} {pieces : List Piece} {kind : Kind}
    (hshape : piece.shape = .token kind) (h : piece ∈ coalesce pieces) : piece ∈ pieces := by
  induction pieces with
  | nil => cases h
  | cons first rest ih =>
    rcases mem_of_mem_join hshape h with rfl | h
    · exact List.mem_cons_self
    · exact List.mem_cons_of_mem _ (ih h)

theorem take_takeWhile (p : Char → Bool) (rest : List Char) :
    rest.take (rest.takeWhile p).length = rest.takeWhile p :=
  (List.prefix_iff_eq_take.mp (List.takeWhile_prefix p)).symm

theorem of_mem_takeWhile {p : Char → Bool} {rest : List Char} :
    ∀ c ∈ rest.takeWhile p, p c = true := List.all_eq_true.mp List.all_takeWhile

/-- The kind of a token that a text begins with, and what is read of the text. -/
inductive Begins (first : Char) (rest : List Char) : Kind → List Char → Prop
  | word (h : isLetter first = true) :
      Begins first rest (wordKind (first :: rest.takeWhile isNameChar))
        (rest.takeWhile isNameChar)
  | number {kind : Kind} (h : isDigit first = true)
      (hshape : numberShape (first :: rest.takeWhile isNumberChar) = .token kind) :
      Begins first rest kind (rest.takeWhile isNumberChar)
  | string (read : List Char) : Begins first rest .stringLiteral read
  | name {kind : Kind} {initial : Char} {tail : List Char} (hinitial : isLetter initial = true)
      (hkind : kind = .variableName ∨ kind = .memberName) (hrest : rest = initial :: tail) :
      Begins first rest kind (initial :: tail.takeWhile isNameChar)
  | symbol (mark : Symbol) (read : List Char) : Begins first rest (.symbol mark) read

theorem begins_of_sigil {first : Char} {rest : List Char} {kind kind' : Kind}
    (hkind : kind = .variableName ∨ kind = .memberName)
    (h : (sigil kind rest).1 = .token kind') :
    Begins first rest kind' (rest.take (sigil kind rest).2) := by
  cases rest with
  | nil => cases h
  | cons initial tail =>
    simp only [sigil] at h ⊢
    split at h
    · rename_i hinitial
      cases h
      rw [if_pos hinitial, Nat.add_comm, List.take_succ_cons, take_takeWhile]
      exact .name hinitial hkind rfl
    · cases h

theorem begins_of_cut {first : Char} {rest : List Char} {kind : Kind}
    (h : (cut first rest).1 = .token kind) :
    Begins first rest kind (rest.take (cut first rest).2) := by
  have hsymbol (h : (symbol first rest).1 = .token kind) :
      Begins first rest kind (rest.take (symbol first rest).2) := by
    unfold symbol at h
    split at h
    · cases h
      exact .symbol _ _
    · cases h
  unfold cut at h ⊢
  split at h
  · cases h
  · rename_i hblank
    rw [if_neg hblank]
    split at h
    · rename_i hletter
      cases h
      rw [if_pos hletter, take_takeWhile]
      exact .word hletter
    · rename_i hletter
      rw [if_neg hletter]
      split at h
      · rename_i hdigit
        rw [if_pos hdigit, take_takeWhile]
        exact .number hdigit h
      · rename_i hdigit
        rw [if_neg hdigit]
        split at h
        · rcases hend : stringEnd rest with ⟨_ | _, length⟩
          all_goals
            rw [hend] at h
            cases h
          exact .string _
        · exact begins_of_sigil (.inl rfl) h
        · exact begins_of_sigil (.inr rfl) h
        · cases h
        · split at h <;> cases h
        · exact hsymbol h

end Piece

/-! ### Tokens -/

theorem Lexeme.lexical_of_number {first : Char} {tail : List Char} {kind : Kind}
    (hfirst : isDigit first = true) (htail : ∀ c ∈ tail, isNumberChar c = true)
    (hshape : numberShape (first :: tail) = .token kind) :
    (⟨kind, String.ofList (first :: tail)⟩ : Lexeme).Lexical ∧
      (kind = .pureDigits ∨ kind = .digits) := by
  unfold numberShape at hshape
  split at hshape
  · cases hshape
  · rename_i hlast
    have hdigits := Lexical.digits hfirst htail hlast
    unfold Lexeme.digits at hdigits
    split at hshape
    · rename_i hseparated
      cases hshape
      rw [if_pos hseparated] at hdigits
      exact ⟨hdigits, .inr rfl⟩
    · rename_i hseparated
      cases hshape
      rw [if_neg hseparated] at hdigits
      exact ⟨hdigits, .inl rfl⟩

namespace Lexed

/-- What a token of a text says is what a piece can be. -/
theorem lexical_of_token? {placed : Placed} {first : Char} {rest : List Char} {token : Token}
    (hpiece : placed.piece = ⟨(cut first rest).1, first :: rest.take (cut first rest).2⟩)
    (h : placed.token? = some token) : token.lexeme.Lexical := by
  unfold Placed.token? at h
  split at h
  · rename_i kind hshape
    cases h
    have hbegins : Begins first rest kind (rest.take (cut first rest).2) := by
      rw [hpiece] at hshape
      exact begins_of_cut hshape
    have htext : placed.piece.text = first :: rest.take (cut first rest).2 :=
      congrArg Piece.text hpiece
    generalize rest.take (cut first rest).2 = read at hbegins htext
    unfold Token.lexeme
    cases hbegins with
    | word hletter =>
      unfold wordKind
      split
      · exact .keyword _
      · rename_i hword
        simp only [Kind.hasText, if_true, Placed.value, htext]
        exact .identifier hletter of_mem_takeWhile hword
    | number hdigit hnumber =>
      obtain ⟨hlexical, rfl | rfl⟩ := Lexeme.lexical_of_number hdigit of_mem_takeWhile hnumber
      all_goals
        simp only [Kind.hasText, if_true, Placed.value, htext]
        exact hlexical
    | string _ => exact .stringLiteral _
    | name hinitial hkind hrest =>
      rcases hkind with rfl | rfl
      all_goals
        simp only [Kind.hasText, if_true, Placed.value, htext, List.tail_cons]
      · exact .variableName hinitial of_mem_takeWhile
      · exact .memberName hinitial of_mem_takeWhile
    | symbol mark _ => exact .symbol mark
  · cases h
  · cases h

theorem piece_mem_of_mem_place {placed : Placed} {offset : Nat} {pieces : List Piece}
    (h : placed ∈ place offset pieces) : placed.piece ∈ pieces := by
  induction pieces generalizing offset with
  | nil => cases h
  | cons piece pieces ih =>
    rcases List.mem_cons.mp h with rfl | h
    · exact List.mem_cons_self
    · exact List.mem_cons_of_mem _ (ih h)

/-- Every token of a text but its end says what a piece can be. -/
theorem lexical_of_mem {text : List Char} {token : Token}
    (h : token ∈ (ofChars text).tokens.dropLast) : token.lexeme.Lexical := by
  rw [ofChars, List.dropLast_concat] at h
  obtain ⟨placed, hplaced, htoken⟩ := List.mem_filterMap.mp h
  obtain ⟨kind, hshape⟩ : ∃ kind, placed.piece.shape = .token kind := by
    unfold Placed.token? at htoken
    split at htoken
    · exact ⟨_, ‹_›⟩
    · cases htoken
    · cases htoken
  have hscan := mem_of_mem_coalesce hshape (piece_mem_of_mem_place hplaced)
  obtain ⟨first, rest, hpiece⟩ := eq_cut_of_mem_scan hscan
  exact lexical_of_token? hpiece htoken

end Lexed

/-! ### Token lists -/

theorem Token.regular_of_lexical {token : Token} (h : token.lexeme.Lexical) : token.Regular := by
  refine ⟨h.kind_ne, fun hkind ↦ ?_⟩
  have hlexeme : token.lexeme = ⟨token.kind, token.text⟩ := by
    rw [lexeme]
    rcases hkind with hkind | hkind <;> rw [hkind] <;> rfl
  have hplain {c : Char} {first : Char} {tail : List Char} (hc : isNumberChar c = false)
      (hfirst : isDigit first = true) (htail : ∀ c ∈ tail, isNumberChar c = true) :
      c ∉ first :: tail := by
    intro hmem
    rcases List.mem_cons.mp hmem with rfl | hmem
    · rw [isNumberChar, hfirst] at hc
      cases hc
    · rw [htail c hmem] at hc
      cases hc
  generalize heq : token.lexeme = lexeme at h hlexeme
  cases h with
  | @digits first tail hfirst htail _ =>
    have htext : token.text.toList = first :: tail := by
      have htext : String.ofList (first :: tail) = token.text := congrArg Lexeme.text hlexeme
      rw [← htext, String.toList_ofList]
    rw [htext]
    exact ⟨rfl, hplain rfl hfirst htail, hplain rfl hfirst htail⟩
  | _ => rcases hkind with hkind | hkind <;> rw [hkind] at hlexeme <;> cases hlexeme

theorem Closing.of_regular {tokens : List Token} {last : Token}
    (h : ∀ token ∈ tokens, token.Regular) (hlast : last.kind = .endOfInput) :
    Closing (tokens ++ [last]) := by
  induction tokens with
  | nil => exact .last hlast
  | cons token tokens ih =>
    exact .cons (h token List.mem_cons_self)
      (ih fun token hmem ↦ h token (List.mem_cons_of_mem _ hmem))

namespace Lexed

theorem closing_ofChars (text : List Char) : Closing (ofChars text).tokens := by
  refine .of_regular (fun token hmem ↦ Token.regular_of_lexical ?_) rfl
  have hmem' : token ∈ (ofChars text).tokens.dropLast := by rwa [ofChars, List.dropLast_concat]
  exact lexical_of_mem hmem'

/-- The tokens of a text are closed by the only end of input. -/
theorem closing_ofSource (source : String) : Closing (ofSource source).tokens :=
  closing_ofChars source.toList

end Lexed

end CorpusQuery
