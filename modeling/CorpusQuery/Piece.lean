import CorpusQuery.Text.Bytes
import CorpusQuery.Token.Kind

/-!
The pieces of a source text. `scan` cuts a text from left to right into tokens, skipped input and
invalid input. Each cut is made at the longest token or skipped input that starts there; where a
token has begun that cannot be ended, all of what was read is invalid and no shorter token is tried.
Nothing is lost: the pieces put together are the text (`flatten_scan`).

`coalesce` puts neighbouring pieces together until every stretch between two tokens holds at most
one invalid piece, which reaches from the first invalid character of the stretch to the last.
-/

set_option autoImplicit false
set_option relaxedAutoImplicit false

namespace CorpusQuery

/-- What a piece of a source text is. -/
inductive Shape where
  | token (kind : Kind)
  /-- Blanks and comments. -/
  | skipped
  | invalid
  deriving DecidableEq, Repr

/-- A stretch of a source text. -/
structure Piece where
  shape : Shape
  text : List Char
  deriving DecidableEq, Repr

namespace Piece

/-! ### Classes of characters -/

def isBlank (c : Char) : Bool := c == ' ' || c == '\t' || c == '\r' || c == '\n' || c == '\x0c'

def isLetter (c : Char) : Bool := ('a' ≤ c && c ≤ 'z') || ('A' ≤ c && c ≤ 'Z')

def isDigit (c : Char) : Bool := '0' ≤ c && c ≤ '9'

/-- Characters that continue a name. -/
def isNameChar (c : Char) : Bool := isLetter c || isDigit c || c == '_'

/-- Characters that continue a number. -/
def isNumberChar (c : Char) : Bool := isDigit c || c == '_'

/-! ### Where a piece ends

Each of the following functions is given the text behind the first character of a piece and counts
how many characters of it belong to the piece. -/

/-- The length of a block comment up to and including its first `*/`. -/
def commentEnd? : List Char → Option Nat
  | [] => none
  | '*' :: '/' :: _ => some 2
  | _ :: rest => (commentEnd? rest).map (· + 1)

/-- The length of a string behind its opening quote, and whether it is closed. An open string ends
before the line break or at the end of the text. -/
def stringEnd : List Char → Bool × Nat
  | [] => (false, 0)
  | '"' :: _ => (true, 1)
  | '\n' :: _ => (false, 0)
  | ['\\'] => (false, 1)
  | '\\' :: '\n' :: _ => (false, 1)
  | '\\' :: _ :: rest => (stringEnd rest).map id (· + 2)
  | _ :: rest => (stringEnd rest).map id (· + 1)

/-- A word is a reserved word or an identifier. -/
def wordKind (word : List Char) : Kind :=
  match Keyword.ofChars? word with
  | some keyword => .keyword keyword
  | none => .identifier

/-- A number that ends in an underscore is broken off. -/
def numberShape (number : List Char) : Shape :=
  if number.getLast? = some '_' then .invalid
  else if number.contains '_' then .token .digits
  else .token .pureDigits

/-- A name behind a sigil. -/
def sigil (kind : Kind) : List Char → Shape × Nat
  | [] => (.invalid, 0)
  | c :: rest =>
    if isLetter c then (.token kind, 1 + (rest.takeWhile isNameChar).length) else (.invalid, 0)

/-- A symbol, or else a character that begins nothing. -/
def symbol (first : Char) (rest : List Char) : Shape × Nat :=
  match Symbol.longest? (first :: rest) with
  | some mark => (.token (.symbol mark), mark.chars.length - 1)
  | none => (.invalid, 0)

/-- The shape of the piece that starts with `first`, and how many characters of `rest` it takes. -/
def cut (first : Char) (rest : List Char) : Shape × Nat :=
  if isBlank first then (.skipped, (rest.takeWhile isBlank).length)
  else if isLetter first then
    let tail := rest.takeWhile isNameChar
    (.token (wordKind (first :: tail)), tail.length)
  else if isDigit first then
    let tail := rest.takeWhile isNumberChar
    (numberShape (first :: tail), tail.length)
  else match first, rest with
    | '"', _ =>
      let (closed, length) := stringEnd rest
      (if closed then .token .stringLiteral else .invalid, length)
    | '@', _ => sigil .variableName rest
    | '$', _ => sigil .memberName rest
    | '/', '/' :: comment => (.skipped, 1 + (comment.takeWhile (· != '\n')).length)
    | '/', '*' :: comment =>
      match commentEnd? comment with
      | some length => (.skipped, 1 + length)
      | none => (.invalid, rest.length)
    | _, _ => symbol first rest

/-- The pieces of a text, from left to right. -/
def scan : List Char → List Piece
  | [] => []
  | first :: rest =>
    ⟨(cut first rest).1, first :: rest.take (cut first rest).2⟩ ::
      scan (rest.drop (cut first rest).2)
termination_by text => text.length
decreasing_by
  simp only [List.length_drop, List.length_cons]
  omega

/-- Puts a piece in front of pieces that are already coalesced. -/
def join (piece : Piece) (rest : List Piece) : List Piece :=
  match piece.shape, rest with
  | .skipped, ⟨.skipped, text⟩ :: tail => ⟨.skipped, piece.text ++ text⟩ :: tail
  | .invalid, ⟨.invalid, text⟩ :: tail => ⟨.invalid, piece.text ++ text⟩ :: tail
  | .invalid, ⟨.skipped, gap⟩ :: ⟨.invalid, text⟩ :: tail =>
    ⟨.invalid, piece.text ++ gap ++ text⟩ :: tail
  | _, _ => piece :: rest

/-- Joins what lies between two tokens as far as it belongs together. -/
def coalesce (pieces : List Piece) : List Piece := pieces.foldr join []

theorem flatten_scan (text : List Char) : (scan text).flatMap Piece.text = text := by
  fun_induction scan text with
  | case1 => rfl
  | case2 first rest ih => simp [ih]

theorem flatten_join (piece : Piece) (rest : List Piece) :
    (join piece rest).flatMap Piece.text = piece.text ++ rest.flatMap Piece.text := by
  unfold join
  split <;> simp

theorem flatten_coalesce (pieces : List Piece) :
    (coalesce pieces).flatMap Piece.text = pieces.flatMap Piece.text := by
  induction pieces with
  | nil => rfl
  | cons piece rest ih =>
    have h : coalesce (piece :: rest) = join piece (coalesce rest) := rfl
    rw [h, flatten_join, ih, List.flatMap_cons]

end Piece

end CorpusQuery
