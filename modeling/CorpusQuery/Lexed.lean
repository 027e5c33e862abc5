import CorpusQuery.Diagnostic
import CorpusQuery.Piece
import CorpusQuery.Text.Escape
import CorpusQuery.Token.Basic

/-!
Lexed queries: the tokens of a source text and everything in it that is not one. Lexing never stops
early. Each token piece becomes a token, each invalid piece of the coalesced text becomes one
diagnostic, and each escape that a string literal should not contain becomes another. Both lists are
in the order of the text, and the tokens end with the end of input.
-/

set_option autoImplicit false
set_option relaxedAutoImplicit false

namespace CorpusQuery

/-- The outcome of lexing. -/
structure Lexed where
  tokens : List Token
  diagnostics : List Diagnostic
  deriving DecidableEq, Repr

namespace Lexed

/-- The code of every diagnostic of this module. -/
def code : String := "iql::lexer"

/-- A complaint about a stretch of the source that is no part of a token. -/
def complaint (span : Span) (message : String) : Diagnostic :=
  ((Diagnostic.error message).withLabel span "not a valid token").withCode code

/-- The diagnostic of an invalid stretch. It is about an open string when it starts with a quote,
and about its characters otherwise. -/
def invalidText (span : Span) (text : List Char) : Diagnostic :=
  if text.head? = some '"' then
    (((Diagnostic.error "unclosed string literal").withLabel span "string starts here").withHelp
      "string literals end with `\"` on the same line").withCode code
  else if text.length = 1 then complaint span ("invalid character '" ++ String.ofList text ++ "'")
  else complaint span ("invalid characters '" ++ String.ofList text ++ "'")

/-- A piece of the source at its byte offset. -/
structure Placed where
  offset : Nat
  piece : Piece
  deriving DecidableEq, Repr

/-- Puts pieces one behind the other. -/
def place (offset : Nat) : List Piece → List Placed
  | [] => []
  | piece :: rest => ⟨offset, piece⟩ :: place (offset + Text.byteLength piece.text) rest

namespace Placed

/-- The bytes that the piece covers. -/
def span (placed : Placed) : Span :=
  ⟨placed.offset, placed.offset + Text.byteLength placed.piece.text⟩

/-- The text of a string literal between its quotes, with its escapes decoded. -/
def decoded (placed : Placed) : Text.Decoded :=
  Text.decode (placed.offset + 1) placed.piece.text.tail.dropLast

/-- The text that a token of this kind stands for. -/
def value (placed : Placed) : Kind → List Char
  | .variableName | .memberName => placed.piece.text.tail
  | .stringLiteral => placed.decoded.value
  | _ => placed.piece.text

/-- The token of a piece that is one. -/
def token? (placed : Placed) : Option Token :=
  match placed.piece.shape with
  | .token kind => some ⟨kind, String.ofList (placed.value kind), placed.span⟩
  | .skipped | .invalid => none

/-- What is wrong with a piece. -/
def diagnostics (placed : Placed) : List Diagnostic :=
  match placed.piece.shape with
  | .token .stringLiteral =>
    placed.decoded.faults.map fun fault ↦ complaint fault.span fault.error.message
  | .token _ | .skipped => []
  | .invalid => [invalidText placed.span placed.piece.text]

end Placed

/-- Reads the tokens of a text. -/
def ofChars (text : List Char) : Lexed :=
  let placed := place 0 (Piece.coalesce (Piece.scan text))
  ⟨placed.filterMap Placed.token? ++ [Token.endAt (Text.byteLength text)],
    placed.flatMap Placed.diagnostics⟩

/-- Reads the tokens of a source text. -/
def ofSource (source : String) : Lexed := ofChars source.toList

/-- Whether the whole text consists of tokens, blanks and comments. -/
def isClean (lexed : Lexed) : Bool := lexed.diagnostics.isEmpty

end Lexed

end CorpusQuery
