import CorpusQuery.Span
import CorpusQuery.Text.Bytes
import CorpusQuery.Token.KindSet

/-!
Tokens: a kind, a text and the place in the source. The text of a token is what it stands for, not
what is written: variables and members lose their sigil, strings lose their quotes and have their
escapes decoded. What is written is recovered from the source by `slice?`.
-/

set_option autoImplicit false
set_option relaxedAutoImplicit false

namespace CorpusQuery

/-- A lexical unit of a query. -/
structure Token where
  kind : Kind
  text : String
  span : Span
  deriving DecidableEq, Repr

namespace Token

/-- The token that closes every token list, at the given offset. -/
def endAt (offset : Nat) : Token := ⟨.endOfInput, "", ⟨offset, offset⟩⟩

/-- The part of the source that the token covers, if its span denotes one. -/
def slice? (token : Token) (source : String) : Option String :=
  (Text.slice? source.toList token.span.start token.span.stop).map String.ofList

/-- The token in the words of a message. Kinds without a fixed spelling show their text. -/
def describe (token : Token) : String :=
  match token.kind with
  | .identifier | .pureDigits | .digits | .variableName | .memberName | .stringLiteral =>
    token.kind.text ++ " `" ++ token.text ++ "`"
  | .endOfInput => token.kind.text
  | .keyword _ | .symbol _ => "`" ++ token.kind.text ++ "`"

end Token

end CorpusQuery
