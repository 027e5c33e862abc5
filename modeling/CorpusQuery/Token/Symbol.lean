/-!
The punctuation, edge glyphs and operators of the query language. Many of them begin like others:
`<` begins `<<`, `<=`, `<--` and `<->`. The scanner therefore takes the longest one that the text
starts with (`longest?`), and since no two symbols are spelled alike there is at most one of each
length.
-/

set_option autoImplicit false
set_option relaxedAutoImplicit false

namespace CorpusQuery

/-- A token with a fixed spelling that is not a word. -/
inductive Symbol where
  | leftParen | rightParen | leftBrace | rightBrace | leftBracket | rightBracket | comma | colon
  | semicolon | dot | underscore | question | bang | doubleColon | doubleDot
  | edgeLeft | edgeRight | edgeBidirectional | edgeUndirected
  | assign | star | plus | minus | tilde | slash | percent | ampersand | doubleAmpersand | caret
  | pipe | doublePipe | shiftLeft | shiftRight | less | lessEqual | greater | greaterEqual
  | doubleEqual | notEqual | matching | notMatching | containing | notContaining
  deriving DecidableEq, Repr

namespace Symbol

/-- Every symbol: punctuation first, then edge glyphs, then operators. -/
def values : List Symbol :=
  [.leftParen, .rightParen, .leftBrace, .rightBrace, .leftBracket, .rightBracket, .comma, .colon,
    .semicolon, .dot, .underscore, .question, .bang, .doubleColon, .doubleDot, .edgeLeft,
    .edgeRight, .edgeBidirectional, .edgeUndirected, .assign, .star, .plus, .minus, .tilde,
    .slash, .percent, .ampersand, .doubleAmpersand, .caret, .pipe, .doublePipe, .shiftLeft,
    .shiftRight, .less, .lessEqual, .greater, .greaterEqual, .doubleEqual, .notEqual, .matching,
    .notMatching, .containing, .notContaining]

/-- The characters of the symbol. -/
def chars : Symbol → List Char
  | .leftParen => ['(']
  | .rightParen => [')']
  | .leftBrace => ['{']
  | .rightBrace => ['}']
  | .leftBracket => ['[']
  | .rightBracket => [']']
  | .comma => [',']
  | .colon => [':']
  | .semicolon => [';']
  | .dot => ['.']
  | .underscore => ['_']
  | .question => ['?']
  | .bang => ['!']
  | .doubleColon => [':', ':']
  | .doubleDot => ['.', '.']
  | .edgeLeft => ['<', '-', '-']
  | .edgeRight => ['-', '-', '>']
  | .edgeBidirectional => ['<', '-', '>']
  | .edgeUndirected => ['-', '-', '-']
  | .assign => ['=']
  | .star => ['*']
  | .plus => ['+']
  | .minus => ['-']
  | .tilde => ['~']
  | .slash => ['/']
  | .percent => ['%']
  | .ampersand => ['&']
  | .doubleAmpersand => ['&', '&']
  | .caret => ['^']
  | .pipe => ['|']
  | .doublePipe => ['|', '|']
  | .shiftLeft => ['<', '<']
  | .shiftRight => ['>', '>']
  | .less => ['<']
  | .lessEqual => ['<', '=']
  | .greater => ['>']
  | .greaterEqual => ['>', '=']
  | .doubleEqual => ['=', '=']
  | .notEqual => ['!', '=']
  | .matching => ['=', '~']
  | .notMatching => ['!', '~']
  | .containing => ['=', '#']
  | .notContaining => ['!', '#']

/-- The symbol as text. -/
def spelling (symbol : Symbol) : String := String.ofList symbol.chars

/-- The position of the symbol in the order of `values`. -/
def index (symbol : Symbol) : Nat := symbol.ctorIdx

/-- The name under which the symbol is listed. -/
def name : Symbol → String
  | .leftParen => "LParen"
  | .rightParen => "RParen"
  | .leftBrace => "LBrace"
  | .rightBrace => "RBrace"
  | .leftBracket => "LBracket"
  | .rightBracket => "RBracket"
  | .comma => "Comma"
  | .colon => "Colon"
  | .semicolon => "Semicolon"
  | .dot => "Dot"
  | .underscore => "Underscore"
  | .question => "Question"
  | .bang => "Bang"
  | .doubleColon => "DoubleColon"
  | .doubleDot => "DoubleDot"
  | .edgeLeft => "EdgeLeft"
  | .edgeRight => "EdgeRight"
  | .edgeBidirectional => "EdgeBidirectional"
  | .edgeUndirected => "EdgeUndirected"
  | .assign => "Assign"
  | .star => "Star"
  | .plus => "Plus"
  | .minus => "Minus"
  | .tilde => "Tilde"
  | .slash => "Slash"
  | .percent => "Percent"
  | .ampersand => "Ampersand"
  | .doubleAmpersand => "DoubleAmpersand"
  | .caret => "Caret"
  | .pipe => "Pipe"
  | .doublePipe => "DoublePipe"
  | .shiftLeft => "ShiftLeft"
  | .shiftRight => "ShiftRight"
  | .less => "Lt"
  | .lessEqual => "LtEq"
  | .greater => "Gt"
  | .greaterEqual => "GtEq"
  | .doubleEqual => "EqEq"
  | .notEqual => "NotEq"
  | .matching => "Matches"
  | .notMatching => "NotMatches"
  | .containing => "Contains"
  | .notContaining => "NotContains"

/-- The four glyphs of an edge that carries no constraint. -/
def isEdgeGlyph : Symbol → Bool
  | .edgeLeft | .edgeRight | .edgeBidirectional | .edgeUndirected => true
  | _ => false

/-- The longer of two candidates; the first one when they are equally long. -/
def longer (candidate : Option Symbol) (symbol : Symbol) : Option Symbol :=
  match candidate with
  | some held => if held.chars.length < symbol.chars.length then some symbol else some held
  | none => some symbol

/-- The longest symbol that the text starts with. -/
def longest? (text : List Char) : Option Symbol :=
  (values.filter fun symbol ↦ symbol.chars.isPrefixOf text).foldl longer none

theorem mem_values (symbol : Symbol) : symbol ∈ values := by cases symbol <;> decide

end Symbol

end CorpusQuery
