import CorpusQuery.Span
import CorpusQuery.Text.Bytes

/-!
Escapes in string literals. A backslash begins an escape: one letter for the common control
characters, a quote or backslash standing for itself, or `u` with the four characters of a
hexadecimal code point. `decode` reads the body of a literal from left to right, gives the
characters it stands for and notes every escape that is none. An unknown letter stands for itself; a
code point that cannot be read stands for nothing.
-/

set_option autoImplicit false
set_option relaxedAutoImplicit false

namespace CorpusQuery.Text

/-- Why an escape was refused. -/
inductive EscapeError where
  /-- The four characters after `u` are not a code point. -/
  | codePoint
  /-- No escape begins with this character. -/
  | unknown (escaped : Char)
  deriving DecidableEq, Repr

namespace EscapeError

def message : EscapeError → String
  | .codePoint => "invalid unicode escape sequence"
  | .unknown escaped => "invalid escape sequence '\\" ++ String.singleton escaped ++ "'"

end EscapeError

/-- A refused escape and its place in the source. -/
structure EscapeFault where
  span : Span
  error : EscapeError
  deriving DecidableEq, Repr

/-- What the body of a literal stands for, and the escapes in it that were refused. -/
structure Decoded where
  value : List Char
  faults : List EscapeFault
  deriving DecidableEq, Repr

namespace Decoded

def empty : Decoded := ⟨[], []⟩

/-- Puts a character in front. -/
def push (decoded : Decoded) (c : Char) : Decoded := { decoded with value := c :: decoded.value }

/-- Puts a refused escape in front. -/
def refuse (decoded : Decoded) (start length : Nat) (error : EscapeError) : Decoded :=
  { decoded with faults := ⟨⟨start, start + length⟩, error⟩ :: decoded.faults }

end Decoded

/-- The character that a one-letter escape stands for. -/
def shortEscape? : Char → Option Char
  | 'b' => some '\x08'
  | 't' => some '\t'
  | 'n' => some '\n'
  | 'f' => some '\x0c'
  | 'r' => some '\r'
  | '"' => some '"'
  | '\x27' => some '\x27'
  | '\\' => some '\\'
  | _ => none

/-- The value of a hexadecimal digit of either case. -/
def hexDigit? (c : Char) : Option Nat :=
  if '0' ≤ c ∧ c ≤ '9' then some (c.toNat - '0'.toNat)
  else if 'a' ≤ c ∧ c ≤ 'f' then some (c.toNat - 'a'.toNat + 10)
  else if 'A' ≤ c ∧ c ≤ 'F' then some (c.toNat - 'A'.toNat + 10)
  else none

/-- The number written by hexadecimal digits, continued from the digits already read. -/
def hexNumber? (read : Nat) : List Char → Option Nat
  | [] => some read
  | c :: rest => (hexDigit? c).bind fun digit ↦ hexNumber? (16 * read + digit) rest

/-- The character with a code point, if there is one. -/
def scalar? (code : Nat) : Option Char :=
  if code.isValidChar then some (Char.ofNat code) else none

/-- The character named by the four characters after `u`. A plus sign may take the place of the
first digit. -/
def codePoint? (a b c d : Char) : Option Char :=
  (if a = '+' then hexNumber? 0 [b, c, d] else hexNumber? 0 [a, b, c, d]).bind scalar?

/-- Decodes the body of a string literal that starts at the byte offset. -/
def decode (offset : Nat) : List Char → Decoded
  | [] => .empty
  | '\\' :: 'u' :: a :: b :: c :: d :: rest =>
    let length := 2 + byteLength [a, b, c, d]
    let decoded := decode (offset + length) rest
    match codePoint? a b c d with
    | some character => decoded.push character
    | none => decoded.refuse offset length .codePoint
  | '\\' :: 'u' :: rest => Decoded.empty.refuse offset (2 + byteLength rest) .codePoint
  | ['\\'] => .empty
  | '\\' :: escaped :: rest =>
    let decoded := decode (offset + 1 + escaped.utf8Size) rest
    match shortEscape? escaped with
    | some character => decoded.push character
    | none => (decoded.push escaped).refuse offset (1 + escaped.utf8Size) (.unknown escaped)
  | c :: rest => (decode (offset + c.utf8Size) rest).push c

end CorpusQuery.Text
