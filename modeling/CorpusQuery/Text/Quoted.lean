import CorpusQuery.Text.Printable

/-!
Quoted text for traces. A text is written between double quotes on one line. Quotes and backslashes
get a backslash, the common control characters their letter, and every other character that does not
show as itself its code point in hexadecimal between braces. All else stands as it is.
-/

set_option autoImplicit false
set_option relaxedAutoImplicit false

namespace CorpusQuery.Text

/-- One character inside quotes. -/
def quoteChar (c : Char) : List Char :=
  match c with
  | '"' => ['\\', '"']
  | '\\' => ['\\', '\\']
  | '\t' => ['\\', 't']
  | '\n' => ['\\', 'n']
  | '\r' => ['\\', 'r']
  | '\x00' => ['\\', '0']
  | _ =>
    if isPrintable c then [c]
    else ['\\', 'u', '\x7b'] ++ Nat.toDigits 16 c.toNat ++ ['\x7d']

/-- A text between double quotes. -/
def quoted (text : String) : String :=
  String.ofList ('"' :: text.toList.flatMap quoteChar ++ ['"'])

end CorpusQuery.Text
