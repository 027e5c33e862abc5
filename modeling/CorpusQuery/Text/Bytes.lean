/-!
Byte counts and byte ranges of character lists. Offsets in a query text count the bytes of its UTF-8
form, so a range of offsets denotes a piece of the text only when both of its ends fall between two
characters. `dropBytes?` and `takeBytes?` cut at such an offset and refuse every other one, and
`slice?` composes them.
-/

set_option autoImplicit false
set_option relaxedAutoImplicit false

namespace CorpusQuery.Text

/-- The number of bytes that the characters occupy in UTF-8. -/
def byteLength : List Char → Nat
  | [] => 0
  | c :: rest => c.utf8Size + byteLength rest

/-- The characters after the first `count` bytes, provided that a character starts or the text ends
there. -/
def dropBytes? : Nat → List Char → Option (List Char)
  | 0, text => some text
  | _ + 1, [] => none
  | count + 1, c :: rest =>
    if c.utf8Size ≤ count + 1 then dropBytes? (count + 1 - c.utf8Size) rest else none

/-- The characters that fill the first `count` bytes exactly. -/
def takeBytes? : Nat → List Char → Option (List Char)
  | 0, _ => some []
  | _ + 1, [] => none
  | count + 1, c :: rest =>
    if c.utf8Size ≤ count + 1 then (takeBytes? (count + 1 - c.utf8Size) rest).map (c :: ·) else none

/-- The characters between the byte offsets `start` and `stop`. There are none when the range is
reversed, runs past the end or cuts a character. -/
def slice? (text : List Char) (start stop : Nat) : Option (List Char) :=
  if start ≤ stop then (dropBytes? start text).bind (takeBytes? (stop - start)) else none

@[simp] theorem byteLength_nil : byteLength [] = 0 := rfl

@[simp] theorem byteLength_cons (c : Char) (rest : List Char) :
    byteLength (c :: rest) = c.utf8Size + byteLength rest := rfl

@[simp] theorem byteLength_append (first second : List Char) :
    byteLength (first ++ second) = byteLength first + byteLength second := by
  induction first with
  | nil => simp
  | cons c rest ih => simp [ih, Nat.add_assoc]

end CorpusQuery.Text
