import CorpusQuery.Proofs.Lexicon.Account
import CorpusQuery.Proofs.Lexicon.Longest
import Mathlib.Data.Nat.Digits.Defs
import Mathlib.Tactic.IntervalCases

/-!
What the characters between the quotes of a string literal stand for. `Text.Spells` says how one
character is written: as itself unless it is a backslash, by its letter, or by the four hexadecimal
digits of its code point. A text so written between quotes is one literal with that text
(`Lexed.ofSource_encoded`). In the other direction, decoding accepts one more way of writing, a plus
sign in the place of the first digit (`Text.Accepts`): a literal is reported exactly if its body is
not made of accepted ways (`Lexed.literal_untouched_iff`).
-/

set_option autoImplicit false
set_option relaxedAutoImplicit false

namespace CorpusQuery

open CorpusQuery.Piece

open scoped Computability

namespace Text

/-! ### Ways to write a character -/

/-- The characters that may stand behind a backslash, and what they stand for there. -/
def shortEscapes : List (Char × Char) :=
  [('b', '\x08'), ('t', '\t'), ('n', '\n'), ('f', '\x0c'), ('r', '\r'), ('"', '"'),
    ('\x27', '\x27'), ('\\', '\\')]

/-- The hexadecimal digits, each at the place of its value. -/
def hexDigits : List Char :=
  ['0', '1', '2', '3', '4', '5', '6', '7', '8', '9', 'a', 'b', 'c', 'd', 'e', 'f']

/-- A hexadecimal digit of either case and its value. -/
def HexDigit (digit : Char) (value : Nat) : Prop := hexDigits[value]? = some digit.toLower

/-- A number in hexadecimal digits. The first digit has the most weight. -/
def Hexadecimal (digits : List Char) (code : Nat) : Prop :=
  ∃ values, List.Forall₂ HexDigit digits values ∧ code = Nat.ofDigits 16 values.reverse

/-- A way to write a character between the quotes of a string literal. -/
inductive Spells : List Char → Char → Prop
  | plain {c : Char} (hplain : c ≠ '\\') : Spells [c] c
  | short {escaped c : Char} (hshort : (escaped, c) ∈ shortEscapes) : Spells ['\\', escaped] c
  | code {digits : List Char} {c : Char} (hfour : digits.length = 4)
      (hcode : Hexadecimal digits c.toNat) : Spells ('\\' :: 'u' :: digits) c

/-- A way of writing that is decoded: one of those above, or a code point in three digits behind a
plus sign. -/
inductive Accepts : List Char → Char → Prop
  | spells {word : List Char} {c : Char} (hspells : Spells word c) : Accepts word c
  | plus {digits : List Char} {c : Char} (hthree : digits.length = 3)
      (hcode : Hexadecimal digits c.toNat) : Accepts ('\\' :: 'u' :: '+' :: digits) c

/-- What a body stands for if its characters are written in such ways, one behind the other. -/
def Reads (ways : List Char → Char → Prop) (body value : List Char) : Prop :=
  ∃ words, body = words.flatten ∧ List.Forall₂ ways words value

/-! ### Digits -/

theorem getElem?_hexDigits {value : Nat} {digit : Char} : hexDigits[value]? = some digit ↔
    value < 16 ∧ digit.toNat = if value < 10 then 48 + value else 87 + value := by
  by_cases hvalue : value < 16
  · interval_cases value <;> simp [hexDigits, ← Char.toNat_inj, eq_comm]
  · have hlength : hexDigits.length ≤ value := Nat.le_of_not_lt hvalue
    simp [List.getElem?_eq_none hlength, hvalue]

theorem hexDigit?_eq_some_iff {digit : Char} {value : Nat} :
    hexDigit? digit = some value ↔ HexDigit digit value := by
  rw [HexDigit, getElem?_hexDigits, toNat_toLower]
  unfold hexDigit?
  have hrange (low high : Char) : low ≤ digit ∧ digit ≤ high ↔
      low.toNat ≤ digit.toNat ∧ digit.toNat ≤ high.toNat := by
    simp only [Char.le_def, UInt32.le_iff_toNat_le, Char.toNat_val]
  simp only [hrange, Char.reduceToNat]
  split_ifs <;> simp only [Option.some.injEq, false_iff] <;> omega

/-- The first digit counts as many times as there are numbers with the digits behind it. -/
theorem ofDigits_reverse_cons (value : Nat) (values : List Nat) :
    Nat.ofDigits 16 (value :: values).reverse =
      16 ^ values.length * value + Nat.ofDigits 16 values.reverse := by
  rw [List.reverse_cons, Nat.ofDigits_append, Nat.ofDigits_singleton, List.length_reverse,
    Nat.add_comm]

/-- Reading digits continues the number read before them. -/
theorem hexNumber?_eq_some_iff {digits : List Char} {read code : Nat} :
    hexNumber? read digits = some code ↔ ∃ values, List.Forall₂ HexDigit digits values ∧
      code = 16 ^ digits.length * read + Nat.ofDigits 16 values.reverse := by
  induction digits generalizing read with
  | nil => simp [hexNumber?, eq_comm]
  | cons digit digits ih =>
    have hstep {value : Nat} {values : List Nat} (h : List.Forall₂ HexDigit digits values) :
        16 ^ digits.length * (16 * read + value) + Nat.ofDigits 16 values.reverse =
          16 ^ (digit :: digits).length * read +
            Nat.ofDigits 16 (value :: values).reverse := by
      rw [ofDigits_reverse_cons, ← h.length_eq, List.length_cons]
      ring
    simp only [hexNumber?, Option.bind_eq_some_iff, hexDigit?_eq_some_iff, ih,
      List.forall₂_cons_left_iff]
    constructor
    · rintro ⟨value, hvalue, values, hvalues, rfl⟩
      exact ⟨_, ⟨value, values, hvalue, hvalues, rfl⟩, hstep hvalues⟩
    · rintro ⟨_, ⟨value, values, hvalue, hvalues, rfl⟩, rfl⟩
      exact ⟨value, hvalue, values, hvalues, (hstep hvalues).symm⟩

theorem hexadecimal_iff {digits : List Char} {code : Nat} :
    Hexadecimal digits code ↔ hexNumber? 0 digits = some code := by
  rw [hexNumber?_eq_some_iff, Nat.mul_zero]
  simp only [Nat.zero_add]
  rfl

theorem scalar?_eq_some_iff {code : Nat} {c : Char} : scalar? code = some c ↔ c.toNat = code := by
  unfold scalar?
  split
  · rename_i hvalid
    have htoNat : (Char.ofNat code).toNat = code := by
      rw [Char.ofNat, dif_pos hvalid]
      rfl
    rw [Option.some.injEq, ← Char.toNat_inj, htoNat, eq_comm]
  · rename_i hvalid
    refine iff_of_false nofun ?_
    rintro rfl
    exact hvalid c.valid

theorem codePoint?_eq_some_iff {first second third fourth c : Char} :
    codePoint? first second third fourth = some c ↔
      Hexadecimal [first, second, third, fourth] c.toNat ∨
        first = '+' ∧ Hexadecimal [second, third, fourth] c.toNat := by
  have hscalar {number? : Option Nat} :
      number?.bind scalar? = some c ↔ number? = some c.toNat := by
    simp only [Option.bind_eq_some_iff, scalar?_eq_some_iff, exists_eq_right']
  rw [codePoint?, hscalar, hexadecimal_iff, hexadecimal_iff]
  split
  · rename_i hplus
    subst hplus
    have hdigit : hexNumber? 0 ['+', second, third, fourth] = none := rfl
    simp [hdigit]
  · rename_i hplus
    simp [hplus]

theorem shortEscape?_eq_some_iff {escaped c : Char} :
    shortEscape? escaped = some c ↔ (escaped, c) ∈ shortEscapes := by
  unfold shortEscape?
  split <;> simp_all [shortEscapes, eq_comm]

/-! ### Decoding -/

theorem decode_plain {c : Char} (hplain : c ≠ '\\') (offset : Nat) (rest : List Char) :
    decode offset (c :: rest) = (decode (offset + c.utf8Size) rest).push c := by
  rw [decode]
  all_goals simp [hplain]

theorem decode_short {escaped c : Char} (hshort : (escaped, c) ∈ shortEscapes) (offset : Nat)
    (rest : List Char) : decode offset ('\\' :: escaped :: rest) =
      (decode (offset + 1 + escaped.utf8Size) rest).push c := by
  have hcode : escaped ≠ 'u' := by
    rintro rfl
    revert hshort
    simp [shortEscapes]
  rw [decode, shortEscape?_eq_some_iff.mpr hshort]
  all_goals simp [hcode]

/-- Reading an accepted way gives its character, and nothing is refused. -/
theorem decode_accepts {word : List Char} {c : Char} (h : Accepts word c) (offset : Nat)
    (rest : List Char) :
    ∃ offset', decode offset (word ++ rest) = (decode offset' rest).push c := by
  have hcode {first second third fourth : Char}
      (hcode : codePoint? first second third fourth = some c) : ∃ offset',
        decode offset ('\\' :: 'u' :: first :: second :: third :: fourth :: rest) =
          (decode offset' rest).push c :=
    ⟨_, by rw [decode, hcode]⟩
  cases h with
  | spells hspells =>
    cases hspells with
    | plain hplain => exact ⟨_, decode_plain hplain offset rest⟩
    | short hshort => exact ⟨_, decode_short hshort offset rest⟩
    | code hfour hnumber =>
      obtain ⟨first, second, third, fourth, rfl⟩ := List.length_eq_four.mp hfour
      exact hcode (codePoint?_eq_some_iff.mpr (.inl hnumber))
  | plus hthree hnumber =>
    obtain ⟨second, third, fourth, rfl⟩ := List.length_eq_three.mp hthree
    exact hcode (codePoint?_eq_some_iff.mpr (.inr ⟨rfl, hnumber⟩))

/-- What is written in accepted ways is decoded, and nothing in it is refused. -/
theorem decode_of_reads {body value : List Char} (h : Reads Accepts body value) (offset : Nat) :
    decode offset body = ⟨value, []⟩ := by
  obtain ⟨words, rfl, hwords⟩ := h
  induction hwords generalizing offset with
  | nil => rfl
  | @cons word c words value hword _ ih =>
    obtain ⟨offset', hdecode⟩ := decode_accepts hword offset words.flatten
    rw [List.flatten_cons, hdecode, ih]
    rfl

theorem Reads.cons {ways : List Char → Char → Prop} {word body value : List Char} {c : Char}
    (hword : ways word c) (h : Reads ways body value) : Reads ways (word ++ body) (c :: value) := by
  obtain ⟨words, rfl, hwords⟩ := h
  exact ⟨word :: words, rfl, .cons hword hwords⟩

theorem Reads.mono {ways others : List Char → Char → Prop} {body value : List Char}
    (h : Reads ways body value) (hways : ∀ word c, ways word c → others word c) :
    Reads others body value := by
  obtain ⟨words, rfl, hwords⟩ := h
  exact ⟨words, rfl, hwords.imp hways⟩

/-- A string literal goes on behind its first character, and behind an escaped character if the
first is a backslash. -/
theorem kstar_stringCharacter_cons {c : Char} {rest : List Char}
    (h : c :: rest ∈ Pattern.stringCharacter∗) :
    c ≠ '\\' ∧ rest ∈ Pattern.stringCharacter∗ ∨
      c = '\\' ∧ ∃ escaped tail, rest = escaped :: tail ∧ tail ∈ Pattern.stringCharacter∗ := by
  obtain ⟨words, hwords, hmem⟩ := Language.mem_kstar_iff_exists_nonempty.mp h
  cases words with
  | nil => cases hwords
  | cons first words =>
    have htail : words.flatten ∈ Pattern.stringCharacter∗ :=
      Language.join_mem_kstar fun word hword ↦ (hmem word (List.mem_cons_of_mem _ hword)).1
    rcases (hmem first List.mem_cons_self).1 with ⟨d, hd, rfl⟩ | hescape
    · obtain ⟨rfl, rfl⟩ := List.cons.inj hwords
      simp only [Bool.and_eq_true, bne_iff_ne] at hd
      exact .inl ⟨hd.1.2, htail⟩
    · obtain ⟨_, rfl, escaped, -, rfl⟩ := Pattern.mem_literal_mul.mp hescape
      obtain ⟨rfl, rfl⟩ := List.cons.inj hwords
      exact .inr ⟨rfl, escaped, _, rfl, htail⟩

theorem kstar_stringCharacter_of_plain {c : Char} {rest : List Char}
    (h : c :: rest ∈ Pattern.stringCharacter∗) (hplain : c ≠ '\\') :
    rest ∈ Pattern.stringCharacter∗ :=
  ((kstar_stringCharacter_cons h).resolve_right fun hescape ↦ hplain hescape.1).2

theorem kstar_stringCharacter_of_escape {escaped : Char} {rest : List Char}
    (h : '\\' :: escaped :: rest ∈ Pattern.stringCharacter∗) :
    rest ∈ Pattern.stringCharacter∗ := by
  obtain ⟨hplain, -⟩ | ⟨-, _, _, ⟨⟩, hrest⟩ := kstar_stringCharacter_cons h
  · exact absurd rfl hplain
  · exact hrest

theorem kstar_stringCharacter_of_digits {digits rest : List Char} {code : Nat}
    (h : digits ++ rest ∈ Pattern.stringCharacter∗) (hdigits : Hexadecimal digits code) :
    rest ∈ Pattern.stringCharacter∗ := by
  obtain ⟨values, hvalues, -⟩ := hdigits
  induction hvalues with
  | nil => exact h
  | cons hdigit _ ih =>
    refine ih (kstar_stringCharacter_of_plain h ?_)
    rintro rfl
    cases hexDigit?_eq_some_iff.mpr hdigit

/-- A string literal goes on behind an accepted way of writing. -/
theorem kstar_stringCharacter_of_accepts {word rest : List Char} {c : Char}
    (h : word ++ rest ∈ Pattern.stringCharacter∗) (hword : Accepts word c) :
    rest ∈ Pattern.stringCharacter∗ := by
  cases hword with
  | spells hspells =>
    cases hspells with
    | plain hplain => exact kstar_stringCharacter_of_plain h hplain
    | short => exact kstar_stringCharacter_of_escape h
    | code _ hcode =>
      exact kstar_stringCharacter_of_digits (kstar_stringCharacter_of_escape h) hcode
  | plus _ hcode =>
    exact kstar_stringCharacter_of_digits
      (kstar_stringCharacter_of_plain (kstar_stringCharacter_of_escape h) (by decide)) hcode

/-- A body in which nothing is refused is written in accepted ways. -/
theorem reads_of_faults {offset : Nat} {body : List Char}
    (hbody : body ∈ Pattern.stringCharacter∗) (h : (decode offset body).faults = []) :
    ∃ value, Reads Accepts body value := by
  have hcons {word rest : List Char} {c : Char} (hword : Accepts word c)
      (hmem : word ++ rest ∈ Pattern.stringCharacter∗)
      (hrest : rest ∈ Pattern.stringCharacter∗ → ∃ value, Reads Accepts rest value) :
      ∃ value, Reads Accepts (word ++ rest) value := by
    obtain ⟨value, hvalue⟩ := hrest (kstar_stringCharacter_of_accepts hmem hword)
    exact ⟨c :: value, hvalue.cons hword⟩
  fun_induction decode offset body with
  | case1 => exact ⟨[], [], rfl, .nil⟩
  | case2 offset first second third fourth rest length decoded c hcode ih =>
    have hword : Accepts ['\\', 'u', first, second, third, fourth] c := by
      rcases codePoint?_eq_some_iff.mp hcode with hnumber | ⟨rfl, hnumber⟩
      · exact .spells (.code rfl hnumber)
      · exact .plus rfl hnumber
    exact hcons hword hbody fun hrest ↦ ih hrest h
  | case3 | case4 | case7 => cases h
  | case5 =>
    obtain ⟨hplain, -⟩ | ⟨-, _, _, ⟨⟩, -⟩ := kstar_stringCharacter_cons hbody
    exact absurd rfl hplain
  | case6 offset escaped rest hfour hunicode decoded c hescape ih =>
    exact hcons (.spells (.short (shortEscape?_eq_some_iff.mp hescape))) hbody
      fun hrest ↦ ih hrest h
  | case8 offset c rest hfour hunicode hlast hescape ih =>
    have hplain : c ≠ '\\' := fun hc ↦ by
      cases rest with
      | nil => exact hlast hc rfl
      | cons next rest => exact hescape next rest hc rfl
    exact hcons (.spells (.plain hplain)) hbody fun hrest ↦ ih hrest h

theorem faults_eq_nil_iff {offset : Nat} {body : List Char}
    (hbody : body ∈ Pattern.stringCharacter∗) :
    (decode offset body).faults = [] ↔ ∃ value, Reads Accepts body value := by
  refine ⟨reads_of_faults hbody, ?_⟩
  rintro ⟨value, hvalue⟩
  rw [decode_of_reads hvalue]

/-- Without a plus sign behind `\\u`, what is accepted is what is spelled. -/
theorem reads_spells_of_accepts {body value : List Char} (h : Reads Accepts body value)
    (hplus : ¬ ['\\', 'u', '+'] <:+: body) : Reads Spells body value := by
  obtain ⟨words, rfl, hwords⟩ := h
  refine ⟨words, rfl, ?_⟩
  induction hwords with
  | nil => exact .nil
  | @cons word c words value hword _ ih =>
    have hwordPlus : ¬ ['\\', 'u', '+'] <:+: word :=
      fun h ↦ hplus (h.trans (List.prefix_append word words.flatten).isInfix)
    have hrest := ih fun h ↦ hplus (h.trans (List.suffix_append word words.flatten).isInfix)
    cases hword with
    | spells hspells => exact .cons hspells hrest
    | plus =>
      exact absurd (List.prefix_append ['\\', 'u', '+'] _).isInfix hwordPlus

theorem reads_spells_iff {body value : List Char} (hplus : ¬ ['\\', 'u', '+'] <:+: body) :
    Reads Spells body value ↔ Reads Accepts body value :=
  ⟨fun h ↦ h.mono fun _ _ ↦ .spells, fun h ↦ reads_spells_of_accepts h hplus⟩

/-! ### Bodies -/

/-- A way to write a character at which the search for the end of the literal does not stop: quotes
and line breaks do not stand for themselves. -/
structure Encodes (word : List Char) (c : Char) : Prop where
  spells : Spells word c
  unquoted : word ≠ ['"']
  unbroken : word ≠ ['\n']

theorem kstar_of_plain {word rest : List Char}
    (hword : ∀ c ∈ word, c ≠ '"' ∧ c ≠ '\\' ∧ c ≠ '\n') (hrest : rest ∈ Pattern.stringCharacter∗) :
    word ++ rest ∈ Pattern.stringCharacter∗ := by
  induction word with
  | nil => exact hrest
  | cons c word ih =>
    obtain ⟨⟨hquote, hslash, hbreak⟩, hword⟩ := List.forall_mem_cons.mp hword
    have hc : [c] ∈ Pattern.stringCharacter :=
      .inl ⟨c, by simp only [bne_iff_ne.mpr hquote, bne_iff_ne.mpr hslash,
        bne_iff_ne.mpr hbreak, Bool.and_self], rfl⟩
    have hmore := Pattern.append_mem_kstar hc (ih hword)
    exact hmore

theorem kstar_of_escape {escaped : Char} {rest : List Char} (hbreak : escaped ≠ '\n')
    (hrest : rest ∈ Pattern.stringCharacter∗) :
    '\\' :: escaped :: rest ∈ Pattern.stringCharacter∗ := by
  have hescape : ['\\', escaped] ∈ Pattern.stringCharacter :=
    .inr (Pattern.mem_literal_mul.mpr ⟨[escaped], rfl, escaped, bne_iff_ne.mpr hbreak, rfl⟩)
  exact Pattern.append_mem_kstar hescape hrest

/-- The digits of a number are none of the characters at which a literal can stop. -/
theorem plain_of_hexadecimal {digits : List Char} {code : Nat} (h : Hexadecimal digits code) :
    ∀ c ∈ digits, c ≠ '"' ∧ c ≠ '\\' ∧ c ≠ '\n' := by
  obtain ⟨values, hvalues, -⟩ := h
  induction hvalues with
  | nil => exact List.forall_mem_nil _
  | @cons digit value _ _ hdigit _ ih =>
    have hread := hexDigit?_eq_some_iff.mpr hdigit
    refine List.forall_mem_cons.mpr ⟨⟨?_, ?_, ?_⟩, ih⟩ <;> rintro rfl <;> cases hread

theorem kstar_of_accepts {word rest : List Char} {c : Char} (hword : Accepts word c)
    (hquote : word ≠ ['"']) (hbreak : word ≠ ['\n']) (hrest : rest ∈ Pattern.stringCharacter∗) :
    word ++ rest ∈ Pattern.stringCharacter∗ := by
  cases hword with
  | spells hspells =>
    cases hspells with
    | plain hplain =>
      exact kstar_of_plain (List.forall_mem_singleton.mpr
        ⟨fun h ↦ hquote (h ▸ rfl), hplain, fun h ↦ hbreak (h ▸ rfl)⟩) hrest
    | @short escaped _ hshort =>
      refine kstar_of_escape ?_ hrest
      rintro rfl
      revert hshort
      simp [shortEscapes]
    | code _ hcode =>
      exact kstar_of_escape (by decide) (kstar_of_plain (plain_of_hexadecimal hcode) hrest)
  | @plus digits _ _ hcode =>
    have hchars : ∀ c ∈ '+' :: digits, c ≠ '"' ∧ c ≠ '\\' ∧ c ≠ '\n' :=
      List.forall_mem_cons.mpr ⟨by decide, plain_of_hexadecimal hcode⟩
    exact kstar_of_escape (by decide) (kstar_of_plain hchars hrest)

theorem kstar_of_encodes {words : List (List Char)} {value : List Char}
    (h : List.Forall₂ Encodes words value) : words.flatten ∈ Pattern.stringCharacter∗ := by
  induction h with
  | nil => exact Language.nil_mem_kstar _
  | cons hword _ ih =>
    exact kstar_of_accepts (.spells hword.spells) hword.unquoted hword.unbroken ih

end Text

namespace Lexed

/-! ### Literals on their own -/

/-- The token of a literal has the text that its body stands for. -/
theorem token?_stringLiteral (offset : Nat) (body : List Char) :
    (⟨offset, ⟨.token .stringLiteral, '"' :: (body ++ ['"'])⟩⟩ : Placed).token? =
      some ⟨.stringLiteral, String.ofList (Text.decode (offset + 1) body).value,
        ⟨offset, offset + Text.byteLength ('"' :: (body ++ ['"']))⟩⟩ := by
  have hdecoded : (⟨offset, ⟨.token .stringLiteral, '"' :: (body ++ ['"'])⟩⟩ : Placed).decoded =
      Text.decode (offset + 1) body := by
    rw [Placed.decoded, List.tail_cons, List.dropLast_concat]
  rw [← hdecoded]
  rfl

theorem scan_literal {body : List Char} (h : body ∈ Pattern.stringCharacter∗) :
    scan ('"' :: (body ++ ['"'])) = [⟨.token .stringLiteral, '"' :: (body ++ ['"'])⟩] := by
  have hcut : cut '"' ((body ++ ['"']) ++ []) = (.token .stringLiteral, (body ++ ['"']).length) :=
    Pattern.cut_stringLiteral (Language.append_mem_mul h rfl)
  have hscan := scan_of_cut hcut
  rw [List.append_nil, scan] at hscan
  exact hscan

/-- A body between quotes is one literal, and what is reported of it are its escapes. -/
theorem ofChars_literal {body : List Char} (h : body ∈ Pattern.stringCharacter∗) :
    ofChars ('"' :: (body ++ ['"'])) =
      ⟨[⟨.stringLiteral, String.ofList (Text.decode 1 body).value,
          ⟨0, Text.byteLength ('"' :: (body ++ ['"']))⟩⟩,
        .endAt (Text.byteLength ('"' :: (body ++ ['"'])))],
        (Text.decode 1 body).faults.map fun fault ↦ complaint fault.span fault.error.message⟩ := by
  have hcoalesce : coalesce [⟨.token .stringLiteral, '"' :: (body ++ ['"'])⟩] =
      [⟨.token .stringLiteral, '"' :: (body ++ ['"'])⟩] := rfl
  have htoken := token?_stringLiteral 0 body
  rw [Nat.zero_add, Nat.zero_add] at htoken
  rw [ofChars, scan_literal h, hcoalesce, place, place, List.filterMap_cons_some htoken,
    List.flatMap_singleton, diagnostics_stringLiteral]
  rfl

/-- A text whose characters are written one behind the other between quotes is one literal with that
text, and nothing is reported. -/
theorem ofSource_encoded {words : List (List Char)} {value : List Char}
    (h : List.Forall₂ Text.Encodes words value) :
    ofSource (String.ofList ('"' :: (words.flatten ++ ['"']))) =
      ⟨[⟨.stringLiteral, String.ofList value,
          ⟨0, Text.byteLength ('"' :: (words.flatten ++ ['"']))⟩⟩,
        .endAt (Text.byteLength ('"' :: (words.flatten ++ ['"'])))], []⟩ := by
  have hreads : Text.Reads Text.Accepts words.flatten value :=
    ⟨words, rfl, h.imp fun _ _ hword ↦ .spells hword.spells⟩
  rw [ofSource, String.toList_ofList, ofChars_literal (Text.kstar_of_encodes h),
    Text.decode_of_reads hreads]
  rfl

/-- A letter, a line break by its letter, and a letter by its code point in digits of both cases. -/
theorem ofSource_encoded_of_three_ways :
    List.Forall₂ Text.Encodes [['a'], ['\\', 'n'], ['\\', 'u', '0', '0', 'e', 'E']]
        ['a', '\n', 'î'] ∧
      ofSource (String.ofList ('"' ::
          ([['a'], ['\\', 'n'], ['\\', 'u', '0', '0', 'e', 'E']].flatten ++ ['"']))) =
        ⟨[⟨.stringLiteral, String.ofList ['a', '\n', 'î'], ⟨0, 11⟩⟩, .endAt 11], []⟩ := by
  have hcode : Text.Hexadecimal ['0', '0', 'e', 'E'] ('î').toNat :=
    Text.hexadecimal_iff.mpr (by decide)
  have hwords : List.Forall₂ Text.Encodes [['a'], ['\\', 'n'], ['\\', 'u', '0', '0', 'e', 'E']]
      ['a', '\n', 'î'] :=
    .cons ⟨.plain (by decide), by decide, by decide⟩
      (.cons ⟨.short (by decide), by decide, by decide⟩
        (.cons ⟨.code rfl hcode, by decide, by decide⟩ .nil))
  exact ⟨hwords, ofSource_encoded hwords⟩

/-! ### Literals in a source -/

/-- What is reported of a piece stands inside it. -/
theorem bounds_of_mem_coalesce {text : List Char} {placed : Placed}
    (h : placed.piece ∈ coalesce (scan text)) : ∀ range ∈ labelSpans placed.diagnostics,
      placed.span.start ≤ range.start ∧ range.stop ≤ placed.span.stop := by
  obtain ⟨offset, shape, word⟩ := placed
  cases shape with
  | skipped => nofun
  | invalid =>
    intro range hrange
    rw [Placed.diagnostics, labelSpans_invalidText, List.mem_singleton] at hrange
    rw [hrange]
    exact ⟨Nat.le_refl _, Nat.le_refl _⟩
  | token kind =>
    obtain ⟨token, htoken⟩ :
        ∃ token, (⟨offset, ⟨.token kind, word⟩⟩ : Placed).token? = some token := ⟨_, rfl⟩
    have hranges := (escapes_of_token offset (mem_of_mem_coalesce rfl h) htoken).ranges
    intro range hrange
    obtain ⟨_, -, hstands⟩ := hranges.stands range hrange
    have hstart := hstands.le_start
    have hstop := hstands.stop_le
    rw [span_of_token? htoken] at hstart hstop
    exact ⟨hstart, hstop⟩

/-- Putting pieces together leaves a token where it is. -/
theorem mem_place_coalesce {text : List Char} {placed : Placed} {kind : Kind}
    (h : placed ∈ place 0 (scan text)) (hkind : placed.piece.shape = .token kind) :
    placed ∈ place 0 (coalesce (scan text)) := by
  obtain ⟨before, after, hscan, hoffset⟩ := split_of_mem_place h
  rw [hscan, coalesce_token before hkind, place_append, place, flatten_coalesce, ← hoffset]
  exact List.mem_append_right _ List.mem_cons_self

/-- What is reported of a token covers a part of it. -/
theorem exists_range_of_token {text word : List Char} {kind : Kind} {offset : Nat}
    (h : ⟨.token kind, word⟩ ∈ scan text)
    (hne : (⟨offset, ⟨.token kind, word⟩⟩ : Placed).diagnostics ≠ []) :
    ∃ range ∈ labelSpans (⟨offset, ⟨.token kind, word⟩⟩ : Placed).diagnostics,
      range.start < range.stop := by
  obtain ⟨token, htoken⟩ :
      ∃ token, (⟨offset, ⟨.token kind, word⟩⟩ : Placed).token? = some token := ⟨_, rfl⟩
  have hescapes := escapes_of_token offset h htoken
  obtain ⟨diagnostic, hdiagnostic⟩ := List.exists_mem_of_ne_nil _ hne
  obtain ⟨range, message, rfl⟩ := hescapes.complaints diagnostic hdiagnostic
  have hrange : range ∈ labelSpans (⟨offset, ⟨.token kind, word⟩⟩ : Placed).diagnostics :=
    List.mem_flatMap.mpr ⟨_, hdiagnostic, List.mem_singleton.mpr rfl⟩
  obtain ⟨covered, hcovered, before, after, -, rfl⟩ := hescapes.ranges.stands range hrange
  exact ⟨_, hrange, Nat.lt_add_of_pos_right (Text.byteLength_pos hcovered)⟩

/-- What is reported of a text reaches into a token only if it is reported of the token. -/
theorem apart_iff {text : List Char} {placed : Placed} {kind : Kind}
    (h : placed ∈ place 0 (scan text)) (hkind : placed.piece.shape = .token kind) :
    (∀ range ∈ labelSpans (ofChars text).diagnostics, range.Apart placed.span) ↔
      placed.diagnostics = [] := by
  have hplaced := mem_place_coalesce h hkind
  refine ⟨fun hall ↦ Classical.byContradiction fun hne ↦ ?_, fun hnone range hrange ↦ ?_⟩
  · have hmem := piece_mem_of_mem_place h
    obtain ⟨range, hrange, hlt⟩ : ∃ range ∈ labelSpans placed.diagnostics,
        range.start < range.stop := by
      obtain ⟨offset, shape, word⟩ := placed
      cases hkind
      exact exists_range_of_token hmem hne
    obtain ⟨hstart, hstop⟩ := bounds_of_mem_coalesce (piece_mem_of_mem_place hplaced) range hrange
    obtain ⟨diagnostic, hdiagnostic, hlabel⟩ := List.mem_flatMap.mp hrange
    have hapart := hall range
      (List.mem_flatMap.mpr
        ⟨diagnostic, List.mem_flatMap.mpr ⟨placed, hplaced, hdiagnostic⟩, hlabel⟩)
    rcases hapart with hbefore | hbehind <;> omega
  · obtain ⟨diagnostic, hdiagnostic, hlabel⟩ := List.mem_flatMap.mp hrange
    obtain ⟨other, hother, hdiagnostic⟩ := List.mem_flatMap.mp hdiagnostic
    have hne : other ≠ placed := by
      rintro rfl
      rw [hnone] at hdiagnostic
      cases hdiagnostic
    obtain ⟨hstart, hstop⟩ := bounds_of_mem_coalesce (piece_mem_of_mem_place hother) range
      (List.mem_flatMap.mpr ⟨diagnostic, hdiagnostic, hlabel⟩)
    have hsymm : Std.Symm fun first second : Placed ↦ first.span.Apart second.span :=
      ⟨fun _ _ ↦ Or.symm⟩
    have hapart : (place 0 (coalesce (scan text))).Pairwise
        fun first second ↦ first.span.Apart second.span := (pairwise_place 0 _).imp .inl
    rcases hapart.forall hother hplaced hne with hbefore | hbehind
    · exact .inl (hstop.trans hbefore)
    · exact .inr (hbehind.trans hstart)

/-- The body of a literal of a text. -/
theorem body_of_mem_place {text : List Char} {placed : Placed} (h : placed ∈ place 0 (scan text))
    (hliteral : placed.piece.shape = .token .stringLiteral) :
    ∃ body ∈ Pattern.stringCharacter∗,
      placed.piece = ⟨.token .stringLiteral, '"' :: (body ++ ['"'])⟩ := by
  obtain ⟨_, first, rest, -, -, hpiece⟩ := cut_of_mem_place h
  rw [hpiece] at hliteral
  obtain ⟨body, hbody, hword⟩ := exists_body hliteral
  exact ⟨body, hbody, by rw [hpiece, hword, Piece.mk.injEq]; exact ⟨hliteral, rfl⟩⟩

/-- Nothing that is reported of a source reaches into a string literal exactly if the body of the
literal is written in accepted ways, and then the text of its token is what the body stands for.
Where no plus sign stands behind `\\u`, the accepted ways are the ways to write a character. -/
theorem literal_untouched_iff {source : String} {placed : Placed}
    (hplaced : placed ∈ place 0 (scan source.toList))
    (hliteral : placed.piece.shape = .token .stringLiteral) :
    ∃ body, placed.piece.text = '"' :: (body ++ ['"']) ∧
      ((∀ range ∈ labelSpans (ofSource source).diagnostics, range.Apart placed.span) ↔
        ∃ value, Text.Reads Text.Accepts body value) ∧
      (∀ value, Text.Reads Text.Accepts body value →
        ⟨.stringLiteral, String.ofList value, placed.span⟩ ∈ (ofSource source).tokens) ∧
      (¬ ['\\', 'u', '+'] <:+: body → ∀ value,
        Text.Reads Text.Accepts body value ↔ Text.Reads Text.Spells body value) := by
  obtain ⟨body, hbody, hpiece⟩ := body_of_mem_place hplaced hliteral
  refine ⟨body, congrArg Piece.text hpiece, ?_, fun value hvalue ↦ ?_,
    fun hplus value ↦ (Text.reads_spells_iff hplus).symm⟩
  · rw [ofSource, apart_iff hplaced hliteral]
    obtain ⟨offset, piece⟩ := placed
    subst hpiece
    rw [diagnostics_stringLiteral, List.map_eq_nil_iff, Text.faults_eq_nil_iff hbody]
  · have htoken : placed.token? =
        some ⟨.stringLiteral, String.ofList value, placed.span⟩ := by
      obtain ⟨offset, piece⟩ := placed
      subst hpiece
      rw [token?_stringLiteral, Text.decode_of_reads hvalue]
      rfl
    rw [ofSource, ofChars_tokens]
    exact List.mem_append_left _ (List.mem_filterMap.mpr ⟨placed, hplaced, htoken⟩)

/-- Nothing is reported of a literal that holds a tab by its letter. -/
theorem literal_untouched_of_tab :
    (⟨0, ⟨.token .stringLiteral, ['"', '\\', 't', '"']⟩⟩ : Placed) ∈
        place 0 (scan "\"\\t\"".toList) ∧
      ∀ range ∈ labelSpans (ofSource "\"\\t\"").diagnostics, range.Apart ⟨0, 4⟩ := by
  have hreads : Text.Reads Text.Accepts ['\\', 't'] ['\t'] :=
    ⟨[['\\', 't']], rfl, .cons (.spells (.short (by decide))) .nil⟩
  have hbody : ['\\', 't'] ∈ Pattern.stringCharacter∗ :=
    Text.kstar_of_escape (by decide) (Language.nil_mem_kstar _)
  have hplaced : (⟨0, ⟨.token .stringLiteral, ['"', '\\', 't', '"']⟩⟩ : Placed) ∈
      place 0 (scan "\"\\t\"".toList) := by
    have hscan : scan "\"\\t\"".toList = _ := scan_literal hbody
    rw [hscan]
    exact List.mem_cons_self
  refine ⟨hplaced, ?_⟩
  obtain ⟨body, htext, huntouched, -, -⟩ := literal_untouched_iff hplaced rfl
  have heq : body = ['\\', 't'] := (List.append_cancel_right (List.cons.inj htext).2).symm
  exact huntouched.mpr ⟨_, heq ▸ hreads⟩

/-- Nothing is reported of a plus sign in the place of the first digit, which is not a way to write
a character. -/
theorem plus_unreported :
    (ofSource "\"\\u+041\"").diagnostics = [] ∧
      scan "\"\\u+041\"".toList =
        [⟨.token .stringLiteral, '"' :: (['\\', 'u', '+', '0', '4', '1'] ++ ['"'])⟩] ∧
      ¬ ∃ value, Text.Reads Text.Spells ['\\', 'u', '+', '0', '4', '1'] value := by
  have hword : Text.Accepts ['\\', 'u', '+', '0', '4', '1'] 'A' :=
    .plus rfl (Text.hexadecimal_iff.mpr (by decide))
  have hbody : ['\\', 'u', '+', '0', '4', '1'] ∈ Pattern.stringCharacter∗ :=
    Text.kstar_of_accepts hword (by decide) (by decide) (Language.nil_mem_kstar _)
  have hreads : Text.Reads Text.Accepts ['\\', 'u', '+', '0', '4', '1'] ['A'] :=
    ⟨[_], rfl, .cons hword .nil⟩
  refine ⟨?_, scan_literal hbody, ?_⟩
  · have hlexed : ofSource "\"\\u+041\"" = _ := ofChars_literal hbody
    rw [hlexed, Text.decode_of_reads hreads]
    rfl
  · rintro ⟨value, words, hwords, hspells⟩
    cases hspells with
    | nil => cases hwords
    | @cons _ _ others _ hfirst _ =>
      rw [List.flatten_cons] at hwords
      cases hfirst with
      | plain hplain => exact hplain (List.cons.inj hwords).1.symm
      | short hshort =>
        obtain ⟨rfl, -⟩ := List.cons.inj (List.cons.inj hwords).2
        revert hshort
        simp [Text.shortEscapes]
      | code hfour hcode =>
        obtain ⟨first, second, third, fourth, rfl⟩ := List.length_eq_four.mp hfour
        obtain ⟨rfl, -⟩ := List.cons.inj (List.cons.inj (List.cons.inj hwords).2).2
        cases Text.hexadecimal_iff.mp hcode

end Lexed

end CorpusQuery
