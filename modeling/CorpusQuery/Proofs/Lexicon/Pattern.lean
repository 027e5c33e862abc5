import CorpusQuery.Piece
import Mathlib.Computability.Language

/-!
The patterns of query texts. `Pattern.language` gives the words of each pattern as a regular
language: blanks and the two kinds of comments, which are skipped, and the tokens. The main
statements bring the languages into the form in which a text is cut: names and numbers are runs of
characters of one class, the bodies of string literals are what the search for their ends accepts
(`Pattern.stringEnd_of_mem`, `Pattern.mem_of_stringEnd`), and so are the bodies of block comments
(`Pattern.commentEnd?_of_mem`, `Pattern.mem_of_commentEnd?`).
-/

set_option autoImplicit false
set_option relaxedAutoImplicit false

namespace CorpusQuery

open CorpusQuery.Piece

open scoped Computability

/-- What a stretch of a query text that is not invalid can look like. -/
inductive Pattern where
  | blanks
  /-- From two slashes to the end of the line. -/
  | lineComment
  | blockComment
  | pureDigits
  | digits
  | stringLiteral
  | identifier
  | variableName
  | memberName
  | symbol (mark : Symbol)
  deriving DecidableEq, Repr

namespace Pattern

/-! ### Words -/

/-- The words of one character of a class. -/
def single (p : Char → Bool) : Language Char := {word | ∃ c, p c = true ∧ word = [c]}

/-- The language of one word. -/
def literal (chars : List Char) : Language Char := {chars}

/-- One or more words of a language, one behind the other. -/
def repeated (language : Language Char) : Language Char := language * language∗

/-- Whether a character lies in a range, ends included. -/
def between (low high c : Char) : Bool := low ≤ c && c ≤ high

def blank : Language Char := single fun c ↦ [' ', '\t', '\r', '\n', '\x0c'].contains c

def letter : Language Char := single fun c ↦ between 'a' 'z' c || between 'A' 'Z' c

def digit : Language Char := single (between '0' '9')

/-- The characters that may stand in a name behind its first letter. -/
def nameCharacter : Language Char :=
  single fun c ↦ between 'a' 'z' c || between 'A' 'Z' c || between '0' '9' c || c == '_'

/-- Underscores and the digits behind them. -/
def digitGroup : Language Char := repeated (literal ['_']) * repeated digit

/-- A character of a string literal, or a backslash and the character that it escapes. -/
def stringCharacter : Language Char :=
  single (fun c ↦ c != '"' && c != '\\' && c != '\n') + literal ['\\'] * single (· != '\n')

/-- Characters of a block comment up to a run of stars. -/
def starred : Language Char := (single (· != '*'))∗ * repeated (literal ['*'])

/-- Characters behind a run of stars that does not end the comment, and then up to the next run. -/
def commentGroup : Language Char := single (fun c ↦ c != '/' && c != '*') * starred

/-- A block comment behind its opening. -/
def commentBody : Language Char := starred * (commentGroup∗ * literal ['/'])

/-- The words of a pattern. -/
def language : Pattern → Language Char
  | .blanks => repeated blank
  | .lineComment => literal ['/', '/'] * (single (· != '\n'))∗
  | .blockComment => literal ['/', '*'] * commentBody
  | .pureDigits => repeated digit
  | .digits => repeated digit * repeated digitGroup
  | .stringLiteral => literal ['"'] * (stringCharacter∗ * literal ['"'])
  | .identifier => letter * nameCharacter∗
  | .variableName => literal ['@'] * (letter * nameCharacter∗)
  | .memberName => literal ['$'] * (letter * nameCharacter∗)
  | .symbol mark => literal mark.chars

variable {p : Char → Bool} {l : Language Char} {word chars : List Char}

theorem mem_single : word ∈ single p ↔ ∃ c, p c = true ∧ word = [c] := Iff.rfl

theorem mem_literal : word ∈ literal chars ↔ word = chars := Iff.rfl

theorem mem_single_mul : word ∈ single p * l ↔ ∃ c tail, word = c :: tail ∧ p c = true ∧
    tail ∈ l := by
  rw [Language.mem_mul]
  constructor
  · rintro ⟨_, ⟨c, hc, rfl⟩, tail, htail, rfl⟩
    exact ⟨c, tail, rfl, hc, htail⟩
  · rintro ⟨c, tail, rfl, hc, htail⟩
    exact ⟨[c], ⟨c, hc, rfl⟩, tail, htail, rfl⟩

theorem mem_literal_mul : word ∈ literal chars * l ↔ ∃ tail, word = chars ++ tail ∧ tail ∈ l := by
  rw [Language.mem_mul]
  constructor
  · rintro ⟨_, rfl, tail, htail, rfl⟩
    exact ⟨tail, rfl, htail⟩
  · rintro ⟨tail, rfl, htail⟩
    exact ⟨chars, rfl, tail, htail, rfl⟩

/-- A repetition goes on with one more word. -/
theorem append_mem_kstar {tail : List Char} (h : word ∈ l) (htail : tail ∈ l∗) :
    word ++ tail ∈ l∗ := by
  obtain ⟨words, rfl, hwords⟩ := Language.mem_kstar.mp htail
  exact Language.mem_kstar.mpr
    ⟨word :: words, rfl, fun other hother ↦ by
      rcases List.mem_cons.mp hother with rfl | hother
      · exact h
      · exact hwords other hother⟩

/-- What holds of the empty word and goes over to longer words holds of a repetition. -/
theorem kstar_induction {motive : (word : List Char) → word ∈ l∗ → Prop}
    (nil : motive [] (Language.nil_mem_kstar l))
    (append : ∀ first rest (hfirst : first ∈ l) (hrest : rest ∈ l∗), motive rest hrest →
      motive (first ++ rest) (append_mem_kstar hfirst hrest)) {word : List Char} (h : word ∈ l∗) :
    motive word h := by
  obtain ⟨words, rfl, hwords⟩ := Language.mem_kstar.mp h
  induction words with
  | nil => exact nil
  | cons first rest ih =>
    have hrest : ∀ other ∈ rest, other ∈ l :=
      fun other hother ↦ hwords other (List.mem_cons_of_mem _ hother)
    have hmem : rest.flatten ∈ l∗ := Language.join_mem_kstar hrest
    exact append first rest.flatten (hwords first List.mem_cons_self) hmem (ih hrest hmem)

theorem mem_kstar_single : word ∈ (single p)∗ ↔ ∀ c ∈ word, p c = true := by
  refine ⟨fun h ↦ ?_, fun h ↦ ?_⟩
  · induction h using kstar_induction with
    | nil => exact List.forall_mem_nil _
    | append first rest hfirst _ hrest =>
      obtain ⟨c, hc, rfl⟩ := hfirst
      exact List.forall_mem_cons.mpr ⟨hc, hrest⟩
  · induction word with
    | nil => exact Language.nil_mem_kstar _
    | cons c tail ih =>
      obtain ⟨hc, htail⟩ := List.forall_mem_cons.mp h
      have hmem : [c] ∈ single p := ⟨c, hc, rfl⟩
      exact append_mem_kstar hmem (ih htail)

theorem mem_repeated_single : word ∈ repeated (single p) ↔ ∃ c tail, word = c :: tail ∧
    p c = true ∧ ∀ d ∈ tail, p d = true := by
  simp only [repeated, mem_single_mul, mem_kstar_single]

theorem literal_singleton (c : Char) : literal [c] = single (· == c) := by
  ext word
  rw [mem_literal, mem_single]
  constructor
  · rintro rfl
    exact ⟨c, beq_self_eq_true c, rfl⟩
  · rintro ⟨d, hd, rfl⟩
    rw [beq_iff_eq.mp hd]

/-! ### Classes of characters -/

theorem blank_eq : blank = single isBlank := by
  unfold blank isBlank
  congr 1
  funext c
  simp only [List.contains_cons, List.contains_nil, Bool.or_false, Bool.or_assoc]

theorem letter_eq : letter = single isLetter := rfl

theorem digit_eq : digit = single isDigit := rfl

theorem nameCharacter_eq : nameCharacter = single isNameChar := rfl

/-! ### Runs -/

theorem mem_blanks : word ∈ blanks.language ↔ ∃ c tail, word = c :: tail ∧ isBlank c = true ∧
    ∀ d ∈ tail, isBlank d = true := by
  rw [language, blank_eq, mem_repeated_single]

theorem mem_lineComment : word ∈ lineComment.language ↔ ∃ body, word = '/' :: '/' :: body ∧
    ∀ c ∈ body, (c != '\n') = true := by
  simp only [language, mem_literal_mul, mem_kstar_single, List.cons_append, List.nil_append]

theorem mem_pureDigits : word ∈ pureDigits.language ↔ ∃ c tail, word = c :: tail ∧
    isDigit c = true ∧ ∀ d ∈ tail, isDigit d = true := by
  rw [language, digit_eq, mem_repeated_single]

theorem mem_identifier : word ∈ identifier.language ↔ ∃ c tail, word = c :: tail ∧
    isLetter c = true ∧ ∀ d ∈ tail, isNameChar d = true := by
  simp only [language, letter_eq, nameCharacter_eq, mem_single_mul, mem_kstar_single]

/-- The words of a name behind a sigil. -/
theorem mem_sigil_mul {sign : Char} : word ∈ literal [sign] * (letter * nameCharacter∗) ↔
    ∃ c tail, word = sign :: c :: tail ∧ isLetter c = true ∧ ∀ d ∈ tail, isNameChar d = true := by
  simp only [letter_eq, nameCharacter_eq, mem_literal_mul, mem_single_mul, mem_kstar_single]
  constructor
  · rintro ⟨_, rfl, c, tail, rfl, h⟩
    exact ⟨c, tail, rfl, h⟩
  · rintro ⟨c, tail, rfl, h⟩
    exact ⟨_, rfl, c, tail, rfl, h⟩

theorem mem_variableName : word ∈ variableName.language ↔ ∃ c tail, word = '@' :: c :: tail ∧
    isLetter c = true ∧ ∀ d ∈ tail, isNameChar d = true := mem_sigil_mul

theorem mem_memberName : word ∈ memberName.language ↔ ∃ c tail, word = '$' :: c :: tail ∧
    isLetter c = true ∧ ∀ d ∈ tail, isNameChar d = true := mem_sigil_mul

theorem mem_symbol {mark : Symbol} : word ∈ (symbol mark).language ↔ word = mark.chars := Iff.rfl

theorem mem_repeated_literal {c : Char} : word ∈ repeated (literal [c]) ↔ ∃ tail, word = c :: tail ∧
    ∀ d ∈ tail, d = c := by
  rw [literal_singleton, mem_repeated_single]
  simp only [beq_iff_eq]
  constructor
  · rintro ⟨_, tail, rfl, rfl, htail⟩
    exact ⟨tail, rfl, htail⟩
  · rintro ⟨tail, rfl, htail⟩
    exact ⟨c, tail, rfl, rfl, htail⟩

/-! ### Separated digits -/

theorem mem_digitGroup : word ∈ digitGroup ↔ ∃ bars c tail, word = '_' :: (bars ++ c :: tail) ∧
    (∀ d ∈ bars, d = '_') ∧ isDigit c = true ∧ ∀ d ∈ tail, isDigit d = true := by
  rw [digitGroup, Language.mem_mul]
  simp only [mem_repeated_literal, digit_eq, mem_repeated_single]
  constructor
  · rintro ⟨_, ⟨bars, rfl, hbars⟩, _, ⟨c, tail, rfl, hc, htail⟩, rfl⟩
    exact ⟨bars, c, tail, rfl, hbars, hc, htail⟩
  · rintro ⟨bars, c, tail, rfl, hbars, hc, htail⟩
    exact ⟨'_' :: bars, ⟨bars, rfl, hbars⟩, c :: tail, ⟨c, tail, rfl, hc, htail⟩, rfl⟩

theorem isNumberChar_of_digit {c : Char} (h : isDigit c = true) : isNumberChar c = true := by
  rw [isNumberChar, h, Bool.true_or]

theorem ne_underscore_of_digit {c : Char} (h : isDigit c = true) : c ≠ '_' := by
  rintro rfl
  cases h

/-- Digits do not end in an underscore. -/
theorem getLast?_of_digits {c : Char} {tail : List Char} (hc : isDigit c = true)
    (htail : ∀ d ∈ tail, isDigit d = true) : (c :: tail).getLast? ≠ some '_' := fun h ↦ by
  have hdigits : ∀ d ∈ c :: tail, isDigit d = true := List.forall_mem_cons.mpr ⟨hc, htail⟩
  exact ne_underscore_of_digit (hdigits _ (List.mem_of_getLast? h)) rfl

/-- Groups of digits are made of the characters of numbers, and they end in a digit. -/
theorem of_mem_digitGroups (h : word ∈ digitGroup∗) :
    (∀ c ∈ word, isNumberChar c = true) ∧ word.getLast? ≠ some '_' := by
  induction h using kstar_induction with
  | nil => exact ⟨nofun, nofun⟩
  | append first rest hfirst _ ih =>
    obtain ⟨bars, c, tail, rfl, hbars, hc, htail⟩ := mem_digitGroup.mp hfirst
    refine ⟨fun d hd ↦ ?_, ?_⟩
    · rcases List.mem_append.mp hd with hd | hd
      · rcases List.mem_cons.mp hd with rfl | hd
        · rfl
        rcases List.mem_append.mp hd with hd | hd
        · rw [hbars d hd]
          rfl
        rcases List.mem_cons.mp hd with rfl | hd
        · exact isNumberChar_of_digit hc
        · exact isNumberChar_of_digit (htail d hd)
      · exact ih.1 d hd
    · have hlast : ('_' :: (bars ++ c :: tail)).getLast? ≠ some '_' := by
        rw [← List.cons_append, List.getLast?_append_of_ne_nil _ (List.cons_ne_nil c tail)]
        exact getLast?_of_digits hc htail
      cases rest with
      | nil => rwa [List.append_nil]
      | cons d rest =>
        rw [List.getLast?_append_of_ne_nil _ (List.cons_ne_nil d rest)]
        exact ih.2

/-- What may follow a digit of a number is more digits and then groups, and what may follow an
underscore is more underscores, the digits behind them, and then groups. -/
theorem mem_digitGroups (hword : ∀ c ∈ word, isNumberChar c = true)
    (hlast : word.getLast? ≠ some '_') :
    word ∈ digit∗ * digitGroup∗ ∧
      (word ≠ [] → word ∈ (literal ['_'])∗ * (repeated digit * digitGroup∗)) := by
  induction word with
  | nil => exact ⟨Language.append_mem_mul (Language.nil_mem_kstar _) (Language.nil_mem_kstar _),
      fun h ↦ absurd rfl h⟩
  | cons c word ih =>
    obtain ⟨hc, hword⟩ := List.forall_mem_cons.mp hword
    have hlast' : word.getLast? ≠ some '_' := fun h ↦ by
      obtain ⟨before, rfl⟩ := List.getLast?_eq_some_iff.mp h
      exact hlast (by rw [← List.cons_append, List.getLast?_concat])
    obtain ⟨hdigits, hbars⟩ := ih hword hlast'
    rcases Bool.or_eq_true_iff.mp hc with hdigit | hbar
    · have hmem : [c] ∈ digit := ⟨c, hdigit, rfl⟩
      obtain ⟨run, hrun, groups, hgroups, rfl⟩ := Language.mem_mul.mp hdigits
      refine ⟨Language.append_mem_mul (append_mem_kstar hmem hrun) hgroups, fun _ ↦ ?_⟩
      exact Language.append_mem_mul (Language.nil_mem_kstar _)
        (Language.append_mem_mul (Language.append_mem_mul hmem hrun) hgroups)
    · obtain rfl := beq_iff_eq.mp hbar
      have hne : word ≠ [] := by
        rintro rfl
        exact hlast rfl
      obtain ⟨bars, hmore, tail, htail, rfl⟩ := Language.mem_mul.mp (hbars hne)
      have hmem : ['_'] ∈ literal ['_'] := rfl
      refine ⟨?_, fun _ ↦ Language.append_mem_mul (append_mem_kstar hmem hmore) htail⟩
      obtain ⟨run, hrun, groups, hgroups, rfl⟩ := Language.mem_mul.mp htail
      have hgroup : '_' :: bars ++ run ∈ digitGroup :=
        Language.append_mem_mul (Language.append_mem_mul hmem hmore) hrun
      have hall := append_mem_kstar hgroup hgroups
      rw [List.append_assoc] at hall
      exact Language.append_mem_mul (Language.nil_mem_kstar _) hall

theorem mem_digits : word ∈ digits.language ↔ ∃ c tail, word = c :: tail ∧ isDigit c = true ∧
    (∀ d ∈ tail, isNumberChar d = true) ∧ '_' ∈ tail ∧ word.getLast? ≠ some '_' := by
  constructor
  · intro h
    obtain ⟨run, hrun, groups, hgroups, rfl⟩ := Language.mem_mul.mp h
    rw [digit_eq] at hrun
    obtain ⟨c, tail, rfl, hc, htail⟩ := mem_repeated_single.mp hrun
    obtain ⟨group, hgroup, others, hothers, rfl⟩ := Language.mem_mul.mp hgroups
    obtain ⟨hchars, hlast⟩ := of_mem_digitGroups (append_mem_kstar hgroup hothers)
    obtain ⟨bars, d, digits, rfl, -⟩ := mem_digitGroup.mp hgroup
    refine ⟨c, _, rfl, hc, fun e he ↦ ?_, ?_, ?_⟩
    · rcases List.mem_append.mp he with he | he
      · exact isNumberChar_of_digit (htail e he)
      · exact hchars e he
    · exact List.mem_append_right _ List.mem_cons_self
    · have hne : '_' :: (bars ++ d :: digits) ++ others ≠ [] := List.cons_ne_nil _ _
      rwa [List.getLast?_append_of_ne_nil _ hne]
  · rintro ⟨c, tail, rfl, hc, htail, hbar, hlast⟩
    have hne : tail ≠ [] := List.ne_nil_of_mem hbar
    rw [← List.singleton_append, List.getLast?_append_of_ne_nil _ hne] at hlast
    obtain ⟨run, hrun, groups, hgroups, rfl⟩ :=
      Language.mem_mul.mp (mem_digitGroups htail hlast).1
    have hdigits : ∀ d ∈ run, isDigit d = true := by
      rw [digit_eq] at hrun
      exact mem_kstar_single.mp hrun
    have hmem : [c] ∈ digit := ⟨c, hc, rfl⟩
    refine Language.append_mem_mul (Language.append_mem_mul hmem hrun) ?_
    rw [← Language.one_add_self_mul_kstar_eq_kstar] at hgroups
    rcases hgroups with hnone | hgroups
    · obtain rfl : groups = [] := hnone
      rw [List.append_nil] at hbar
      exact absurd rfl (ne_underscore_of_digit (hdigits _ hbar))
    · exact hgroups

/-! ### String literals -/

/-- The end of a string is found behind its characters. -/
theorem stringEnd_characters (h : word ∈ stringCharacter∗) (rest : List Char) :
    stringEnd (word ++ rest) = (stringEnd rest).map id (· + word.length) := by
  induction h using kstar_induction with
  | nil => rfl
  | append first others hfirst _ ih =>
    rw [List.append_assoc, List.length_append]
    rcases hfirst with ⟨c, hc, rfl⟩ | hescape
    · simp only [Bool.and_eq_true, bne_iff_ne] at hc
      obtain ⟨⟨hquote, hslash⟩, hbreak⟩ := hc
      rw [List.singleton_append, stringEnd, ih]
      · refine Prod.ext rfl ?_
        change _ + others.length + 1 = _ + (1 + others.length)
        omega
      · exact hquote
      · exact hbreak
      · exact fun hc ↦ absurd hc hslash
      · exact fun _ hc ↦ absurd hc hslash
      · exact fun _ _ hc ↦ absurd hc hslash
    · obtain ⟨_, rfl, c, hc, rfl⟩ := mem_literal_mul.mp hescape
      change stringEnd ('\\' :: c :: (others ++ rest)) = _
      rw [stringEnd, ih]
      · refine Prod.ext rfl ?_
        change _ + others.length + 2 = _ + (2 + others.length)
        omega
      · exact bne_iff_ne.mp hc

/-- A string ends behind a word of its body, whatever follows. -/
theorem stringEnd_of_mem (h : word ∈ stringCharacter∗ * literal ['"']) (rest : List Char) :
    stringEnd (word ++ rest) = (true, word.length) := by
  obtain ⟨body, hbody, _, rfl, rfl⟩ := Language.mem_mul.mp h
  rw [List.append_assoc, stringEnd_characters hbody, List.length_append, Nat.add_comm]
  rfl

/-- A body goes on with one more character in front. -/
theorem append_mem_kstar_mul {m : Language Char} {tail : List Char} (h : word ∈ l)
    (htail : tail ∈ l∗ * m) : word ++ tail ∈ l∗ * m := by
  obtain ⟨rest, hrest, last, hlast, rfl⟩ := Language.mem_mul.mp htail
  rw [← List.append_assoc]
  exact Language.append_mem_mul (append_mem_kstar h hrest) hlast

theorem mem_of_stringEnd (h : stringEnd word = (true, word.length)) :
    word ∈ stringCharacter∗ * literal ['"'] := by
  fun_induction stringEnd word with
  | case1 | case3 | case4 | case5 => cases h
  | case2 rest =>
    obtain rfl : rest = [] := List.eq_nil_of_length_eq_zero (by simpa using h.symm)
    exact Language.append_mem_mul (Language.nil_mem_kstar _) rfl
  | case6 c rest hbreak ih =>
    have hrest : stringEnd rest = (true, rest.length) := by simpa [Prod.ext_iff] using h
    have hmem : ['\\', c] ∈ stringCharacter :=
      .inr (mem_literal_mul.mpr ⟨[c], rfl, c, bne_iff_ne.mpr hbreak, rfl⟩)
    exact append_mem_kstar_mul hmem (ih hrest)
  | case7 c rest hquote hbreak hlast _ hescape ih =>
    have hrest : stringEnd rest = (true, rest.length) := by simpa [Prod.ext_iff] using h
    have hslash : c ≠ '\\' := fun hc ↦ by
      cases rest with
      | nil => exact hlast hc rfl
      | cons next rest => exact hescape next rest hc rfl
    have hmem : [c] ∈ stringCharacter := .inl ⟨c, by
      simp only [Bool.and_eq_true, bne_iff_ne]
      exact ⟨⟨hquote, hslash⟩, hbreak⟩, rfl⟩
    exact append_mem_kstar_mul hmem (ih hrest)

theorem mem_stringLiteral : word ∈ stringLiteral.language ↔ ∃ body, word = '"' :: body ∧
    body ∈ stringCharacter∗ * literal ['"'] := mem_literal_mul

/-! ### Block comments -/

theorem commentEnd?_of_ne {c : Char} (hc : c ≠ '*') (rest : List Char) :
    commentEnd? (c :: rest) = (commentEnd? rest).map (· + 1) := by
  rw [commentEnd?]
  exact fun _ h ↦ absurd h hc

theorem commentEnd?_star {c : Char} (hc : c ≠ '/') (rest : List Char) :
    commentEnd? ('*' :: c :: rest) = (commentEnd? (c :: rest)).map (· + 1) := by
  rw [commentEnd?]
  rintro _ - ⟨⟩
  exact hc rfl

/-- The end of a comment is found from the last of some stars. -/
theorem commentEnd?_stars {stars : List Char} (hstars : ∀ c ∈ stars, c = '*') (rest : List Char) :
    commentEnd? ('*' :: (stars ++ rest)) =
      (commentEnd? ('*' :: rest)).map (· + stars.length) := by
  induction stars with
  | nil => exact Option.map_id'.symm
  | cons c stars ih =>
    obtain ⟨rfl, hrest⟩ := List.forall_mem_cons.mp hstars
    have hc : '*' ≠ '/' := by decide
    rw [List.cons_append, commentEnd?_star hc, ih hrest, Option.map_map]
    rfl

theorem commentEnd?_starred (h : word ∈ starred) : ∃ length, word.length = length + 1 ∧
    ∀ rest, commentEnd? (word ++ rest) = (commentEnd? ('*' :: rest)).map (· + length) := by
  obtain ⟨plain, hplain, _, hrun, rfl⟩ := Language.mem_mul.mp h
  obtain ⟨stars, rfl, hstars⟩ := mem_repeated_literal.mp hrun
  refine ⟨stars.length + plain.length, ?_, fun rest ↦ ?_⟩
  · rw [List.length_append, List.length_cons]
    omega
  replace hplain := mem_kstar_single.mp hplain
  clear h hrun
  induction plain with
  | nil => exact commentEnd?_stars hstars rest
  | cons c plain ih =>
    obtain ⟨hc, hplain⟩ := List.forall_mem_cons.mp hplain
    rw [List.cons_append, List.cons_append, commentEnd?_of_ne (bne_iff_ne.mp hc), ih hplain,
      Option.map_map]
    rfl

/-- The end of a comment is found behind groups that do not end it. -/
theorem commentEnd?_groups (h : word ∈ commentGroup∗) (rest : List Char) :
    commentEnd? ('*' :: (word ++ rest)) =
      (commentEnd? ('*' :: rest)).map (· + word.length) := by
  induction h using kstar_induction with
  | nil => exact Option.map_id'.symm
  | append first others hfirst _ ih =>
    obtain ⟨c, tail, rfl, hc, htail⟩ := mem_single_mul.mp hfirst
    simp only [Bool.and_eq_true, bne_iff_ne] at hc
    obtain ⟨length, hlength, hend⟩ := commentEnd?_starred htail
    rw [List.cons_append, List.cons_append, List.append_assoc, commentEnd?_star hc.1,
      commentEnd?_of_ne hc.2, hend, ih, Option.map_map, Option.map_map, Option.map_map]
    refine congrArg (Option.map · _) (funext fun count ↦ ?_)
    simp only [Function.comp_apply, List.length_cons, List.length_append]
    omega

/-- A comment ends behind a word of its body, whatever follows. -/
theorem commentEnd?_of_mem (h : word ∈ commentBody) (rest : List Char) :
    commentEnd? (word ++ rest) = some word.length := by
  obtain ⟨plain, hplain, _, htail, rfl⟩ := Language.mem_mul.mp h
  obtain ⟨groups, hgroups, _, rfl, rfl⟩ := Language.mem_mul.mp htail
  obtain ⟨length, hlength, hend⟩ := commentEnd?_starred hplain
  have hslash : commentEnd? ('*' :: (['/'] ++ rest)) = some 2 := rfl
  rw [List.append_assoc, hend, List.append_assoc, commentEnd?_groups hgroups, hslash,
    Option.map_some, Option.map_some, List.length_append, List.length_append, hlength]
  refine congrArg some ?_
  change 2 + groups.length + length = length + 1 + (groups.length + 1)
  omega

/-- A text that holds the end of a comment as its end is the body of one, and a text that does so
behind a star is the rest of a body behind a star. -/
theorem mem_of_commentEnd? :
    (commentEnd? word = some word.length → word ∈ commentBody) ∧
      (commentEnd? ('*' :: word) = some (word.length + 1) →
        word ∈ (literal ['*'])∗ * (commentGroup∗ * literal ['/'])) := by
  induction word with
  | nil => exact ⟨nofun, nofun⟩
  | cons c word ih =>
    obtain ⟨hbody, hrest⟩ := ih
    refine ⟨fun h ↦ ?_, fun h ↦ ?_⟩
    · by_cases hc : c = '*'
      · obtain rfl := hc
        obtain ⟨stars, hstars, last, hlast, rfl⟩ := Language.mem_mul.mp (hrest h)
        have hmem : ['*'] ∈ literal ['*'] := rfl
        have hstarred : '*' :: stars ∈ starred :=
          Language.append_mem_mul (Language.nil_mem_kstar _) (Language.append_mem_mul hmem hstars)
        exact Language.append_mem_mul hstarred hlast
      · rw [commentEnd?_of_ne hc] at h
        obtain ⟨first, hfirst, last, hlast, rfl⟩ := Language.mem_mul.mp (hbody (by simpa using h))
        obtain ⟨plain, hplain, stars, hstars, rfl⟩ := Language.mem_mul.mp hfirst
        have hmem : [c] ∈ single (· != '*') := ⟨c, bne_iff_ne.mpr hc, rfl⟩
        exact Language.append_mem_mul
          (Language.append_mem_mul (append_mem_kstar hmem hplain) hstars) hlast
    · by_cases hslash : c = '/'
      · obtain rfl := hslash
        have hlength : 2 = word.length + 1 + 1 := Option.some.inj h
        obtain rfl : word = [] := List.eq_nil_of_length_eq_zero (by omega)
        exact Language.append_mem_mul (Language.nil_mem_kstar _)
          (Language.append_mem_mul (Language.nil_mem_kstar _) rfl)
      rw [commentEnd?_star hslash] at h
      by_cases hc : c = '*'
      · obtain rfl := hc
        have hmem : ['*'] ∈ literal ['*'] := rfl
        exact append_mem_kstar_mul hmem (hrest (by simpa using h))
      · rw [commentEnd?_of_ne hc] at h
        obtain ⟨first, hfirst, last, hlast, rfl⟩ := Language.mem_mul.mp (hbody (by simpa using h))
        have hmem : [c] ∈ single (fun c ↦ c != '/' && c != '*') := ⟨c, by
          rw [Bool.and_eq_true, bne_iff_ne, bne_iff_ne]
          exact ⟨hslash, hc⟩, rfl⟩
        have hgroup : c :: first ∈ commentGroup := Language.append_mem_mul hmem hfirst
        exact Language.append_mem_mul (Language.nil_mem_kstar _)
          (append_mem_kstar_mul hgroup hlast)

theorem mem_blockComment : word ∈ blockComment.language ↔ ∃ body, word = '/' :: '*' :: body ∧
    body ∈ commentBody := mem_literal_mul

end Pattern

end CorpusQuery
