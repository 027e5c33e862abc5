import CorpusQuery.Proofs.Spelling.Mirror

/-!
Names, numbers and the ends of edges in a copy. These are the places where touching tokens matter:
in a copy only the tokens of one wording touch, so a number or an end of an edge is read there
exactly where it was read before.
-/

set_option autoImplicit false
set_option relaxedAutoImplicit false

namespace CorpusQuery

theorem Written.cons {token : Token} {lexeme : Lexeme} {lexemes : List Lexeme}
    {chunk : List Token} (hlexeme : token.lexeme = lexeme) (h : Written lexemes chunk)
    (htouch : ∀ next ∈ chunk.head?, token.Touches next) :
    Written (lexeme :: lexemes) (token :: chunk) :=
  ⟨by rw [List.map_cons, hlexeme, h.1], List.isChain_cons.mpr ⟨htouch, h.2⟩⟩

/-! ### Digits -/

namespace Token

theorem of_lexeme_digits {token : Token} {text : List Char} (h : token.lexeme = .digits text) :
    Grammar.digitKinds.contains token.kind = true ∧ token.text = String.ofList text := by
  have hkind : token.kind = (Lexeme.digits text).kind := congrArg Lexeme.kind h
  have htext : token.lexeme.text = String.ofList text := congrArg Lexeme.text h
  have hdigits : (Lexeme.digits text).kind = .digits ∨ (Lexeme.digits text).kind = .pureDigits := by
    unfold Lexeme.digits
    split
    · exact .inl rfl
    · exact .inr rfl
  rcases hdigits with hdigits | hdigits
  all_goals
    rw [hdigits] at hkind
    rw [lexeme, hkind] at htext
    exact ⟨hkind ▸ by decide, htext⟩

theorem lexeme_of_symbol {token : Token} {mark : Symbol} (h : token.kind = .symbol mark) :
    token.lexeme = .mark (.symbol mark) := by
  rw [lexeme, h]
  rfl

theorem Regular.lexeme_eq {token : Token} (h : token.Regular)
    (hkind : Grammar.digitKinds.contains token.kind = true) :
    token.lexeme = .digits token.text.toList ∧ '.' ∉ token.text.toList ∧
      '-' ∉ token.text.toList := by
  refine h.digits ?_
  rw [Grammar.digitKinds, KindSet.contains_ofList] at hkind
  simpa using hkind

end Token

namespace Numeral

theorem lexemes_eq_cons (numeral : Numeral) :
    ∃ text others, numeral.lexemes = .digits text :: others := by
  cases numeral <;> exact ⟨_, _, rfl⟩

/-- A point splits a number into the digits before it and those behind it. -/
theorem lexemes_decimal {whole fraction : String} (h : '.' ∉ whole.toList) :
    (decimal (whole ++ "." ++ fraction)).lexemes =
      [.digits whole.toList, .mark (.symbol .dot), .digits fraction.toList] := by
  have htext : (whole ++ "." ++ fraction).toList = whole.toList ++ '.' :: fraction.toList := by
    simp
  have hwhole : ∀ c ∈ whole.toList, (c != '.') = true := by
    intro c hc
    refine bne_iff_ne.mpr fun heq ↦ ?_
    exact h (heq ▸ hc)
  have htake : (whole.toList ++ '.' :: fraction.toList).takeWhile (· != '.') = whole.toList := by
    rw [List.takeWhile_append_of_pos hwhole]
    simp
  have hdrop : (whole.toList ++ '.' :: fraction.toList).dropWhile (· != '.') =
      '.' :: fraction.toList := by
    rw [List.dropWhile_append_of_pos hwhole]
    simp
  simp only [lexemes, htext, htake, hdrop, List.tail_cons]

/-- The numbers that are read without a sign. -/
inductive Unsigned : Numeral → Prop
  | integer {text : String} (h : '-' ∉ text.toList) : Unsigned (.integer text)
  | decimal {whole fraction : String} (hpoint : '.' ∉ whole.toList) (h : '-' ∉ whole.toList) :
      Unsigned (.decimal (whole ++ "." ++ fraction))

theorem Unsigned.isNegative_eq {numeral : Numeral} (h : numeral.Unsigned) :
    numeral.isNegative = false := by
  rw [isNegative, beq_eq_false_iff_ne]
  intro hhead
  cases h with
  | integer h => exact h (List.mem_of_mem_head? hhead)
  | @decimal whole fraction _ h =>
    have htext : (whole ++ "." ++ fraction).toList = whole.toList ++ '.' :: fraction.toList := by
      simp
    simp only [text, htext] at hhead
    cases hwhole : whole.toList with
    | nil => simp [hwhole] at hhead
    | cons first others =>
      rw [hwhole, List.cons_append, List.head?_cons, Option.some.injEq] at hhead
      exact h (hwhole ▸ hhead ▸ List.mem_cons_self)

/-- A number with a minus before it. -/
def negated (numeral : Numeral) : Numeral := numeral.map ("-" ++ ·)

theorem isNegative_negated (numeral : Numeral) : numeral.negated.isNegative = true := by
  cases numeral <;> simp [negated, map, isNegative, text]

theorem unsigned_negated (numeral : Numeral) : numeral.negated.unsigned = numeral := by
  cases numeral <;> simp [negated, map, unsigned]

end Numeral

/-- What an argument of a marker can be. -/
inductive Numeral.Signed : Numeral → Prop
  | unsigned {numeral : Numeral} (h : numeral.Unsigned) : Signed numeral
  | negated {numeral : Numeral} (h : numeral.Unsigned) : Signed numeral.negated

namespace Wording

theorem usual_argument {numeral : Numeral} (h : numeral.Unsigned) :
    (argument numeral).usual = numeral.lexemes := by
  simp [usual, h.isNegative_eq]

theorem usual_argument_negated (numeral : Numeral) :
    (argument numeral.negated).usual = .mark (.symbol .minus) :: numeral.lexemes := by
  simp [usual, numeral.isNegative_negated, numeral.unsigned_negated]

theorem plus_mem_ways_argument {numeral : Numeral} (h : numeral.Unsigned) :
    .mark (.symbol .plus) :: numeral.lexemes ∈ (argument numeral).ways := by
  simp [ways, h.isNegative_eq]

end Wording

namespace Grammar

open CorpusQuery.Parser

/-! ### Numbers -/

theorem atDecimal_iff {session : Session} (h : Closing session.rest) :
    atDecimal session.cursor.toPlace = true ↔ ∃ whole point fraction rest,
      session.rest = whole :: point :: fraction :: rest ∧
        digitKinds.contains whole.kind = true ∧ point.kind = .symbol .dot ∧
          digitKinds.contains fraction.kind = true ∧ whole.Touches point ∧
            point.Touches fraction := by
  rw [Session.rest] at h ⊢
  unfold atDecimal Place.touches Place.peekKind Place.peek Place.kind
  cases hahead : session.cursor.ahead with
  | nil =>
    rw [hahead] at h
    cases h with
    | last hend => simp [Place.along, hend]
    | cons _ h => cases h
  | cons point ahead =>
    cases ahead with
    | nil =>
      rw [hahead] at h
      cases h with
      | cons _ h =>
        cases h with
        | last hend => simp [Place.along, hend]
        | cons _ h => cases h
    | cons fraction rest =>
      cases rest <;>
        simp [Place.along, Token.Touches, and_assoc]

theorem numeral_of_decimal {session : Session} (h : atDecimal session.cursor.toPlace = true) :
    numeral session = .ok (.decimal (session.cursor.here.text ++ "." ++
      session.passed.passed.cursor.here.text)) session.passed.passed.passed := by
  rw [numeral, bind_of_ok (show look atDecimal session = .ok true session by rw [look, h])]
  rfl

theorem integer_of_digits {session : Session} (h : digitKinds.contains session.cursor.kind = true) :
    integer session = .ok session.cursor.here.text (session.tested digitKinds).passed := by
  rw [integer, bind_of_ok (consumeAny_of_contains h)]
  rfl

theorem digits_of_integer {session last : Session} {value : String}
    (hrun : integer session = .ok value last) : digitKinds.contains session.cursor.kind = true := by
  cases h : digitKinds.contains session.cursor.kind with
  | true => rfl
  | false =>
    rw [integer, bind_of_ok (consumeAny_of_not_contains h)] at hrun
    cases hrun

theorem numeral_of_not_decimal {session : Session}
    (h : atDecimal session.cursor.toPlace = false) :
    numeral session = (Numeral.integer <$> integer) session := by
  rw [numeral, bind_of_ok (show look atDecimal session = .ok false session by rw [look, h])]
  rfl

theorem ne_endOfInput_of_digits {kind : Kind} (h : digitKinds.contains kind = true) :
    kind ≠ .endOfInput := by
  rintro rfl
  revert h
  decide

theorem passes_tested_passed {session : Session} (kinds : KindSet) (hclosing : Closing session.rest)
    (hkind : session.cursor.kind ≠ .endOfInput) :
    session.Passes [session.cursor.here] (session.tested kinds).passed :=
  (Session.Passes.of_still (.tested session kinds)).trans (.passed hclosing hkind)

/-- A number that has been read is written by the tokens that were passed, and it has no sign. -/
theorem numeral_written {session last : Session} {value : Numeral} (hclosing : Closing session.rest)
    (hrun : numeral session = .ok value last) :
    ∃ chunk, Written value.lexemes chunk ∧ session.Passes chunk last ∧ value.Unsigned := by
  cases hdecimal : atDecimal session.cursor.toPlace with
  | true =>
    rw [numeral_of_decimal hdecimal] at hrun
    cases hrun
    obtain ⟨whole, point, fraction, rest, hrest, hwhole, hpoint, hfraction, htouch, htouch'⟩ :=
      (atDecimal_iff hclosing).mp hdecimal
    obtain ⟨hhere, hhere', hpasses⟩ := Session.Passes.of_three hclosing hrest
      (ne_endOfInput_of_digits hwhole) (by rw [hpoint]; nofun) (ne_endOfInput_of_digits hfraction)
    rw [hrest] at hclosing
    obtain ⟨hregular, hclosing'⟩ := hclosing.of_cons (ne_endOfInput_of_digits hwhole)
    obtain ⟨-, hclosing''⟩ := hclosing'.of_cons (by rw [hpoint]; nofun)
    obtain ⟨hregular', -⟩ := hclosing''.of_cons (ne_endOfInput_of_digits hfraction)
    obtain ⟨hlexeme, hdot, hdash⟩ := hregular.lexeme_eq hwhole
    obtain ⟨hlexeme', -⟩ := hregular'.lexeme_eq hfraction
    have hmark : point.lexeme = .mark (.symbol .dot) := by
      rw [Token.lexeme, hpoint]
      rfl
    rw [hhere, hhere']
    refine ⟨_, ⟨?_, ?_⟩, hpasses, .decimal hdot hdash⟩
    · rw [Numeral.lexemes_decimal hdot]
      simp only [List.map_cons, List.map_nil, hlexeme, hlexeme', hmark]
    · exact .cons_cons htouch (.cons_cons htouch' (.singleton _))
  | false =>
    rw [numeral_of_not_decimal hdecimal, map_eq_pure_bind] at hrun
    cases hinteger : integer session with
    | error failure failed =>
      rw [bind_of_error hinteger] at hrun
      cases hrun
    | ok text between =>
      have hkind := digits_of_integer hinteger
      rw [bind_of_ok hinteger] at hrun
      rw [integer_of_digits hkind] at hinteger
      cases hinteger
      cases hrun
      have hpasses := passes_tested_passed digitKinds hclosing (ne_endOfInput_of_digits hkind)
      obtain ⟨hregular, -⟩ := hclosing.of_cons (ne_endOfInput_of_digits hkind)
      obtain ⟨hlexeme, -, hdash⟩ := hregular.lexeme_eq hkind
      exact ⟨[session.cursor.here], ⟨congrArg (fun lexeme ↦ [lexeme]) hlexeme, .singleton _⟩,
        hpasses, .integer hdash⟩

/-- Tokens that are a number without a sign. -/
inductive Digital : Numeral → List Token → Prop
  | integer {token : Token} (h : digitKinds.contains token.kind = true) :
      Digital (.integer token.text) [token]
  | decimal {whole point fraction : Token} (hwhole : digitKinds.contains whole.kind = true)
      (hpoint : point.kind = .symbol .dot) (hfraction : digitKinds.contains fraction.kind = true)
      (htouch : whole.Touches point) (htouch' : point.Touches fraction) :
      Digital (.decimal (whole.text ++ "." ++ fraction.text)) [whole, point, fraction]

/-- No point and digits belong to a chunk. -/
def Complete (chunk rest : List Token) : Prop :=
  ∀ last ∈ chunk.getLast?, ∀ point fraction others, rest = point :: fraction :: others →
    point.kind = .symbol .dot → digitKinds.contains fraction.kind = true → ¬ last.Touches point

theorem complete_of_apart {chunk rest : List Token} (h : Apart chunk rest) :
    Complete chunk rest := by
  rintro last hlast point fraction others rfl hpoint -
  exact h last hlast point rfl (hpoint ▸ nofun)

theorem Digital.first {value : Numeral} {chunk : List Token} (h : Digital value chunk) :
    ∃ first others, chunk = first :: others ∧ digitKinds.contains first.kind = true := by
  cases h with
  | integer h => exact ⟨_, _, rfl, h⟩
  | decimal hwhole => exact ⟨_, _, rfl, hwhole⟩

/-- Tokens that are a number are read as it. -/
theorem numeral_of_digital {session : Session} {value : Numeral} {chunk rest : List Token}
    (h : Digital value chunk) (hclosing : Closing session.rest)
    (hrest : session.rest = chunk ++ rest) (hcomplete : Complete chunk rest) :
    ∃ last, numeral session = .ok value last ∧ session.Passes chunk last := by
  cases h with
  | @decimal whole point fraction hwhole hpoint hfraction htouch htouch' =>
    have hdecimal := (atDecimal_iff hclosing).mpr
      ⟨whole, point, fraction, rest, hrest, hwhole, hpoint, hfraction, htouch, htouch'⟩
    obtain ⟨hhere, hhere', hpasses⟩ := Session.Passes.of_three hclosing hrest
      (ne_endOfInput_of_digits hwhole) (by rw [hpoint]; nofun) (ne_endOfInput_of_digits hfraction)
    refine ⟨_, ?_, hpasses⟩
    rw [numeral_of_decimal hdecimal, hhere, hhere']
  | @integer token hkind =>
    have hdecimal : atDecimal session.cursor.toPlace = false := by
      rw [← Bool.not_eq_true, atDecimal_iff hclosing]
      rintro ⟨whole, point, fraction, others, heq, -, hpoint, hfraction, htouch, -⟩
      obtain ⟨rfl, rfl⟩ := List.cons.inj (hrest.symm.trans heq)
      exact hcomplete token rfl point fraction others rfl hpoint hfraction htouch
    obtain ⟨rfl, -⟩ := List.cons.inj hrest
    refine ⟨_, ?_, passes_tested_passed digitKinds hclosing (ne_endOfInput_of_digits hkind)⟩
    rw [numeral_of_not_decimal hdecimal, map_eq_pure_bind, bind_of_ok (integer_of_digits hkind)]
    rfl

/-- What is written as a number is one. -/
theorem Digital.of_written {numeral : Numeral} {chunk : List Token}
    (h : Written numeral.lexemes chunk) : ∃ value, Digital value chunk := by
  cases numeral with
  | decimal text =>
    obtain ⟨whole, others, rfl, hwhole, hothers⟩ := h.first
    obtain ⟨point, others, rfl, hpoint, hothers⟩ := hothers.first
    obtain ⟨fraction, rfl, hfraction⟩ := hothers.singleton
    have htouch := List.isChain_cons_cons.mp h.2
    exact ⟨_, .decimal (Token.of_lexeme_digits hwhole).1 (congrArg Lexeme.kind hpoint)
      (Token.of_lexeme_digits hfraction).1 htouch.1 (List.isChain_cons_cons.mp htouch.2).1⟩
  | integer text =>
    obtain ⟨token, rfl, htoken⟩ := h.singleton
    exact ⟨_, .integer (Token.of_lexeme_digits htoken).1⟩

/-- A number that can be read is the one that is written. -/
theorem Digital.of_unsigned {value : Numeral} {chunk : List Token} (hvalue : value.Unsigned)
    (h : Written value.lexemes chunk) : Digital value chunk := by
  cases hvalue with
  | @decimal whole fraction hdot _ =>
    rw [Numeral.lexemes_decimal hdot] at h
    obtain ⟨first, others, rfl, hfirst, hothers⟩ := h.first
    obtain ⟨point, others, rfl, hpoint, hothers⟩ := hothers.first
    obtain ⟨second, rfl, hsecond⟩ := hothers.singleton
    obtain ⟨hkind, htext⟩ := Token.of_lexeme_digits hfirst
    obtain ⟨hkind', htext'⟩ := Token.of_lexeme_digits hsecond
    have htouch := List.isChain_cons_cons.mp h.2
    have hdigital := Digital.decimal hkind (congrArg Lexeme.kind hpoint) hkind' htouch.1
      (List.isChain_cons_cons.mp htouch.2).1
    rwa [htext, htext', String.ofList_toList, String.ofList_toList] at hdigital
  | @integer text _ =>
    obtain ⟨token, rfl, htoken⟩ := h.singleton
    obtain ⟨hkind, htext⟩ := Token.of_lexeme_digits htoken
    have hdigital := Digital.integer hkind
    rwa [htext, String.ofList_toList] at hdigital

/-! ### Signs -/

theorem lookup_signs {kind : Kind} {sign : String} (h : signs.lookup kind = some sign) :
    kind = .symbol .plus ∧ sign = "" ∨ kind = .symbol .minus ∧ sign = "-" := by
  obtain ⟨before, after, heq, -⟩ := List.lookup_eq_some_iff.mp h
  have hmem : (kind, sign) ∈ signs := heq ▸ List.mem_append_right _ List.mem_cons_self
  simpa [signs] using hmem

theorem lookup_signs_of_digits {kind : Kind} (h : digitKinds.contains kind = true) :
    signs.lookup kind = none := by
  cases hsign : signs.lookup kind with
  | none => rfl
  | some sign =>
    rcases lookup_signs hsign with ⟨rfl, -⟩ | ⟨rfl, -⟩
    all_goals exact absurd h (by decide)

section Sign

variable {session : Session}

theorem signedNumeral_of_none (h : signs.lookup session.cursor.kind = none) :
    signedNumeral session = numeral (session.tested (.ofKeys signs)) := by
  rw [signedNumeral, bind_of_ok (oneOf_of_lookup_none h)]

theorem touches_passed (hclosing : Closing session.rest)
    (hkind : session.cursor.kind ≠ .endOfInput) :
    session.passed.cursor.touches 0 = true ↔
      session.cursor.here.Touches session.passed.cursor.here := by
  obtain ⟨next, rest, hahead, -⟩ := hclosing.ahead hkind
  rw [Session.passed, Cursor.advance_of_cons hahead, Token.Touches]
  exact beq_iff_eq

/-- A sign that touches what is behind it belongs to a number there. -/
theorem signedNumeral_of_touches {sign : String} (h : signs.lookup session.cursor.kind = some sign)
    (htouch : (session.tested (.ofKeys signs)).passed.cursor.touches 0 = true) :
    signedNumeral session = (Numeral.map (sign ++ ·) <$> numeral)
      (session.tested (.ofKeys signs)).passed := by
  rw [signedNumeral, bind_of_ok (oneOf_of_lookup h)]
  simp only [bind, EStateM.bind, look, htouch]
  rfl

/-- A sign that stands apart belongs to no number. -/
theorem signedNumeral_of_not_touches {sign : String}
    (h : signs.lookup session.cursor.kind = some sign)
    (htouch : (session.tested (.ofKeys signs)).passed.cursor.touches 0 = false)
    (value : Numeral) (last : Session) : signedNumeral session ≠ .ok value last := by
  rw [signedNumeral, bind_of_ok (oneOf_of_lookup h)]
  simp only [bind, EStateM.bind, look, htouch]
  nofun

/-- An argument that has been read is written by the tokens that were passed. -/
theorem signedNumeral_written {last : Session} {value : Numeral} (hclosing : Closing session.rest)
    (hrun : signedNumeral session = .ok value last) :
    ∃ way ∈ (Wording.argument value).ways, ∃ chunk, Written way chunk ∧
      session.Passes chunk last ∧ value.Signed ∧
        way.getLast?.map (·.kind.canonical) =
          (Wording.argument value).usual.getLast?.map (·.kind.canonical) := by
  cases hsign : signs.lookup session.cursor.kind with
  | none =>
    rw [signedNumeral_of_none hsign] at hrun
    have hstill := Session.Still.tested session (.ofKeys signs)
    obtain ⟨chunk, hchunk, hpasses, hvalue⟩ := numeral_written (hstill.closing hclosing) hrun
    have husual := Wording.usual_argument hvalue
    exact ⟨_, Wording.usual_mem_ways _, chunk, husual ▸ hchunk,
      (Session.Passes.of_still hstill).trans hpasses, .unsigned hvalue, rfl⟩
  | some sign =>
    have hmark : session.cursor.here.lexeme = .mark session.cursor.kind := by
      rw [Token.lexeme]
      rcases lookup_signs hsign with ⟨hkind, -⟩ | ⟨hkind, -⟩
      all_goals
        rw [Place.kind] at hkind
        rw [Place.kind, hkind]
        rfl
    have hend : session.cursor.kind ≠ .endOfInput := by
      rcases lookup_signs hsign with ⟨hkind, -⟩ | ⟨hkind, -⟩
      all_goals exact fun h ↦ by cases hkind.symm.trans h
    have hstill := Session.Still.tested session (.ofKeys signs)
    have hpass := passes_tested_passed (.ofKeys signs) hclosing hend
    cases htouch : (session.tested (.ofKeys signs)).passed.cursor.touches 0 with
    | false => exact absurd hrun (signedNumeral_of_not_touches hsign htouch value last)
    | true =>
      rw [signedNumeral_of_touches hsign htouch, map_eq_pure_bind] at hrun
      cases hnumeral : numeral (session.tested (.ofKeys signs)).passed with
      | error failure failed =>
        rw [bind_of_error hnumeral] at hrun
        cases hrun
      | ok number between =>
        rw [bind_of_ok hnumeral] at hrun
        cases hrun
        obtain ⟨chunk, hchunk, hpasses, hnumber⟩ :=
          numeral_written (hpass.closing hclosing) hnumeral
        have hchunk' : Written (.mark session.cursor.kind :: number.lexemes)
            (session.cursor.here :: chunk) := by
          refine .cons hmark hchunk fun first hfirst ↦ ?_
          rw [touches_passed (hstill.closing hclosing) hend, hpasses.here_eq hfirst] at htouch
          exact htouch
        have hlast : (Lexeme.mark session.cursor.kind :: number.lexemes).getLast? =
            number.lexemes.getLast? := by
          cases number <;> rfl
        rcases lookup_signs hsign with ⟨hkind, rfl⟩ | ⟨hkind, rfl⟩
        · have hvalue : number.map ("" ++ ·) = number := by cases number <;> simp [Numeral.map]
          rw [hkind] at hchunk' hlast
          rw [hvalue]
          refine ⟨_, Wording.plus_mem_ways_argument hnumber, _, hchunk', hpass.trans hpasses,
            .unsigned hnumber, ?_⟩
          rw [Wording.usual_argument hnumber, hlast]
        · have husual := Wording.usual_argument_negated number
          rw [hkind] at hchunk'
          exact ⟨_, Wording.usual_mem_ways _, _, husual ▸ hchunk', hpass.trans hpasses,
            .negated hnumber, rfl⟩

/-- Tokens that are a number with a sign or without one. -/
inductive Numeric : Numeral → List Token → Prop
  | unsigned {value : Numeral} {chunk : List Token} (h : Digital value chunk) : Numeric value chunk
  | signed {token : Token} {sign : String} {value : Numeral} {chunk : List Token}
      (hsign : signs.lookup token.kind = some sign) (h : Digital value chunk)
      (htouch : ∀ first ∈ chunk.head?, token.Touches first) :
      Numeric (value.map (sign ++ ·)) (token :: chunk)

/-- Tokens that are a number with or without a sign are read as it. -/
theorem signedNumeral_of_numeric {value : Numeral} {chunk rest : List Token}
    (h : Numeric value chunk) (hclosing : Closing session.rest)
    (hrest : session.rest = chunk ++ rest) (hcomplete : Complete chunk rest) :
    ∃ last, signedNumeral session = .ok value last ∧ session.Passes chunk last := by
  have hstill := Session.Still.tested session (.ofKeys signs)
  cases h with
  | unsigned h =>
    obtain ⟨last, hrun, hpasses⟩ := numeral_of_digital h (hstill.closing hclosing)
      (hstill.rest.trans hrest) hcomplete
    obtain ⟨first, others, rfl, hfirst⟩ := h.first
    obtain ⟨rfl, -⟩ := List.cons.inj hrest
    exact ⟨last, (signedNumeral_of_none (lookup_signs_of_digits hfirst)).trans hrun,
      (Session.Passes.of_still hstill).trans hpasses⟩
  | @signed token sign value chunk hsign h htouch =>
    obtain ⟨rfl, -⟩ := List.cons.inj hrest
    have hend : session.cursor.kind ≠ .endOfInput := by
      rcases lookup_signs hsign with ⟨hkind, -⟩ | ⟨hkind, -⟩
      all_goals
        rw [Place.kind, hkind]
        nofun
    have hpass := passes_tested_passed (.ofKeys signs) hclosing hend
    have hrest' : (session.tested (.ofKeys signs)).passed.rest = chunk ++ rest :=
      (List.cons.inj (hpass.rest.symm.trans hrest)).2
    obtain ⟨first, others, rfl, hfirst⟩ := h.first
    have hcomplete' : Complete (first :: others) rest := fun last hlast ↦
      hcomplete last (by rwa [List.getLast?_cons_cons])
    obtain ⟨last, hrun, hpasses⟩ := numeral_of_digital h (hpass.closing hclosing) hrest' hcomplete'
    have htouching : (session.tested (.ofKeys signs)).passed.cursor.touches 0 = true := by
      rw [touches_passed (hstill.closing hclosing) hend, hpasses.here_eq rfl]
      exact htouch first rfl
    refine ⟨last, ?_, hpass.trans hpasses⟩
    rw [signedNumeral_of_touches hsign htouching, map_eq_pure_bind, bind_of_ok hrun]
    rfl

/-- What is written as an argument is a number with or without a sign. -/
theorem Numeric.of_written {numeral : Numeral} {way : List Lexeme} {chunk : List Token}
    (hway : way ∈ (Wording.argument numeral).ways) (h : Written way chunk) :
    ∃ value, Numeric value chunk := by
  have hunsigned {numeral : Numeral} (h : Written numeral.lexemes chunk) :
      ∃ value, Numeric value chunk :=
    (Digital.of_written h).imp fun _ ↦ .unsigned
  have hsigned {numeral : Numeral} {mark : Symbol} {sign : String}
      (hsign : signs.lookup (.symbol mark) = some sign)
      (h : Written (.mark (.symbol mark) :: numeral.lexemes) chunk) :
      ∃ value, Numeric value chunk := by
    obtain ⟨token, others, rfl, htoken, hothers⟩ := h.first
    obtain ⟨value, hvalue⟩ := Digital.of_written hothers
    have hkind : token.kind = .symbol mark := congrArg Lexeme.kind htoken
    exact ⟨_, .signed (hkind ▸ hsign) hvalue (List.isChain_cons.mp h.2).1⟩
  simp only [Wording.ways, Wording.usual] at hway
  cases hnegative : numeral.isNegative with
  | true =>
    rw [hnegative, if_pos rfl, if_pos rfl, List.mem_singleton] at hway
    exact @hsigned numeral.unsigned .minus _ rfl (hway ▸ h)
  | false =>
    rw [hnegative, if_neg Bool.false_ne_true, if_neg Bool.false_ne_true, List.mem_pair] at hway
    rcases hway with rfl | rfl
    · exact hunsigned h
    · exact hsigned rfl h

/-- An argument that can be read is the one that is written in the usual way. -/
theorem Numeric.of_signed {value : Numeral} {chunk : List Token} (hvalue : value.Signed)
    (h : Written (Wording.argument value).usual chunk) : Numeric value chunk := by
  cases hvalue with
  | unsigned hvalue =>
    rw [Wording.usual_argument hvalue] at h
    exact .unsigned (.of_unsigned hvalue h)
  | @negated number hnumber =>
    rw [Wording.usual_argument_negated] at h
    obtain ⟨token, others, rfl, htoken, hothers⟩ := h.first
    have hkind : token.kind = .symbol .minus := congrArg Lexeme.kind htoken
    have hsign : signs.lookup token.kind = some "-" := by
      rw [hkind]
      rfl
    exact .signed hsign (.of_unsigned hnumber hothers) (List.isChain_cons.mp h.2).1

end Sign

variable {session : Session} {before after : List Wording → Prop}

theorem mirrors_integer (hbefore : ∀ text later, after later →
      before (.number (.integer text) :: later)) :
    Mirrors session before after [] id integer integer fun text ↦ [.number (.integer text)] := by
  refine .of_run fun hclosing value last hrun ↦ ?_
  have hkind := digits_of_integer hrun
  obtain ⟨hregular, -⟩ := hclosing.of_cons (ne_endOfInput_of_digits hkind)
  obtain ⟨hlexeme, -⟩ := hregular.lexeme_eq hkind
  have hpasses := passes_tested_passed digitKinds hclosing (ne_endOfInput_of_digits hkind)
  refine .of_chunk (integer_of_digits hkind) hpasses (List.mem_singleton.mpr rfl)
    ⟨congrArg (fun lexeme ↦ [lexeme]) hlexeme, .singleton _⟩ rfl rfl
    (fun copy chunk' rest hrest hclosing' hchunk' _ ↦ ?_) (hbefore _)
  obtain ⟨token, rfl, htoken⟩ := hchunk'.singleton
  obtain ⟨rfl, -⟩ := List.cons.inj hrest
  obtain ⟨hkind', htext⟩ := Token.of_lexeme_digits htoken
  refine ⟨_, _, integer_of_digits hkind',
    passes_tested_passed digitKinds hclosing' (ne_endOfInput_of_digits hkind'), ?_⟩
  rw [htext, String.ofList_toList]

theorem mirrors_numeral (hbefore : ∀ value later, after later → before (.number value :: later)) :
    Mirrors session before after [] id numeral numeral fun value ↦ [.number value] := by
  refine .of_run fun hclosing value last hrun ↦ ?_
  obtain ⟨chunk, hchunk, hpasses, hvalue⟩ := numeral_written hclosing hrun
  refine .of_chunk hrun hpasses (List.mem_singleton.mpr rfl) hchunk rfl rfl
    (fun copy chunk' rest hrest hclosing' hchunk' hgap ↦ ?_) (hbefore value)
  obtain ⟨last', hrun', hpasses'⟩ := numeral_of_digital (.of_unsigned hvalue hchunk') hclosing'
    hrest (complete_of_apart hgap)
  exact ⟨value, last', hrun', hpasses', rfl⟩

theorem mirrors_signedNumeral
    (hbefore : ∀ value later, after later → before (.argument value :: later)) :
    Mirrors session before after [] id signedNumeral signedNumeral
      fun value ↦ [.argument value] := by
  refine .of_run fun hclosing value last hrun ↦ ?_
  obtain ⟨way, hway, chunk, hchunk, hpasses, hvalue, hkind⟩ := signedNumeral_written hclosing hrun
  refine .of_chunk hrun hpasses hway hchunk hkind rfl
    (fun copy chunk' rest hrest hclosing' hchunk' hgap ↦ ?_) (hbefore value)
  obtain ⟨last', hrun', hpasses'⟩ := signedNumeral_of_numeric (.of_signed hvalue hchunk')
    hclosing' hrest (complete_of_apart hgap)
  exact ⟨value, last', hrun', hpasses', rfl⟩

/-! ### Names -/

theorem mirrors_variableName : Mirrors session Plain Plain [] id variableName variableName
    fun name ↦ [.lexeme .variableName name] :=
  (Mirrors.plain_text rfl).map (fun _ ↦ rfl) fun _ _ ↦ id

theorem mirrors_memberName : Mirrors session Plain Plain [] id memberName memberName
    fun name ↦ [.lexeme .memberName name] :=
  (Mirrors.plain_text rfl).map (fun _ ↦ rfl) fun _ _ ↦ id

theorem mirrors_identifier : Mirrors session Plain Plain [] id identifier identifier
    fun name ↦ [.lexeme .identifier name] :=
  (Mirrors.plain_text rfl).map (fun _ ↦ rfl) fun _ _ ↦ id

theorem mirrors_label? : Mirrors session Plain Plain [] id label? label? Wording.label := by
  refine .check_two rfl rfl nofun nofun (fun _ h ↦ h.toSettled) (fun _ _ ↦ ?_)
    (.done rfl rfl)
  refine mirrors_memberName.bind_same fun name _ ↦ ?_
  exact (Mirrors.plain_expect rfl).bind fun _ _ _ _ ↦ .done rfl rfl

/-! ### Ends of edges -/

section Halves

variable {first second : Symbol}

theorem halves_of_kinds (h : session.cursor.kind = .symbol first)
    (htouch : (session.tested (.single (.symbol first))).passed.cursor.touches 0 = true)
    (hkind : (session.tested (.single (.symbol first))).passed.cursor.kind = .symbol second) :
    halves (.symbol first) (.symbol second) session =
      .ok () ((session.tested (.single (.symbol first))).passed.tested
        (.single (.symbol second))).passed := by
  rw [halves, bind_of_ok (expect_of_kind h)]
  simp only [bind, EStateM.bind, expecting, onCursor, look, Cursor.toPlace_expecting, htouch, hkind,
    beq_self_eq_true, Bool.and_self, if_true]
  rfl

theorem kinds_of_halves {last : Session}
    (hrun : halves (.symbol first) (.symbol second) session = .ok () last) :
    session.cursor.kind = .symbol first ∧
      (session.tested (.single (.symbol first))).passed.cursor.touches 0 = true ∧
        (session.tested (.single (.symbol first))).passed.cursor.kind = .symbol second := by
  by_cases h : session.cursor.kind = .symbol first
  · rw [halves, bind_of_ok (expect_of_kind h)] at hrun
    simp only [bind, EStateM.bind, expecting, onCursor, look, Cursor.toPlace_expecting] at hrun
    split at hrun
    · rename_i hcomplete
      rw [Bool.and_eq_true, beq_iff_eq] at hcomplete
      exact ⟨h, hcomplete⟩
    · cases hrun
  · rw [halves, bind_of_error (expect_of_ne h)] at hrun
    cases hrun

/-- Two symbols that have been read as an end of an edge. -/
theorem halves_written {last : Session} (hclosing : Closing session.rest)
    (hrun : halves (.symbol first) (.symbol second) session = .ok () last) :
    ∃ chunk, Written [.mark (.symbol first), .mark (.symbol second)] chunk ∧
      session.Passes chunk last := by
  obtain ⟨hfirst, htouch, hsecond⟩ := kinds_of_halves hrun
  rw [halves_of_kinds hfirst htouch hsecond] at hrun
  cases hrun
  have hend : session.cursor.kind ≠ .endOfInput := by
    rw [hfirst]
    nofun
  have hstill := Session.Still.tested session (.single (.symbol first))
  have hpasses := passes_tested_passed (.single (.symbol first)) hclosing hend
  have hpasses' := passes_tested_passed (.single (.symbol second)) (hpasses.closing hclosing)
    (by rw [hsecond]; nofun)
  refine ⟨_, ⟨?_, .cons_cons ?_ (.singleton _)⟩, hpasses.trans hpasses'⟩
  · exact congrArg₂ (fun first second ↦ [first, second]) (Token.lexeme_of_symbol hfirst)
      (Token.lexeme_of_symbol hsecond)
  · exact (touches_passed (hstill.closing hclosing) hend).mp htouch

/-- Two symbols that touch are read as an end of an edge. -/
theorem halves_of_written {chunk rest : List Token} (hclosing : Closing session.rest)
    (hrest : session.rest = chunk ++ rest)
    (hchunk : Written [.mark (.symbol first), .mark (.symbol second)] chunk) :
    ∃ last, halves (.symbol first) (.symbol second) session = .ok () last ∧
      session.Passes chunk last := by
  obtain ⟨token, tokens, rfl, htoken, htokens⟩ := hchunk.first
  obtain ⟨token', rfl, htoken'⟩ := htokens.singleton
  obtain ⟨rfl, -⟩ := List.cons.inj hrest
  have hfirst : session.cursor.kind = .symbol first := congrArg Lexeme.kind htoken
  have hend : session.cursor.kind ≠ .endOfInput := by
    rw [hfirst]
    nofun
  have hstill := Session.Still.tested session (.single (.symbol first))
  have hpasses := passes_tested_passed (.single (.symbol first)) hclosing hend
  have hrest' : (session.tested (.single (.symbol first))).passed.rest = token' :: rest :=
    (List.cons.inj (hpasses.rest.symm.trans hrest)).2
  obtain ⟨hhere, -⟩ := List.cons.inj hrest'
  have hsecond :
      (session.tested (.single (.symbol first))).passed.cursor.kind = .symbol second := by
    rw [Place.kind, hhere]
    exact congrArg Lexeme.kind htoken'
  have htouch : (session.tested (.single (.symbol first))).passed.cursor.touches 0 = true := by
    rw [touches_passed (hstill.closing hclosing) hend, hhere]
    exact (List.isChain_cons_cons.mp hchunk.2).1
  have hpasses' := passes_tested_passed (.single (.symbol second)) (hpasses.closing hclosing)
    (by rw [hsecond]; nofun)
  rw [hhere] at hpasses'
  exact ⟨_, halves_of_kinds hfirst htouch hsecond, hpasses.trans hpasses'⟩

theorem mirrors_halves (hbefore : ∀ later, after later → before (.pair first second :: later)) :
    Mirrors session before after [] id (halves (.symbol first) (.symbol second))
      (halves (.symbol first) (.symbol second)) fun _ ↦ [.pair first second] := by
  refine .of_run fun hclosing value last hrun ↦ ?_
  obtain ⟨chunk, hchunk, hpasses⟩ := halves_written hclosing hrun
  refine .of_chunk hrun hpasses (List.mem_singleton.mpr rfl) hchunk rfl rfl
    (fun copy chunk' rest hrest hclosing' hchunk' _ ↦ ?_) hbefore
  obtain ⟨last', hrun', hpasses'⟩ := halves_of_written hclosing' hrest hchunk'
  exact ⟨(), last', hrun', hpasses', rfl⟩

end Halves

/-- The wordings with which an edge begins. -/
def Edges (wordings : List Wording) : Prop :=
  (∃ left right : EdgeEnd, wordings.head? = some (.sign (left.glyph right))) ∨
    ∃ left : EdgeEnd, wordings.head? = some (left.wording .less .minus)

theorem mirrors_edgeEnd {head tail : Symbol}
    (hhead : (Kind.symbol head).isSynonym = false) (htail : (Kind.symbol tail).isSynonym = false)
    (hargument : (Kind.symbol head).leadsArgument = false)
    (hbefore : ∀ (side : EdgeEnd) later, after later → before (side.wording head tail :: later))
    (hsettled : ∀ later, before later → Settled later) :
    Mirrors session before after [] id (edgeEnd (.symbol head) (.symbol tail))
      (edgeEnd (.symbol head) (.symbol tail)) fun side ↦ [side.wording head tail] := by
  refine .check_two hhead htail nofun (fun h ↦ ?_) hsettled (fun _ _ ↦ ?_) ?_
  · rw [hargument] at h
    cases h
  · exact (mirrors_halves (hbefore .directed)).bind fun _ _ _ _ ↦ .done rfl rfl
  · exact (mirrors_halves (hbefore .undirected)).bind fun _ _ _ _ ↦ .done rfl rfl

theorem atEdgeEnd_iff (h : Closing session.rest) :
    atEdgeEnd session.cursor.toPlace = true ↔ ∃ first second rest,
      session.rest = first :: second :: rest ∧
        (first.kind = .symbol .less ∨ first.kind = .symbol .minus) ∧
          second.kind = .symbol .minus ∧ first.Touches second := by
  rw [Session.rest] at h ⊢
  unfold atEdgeEnd Place.touches Place.peekKind Place.peek Place.kind
  cases hahead : session.cursor.ahead with
  | nil =>
    rw [hahead] at h
    cases h with
    | last hend => simp [Place.along, hend]
    | cons _ h => cases h
  | cons second rest => cases rest <;> simp [Place.along, Token.Touches, and_assoc]

/-- Where an edge begins in the copy, one begins in the tokens. -/
theorem atEdgeEnd_of_copy {copy : Session} {later : List Wording}
    (hready : Ready session copy later) (hsettled : Settled later)
    (hspells : Spells later session.rest)
    (hclosing : Closing session.rest) (h : atEdgeEnd copy.cursor.toPlace = true) :
    atEdgeEnd session.cursor.toPlace = true := by
  obtain ⟨first', second', rest', hrest', hfirst', hsecond', htouch'⟩ :=
    (atEdgeEnd_iff hready.closing).mp h
  have htwin := hready.twin hsettled hspells
  rw [hrest'] at htwin
  rw [atEdgeEnd_iff hclosing]
  generalize session.rest = tokens at htwin
  cases htwin with
  | argument _ hleads _ _ _ => rcases hfirst' with heq | heq <;> rw [heq] at hleads <;> cases hleads
  | @cons first _ rest _ hkin htouch htwin =>
    cases htwin with
    | argument _ hleads _ _ _ =>
      rw [hsecond'] at hleads
      cases hleads
    | @cons second _ rest _ hkin' _ _ =>
      have hfirst := hkin.eq_of_usual (by rcases hfirst' with heq | heq <;> rw [heq] <;> rfl)
      have hsecond := hkin'.eq_of_usual (by rw [hsecond']; rfl)
      exact ⟨first, second, rest, rfl, hfirst.symm ▸ hfirst', hsecond.trans hsecond',
        htouch second rfl second' rfl (hsecond' ▸ nofun) htouch'⟩

/-- Whether an edge follows a place. -/
def edgeAt (place : Place) : Bool :=
  (KindSet.ofKeys edgeGlyphs).contains place.kind || atEdgeEnd place

theorem edgeAt_of_edges {copy : Session} {later : List Wording} (hready : Ready session copy later)
    (h : Edges later) : edgeAt copy.cursor.toPlace = true := by
  rw [edgeAt, Bool.or_eq_true]
  rcases h with ⟨left, right, hhead⟩ | ⟨left, hhead⟩
  · obtain ⟨others, rfl⟩ := List.head?_eq_some_iff.mp hhead
    obtain ⟨token, rest, hrest, htoken, -⟩ := hready.printed.single rfl
    obtain ⟨rfl, -⟩ := List.cons.inj hrest
    refine .inl ?_
    rw [Place.kind, show copy.cursor.here.kind = .symbol (left.glyph right) from
      congrArg Lexeme.kind htoken]
    cases left <;> cases right <;> decide
  · obtain ⟨others, rfl⟩ := List.head?_eq_some_iff.mp hhead
    obtain ⟨chunk, rest, hrest, hchunk, -⟩ := hready.printed.uncons
    refine .inr ((atEdgeEnd_iff hready.closing).mpr ?_)
    have hpair (first : Symbol) (hfirst : first = .less ∨ first = .minus)
        (hchunk : Written [.mark (.symbol first), .mark (.symbol .minus)] chunk) :
        ∃ first second rest, copy.rest = first :: second :: rest ∧
          (first.kind = .symbol .less ∨ first.kind = .symbol .minus) ∧
            second.kind = .symbol .minus ∧ first.Touches second := by
      obtain ⟨token, tokens, rfl, htoken, htokens⟩ := hchunk.first
      obtain ⟨token', rfl, htoken'⟩ := htokens.singleton
      have hkind : token.kind = .symbol first := congrArg Lexeme.kind htoken
      refine ⟨token, token', rest, hrest, ?_, congrArg Lexeme.kind htoken',
        (List.isChain_cons_cons.mp hchunk.2).1⟩
      rcases hfirst with rfl | rfl
      · exact .inl hkind
      · exact .inr hkind
    cases left with
    | directed => exact hpair .less (.inl rfl) hchunk
    | undirected => exact hpair .minus (.inr rfl) hchunk

section AtEdge

variable {α δ : Type} {sofar : List Wording} {view : α → δ} {wordings : α → List Wording}
  {next next' : Bool → Parser α}

theorem atEdge_eq_ok (session : Session) : atEdge session =
    .ok (edgeAt session.cursor.toPlace) (session.tested (.ofKeys edgeGlyphs)) := rfl

/-- Where an edge follows, one follows in the copies. -/
theorem mirrors_atEdge_of_edge (hedge : edgeAt session.cursor.toPlace = true)
    (hyes : Mirrors (session.tested (.ofKeys edgeGlyphs)) (fun later ↦ Plain later ∧ Edges later)
      after sofar view (next true) (next' true) wordings) :
    Mirrors session (fun later ↦ Plain later ∧ Edges later) after sofar view (atEdge >>= next)
      (atEdge >>= next') wordings := by
  refine .inquire Eq (atEdge_eq_ok session) (.tested _ _) rfl (fun copy later _ _ h hready ↦ ?_) ?_
  · exact ⟨_, _, atEdge_eq_ok copy, .tested _ _, hedge.trans (edgeAt_of_edges hready h.2).symm⟩
  · rintro _ rfl
    rw [hedge]
    exact hyes

/-- A question for an edge, and what is read in either case. -/
theorem mirrors_atEdge
    (hyes : edgeAt session.cursor.toPlace = true →
      Mirrors (session.tested (.ofKeys edgeGlyphs)) (fun later ↦ Plain later ∧ Edges later) after
        sofar view (next true) (next' true) wordings)
    (hno : Mirrors (session.tested (.ofKeys edgeGlyphs)) Plain after sofar view (next false)
      (next' false) wordings) :
    Mirrors session Plain after sofar view (atEdge >>= next) (atEdge >>= next') wordings := by
  cases hedge : edgeAt session.cursor.toPlace with
  | true => exact (mirrors_atEdge_of_edge hedge (hyes hedge)).weaken (fun _ h ↦ h.1) fun _ ↦ id
  | false =>
    refine .inquire Eq (atEdge_eq_ok session) (.tested _ _) rfl
      (fun copy later hclosing hspells h hready ↦ ⟨_, _, atEdge_eq_ok copy, .tested _ _, ?_⟩) ?_
    · rw [edgeAt, Bool.or_eq_false_iff] at hedge
      rw [edgeAt, edgeAt, Place.kind, Place.kind,
        ← h.contains_eq (by decide) hspells hready.printed]
      refine congrArg (_ || ·) (hedge.2.trans (Bool.eq_false_iff.mpr fun hcopy ↦ ?_).symm)
      rw [atEdgeEnd_of_copy hready h.toSettled hspells hclosing hcopy] at hedge
      cases hedge.2
    · rintro _ rfl
      rw [hedge]
      exact hno

end AtEdge

end Grammar

end CorpusQuery
