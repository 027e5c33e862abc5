import CorpusQuery.Proofs.Coupling.Index
import CorpusQuery.Proofs.Nesting.Limit

/-!
Which tokens a tree was read from. A token list is given by the place where it begins, and a tree
covers the tokens from one index up to another one if its span runs from the first of them to the
last of them and its parts cover tokens among these, one part behind the other (`Tree.Covers`). What
else is known of an expression and of the tokens that it covers is a parameter, the `Reading`.

`Parser.From` is the contract of a parser that starts at an index: it tells what is returned and at
which index the parser stops.
-/

set_option autoImplicit false
set_option relaxedAutoImplicit false

namespace CorpusQuery

/-! ### Covered tokens -/

namespace Place

/-- A place of a token list by its index. -/
def At (start : Place) (index : Nat) (place : Place) : Prop :=
  start.Begins place ∧ place.position = index

/-- A token list begins at its first token. -/
theorem at_ofTokens (tokens : List Token) : (ofTokens tokens).At 0 (ofTokens tokens) :=
  ⟨begins_ofTokens tokens, congrArg List.length (begins_ofTokens tokens).behind_eq⟩

namespace At

variable {start place : Place} {first : Nat}

theorem kind_eq (h : start.At first place) : place.kind = (start.peek first).kind := by
  rw [Place.kind, h.1.here_eq, h.2]

theorem peekKind_eq (h : start.At first place) (count : Nat) :
    place.peekKind count = (start.peek (first + count)).kind := by
  rw [peekKind, h.1.peek_eq, h.2]

/-- A token that is not the end of the input is passed. -/
theorem advance {cursor : Cursor} (h : start.At first cursor.toPlace) (hclosed : cursor.Closed)
    (hkind : cursor.kind ≠ .endOfInput) : start.At (first + 1) cursor.advance.toPlace := by
  have hlt := Cursor.position_lt_advance hclosed hkind
  have hnil : cursor.ahead ≠ [] := fun hnil ↦
    absurd hlt (Nat.not_lt_of_le (Nat.le_of_eq (Cursor.position_advance_of_nil hnil)))
  exact ⟨h.1.advance, (Cursor.position_advance_of_ne_nil hnil).trans (congrArg (· + 1) h.2)⟩

end At

/-- The span of the tokens from an index up to another one. -/
def extent (start : Place) (first last : Nat) : Span :=
  ⟨(start.peek first).span.start, (start.peek (last - 1)).span.stop⟩

/-- A phrase that ends here ends with the last token passed. -/
theorem Begins.previousStop_eq {start place : Place} (h : start.Begins place)
    (hposition : 0 < place.position) :
    place.previousStop = (start.peek (place.position - 1)).span.stop := by
  cases hbehind : place.behind with
  | nil => simp [position, hbehind] at hposition
  | cons previous rest => rw [previousStop, hbehind, h.previous_eq hbehind]

end Place

/-- Something that is the case of an expression and the tokens that it was read from. -/
abbrev Reading : Type := Phrase .expression → Nat → Nat → Prop

namespace Reading

/-- Nothing is asked of phrases that are no expressions. -/
def Holds (reading : Reading) : {category : Category} → Phrase category → Nat → Nat → Prop
  | .expression, phrase, first, last => reading phrase first last
  | _, _, _, _ => True

theorem holds_of_ne {reading : Reading} {category : Category} (h : category ≠ .expression)
    (phrase : Phrase category) (first last : Nat) : reading.Holds phrase first last := by
  cases category with
  | expression => exact absurd rfl h
  | _ => trivial

end Reading

namespace Tree

variable (start : Place) (reading : Reading)

/-- A phrase covers exactly the tokens from an index up to another one; parts cover some of them. -/
def Covers : {role : Role} → Tree role → Nat → Nat → Prop
  | _, .phrase form span parts, first, last =>
    first < last ∧ span = start.extent first last ∧ parts.Covers first last ∧
      reading.Holds (.phrase form span parts) first last
  | _, .nil, first, last => first ≤ last
  | _, .one part rest, first, last =>
    ∃ i j, first ≤ i ∧ part.Covers i j ∧ rest.Covers j last
  | _, .absent rest, first, last => rest.Covers first last
  | _, .present part rest, first, last =>
    ∃ i j, first ≤ i ∧ part.Covers i j ∧ rest.Covers j last
  | _, .done rest, first, last => rest.Covers first last
  | _, .more part rest, first, last =>
    ∃ i j, first ≤ i ∧ part.Covers i j ∧ rest.Covers j last

end Tree

section

variable {start : Place} {reading : Reading} {category : Category} {slots : List Slot}
  {field : String} {first middle last : Nat}

namespace Tree

theorem Covers.lt {phrase : Phrase category} (h : phrase.Covers start reading first last) :
    first < last := by
  cases phrase with
  | phrase => exact h.1

theorem Covers.span_eq {phrase : Phrase category} (h : phrase.Covers start reading first last) :
    phrase.span = start.extent first last := by
  cases phrase with
  | phrase => exact h.2.1

/-- A phrase begins where its first token begins. -/
theorem Covers.span_start {phrase : Phrase category}
    (h : phrase.Covers start reading first last) :
    phrase.span.start = (start.peek first).span.start := by
  rw [h.span_eq, Place.extent]

theorem Covers.holds {phrase : Phrase category} (h : phrase.Covers start reading first last) :
    reading.Holds phrase first last := by
  cases phrase with
  | phrase => exact h.2.2.2

/-- Parts that cover some of the tokens cover some of more tokens. -/
theorem covers_widen {slots : List Slot} (parts : Parts slots) {first last first' last' : Nat}
    (h : parts.Covers start reading first last) (hfirst : first' ≤ first) (hlast : last ≤ last') :
    parts.Covers start reading first' last' := by
  match slots, parts with
  | _, .nil => exact hfirst.trans (Nat.le_trans h hlast)
  | _, .one part rest =>
    obtain ⟨i, j, hi, hpart, hrest⟩ := h
    exact ⟨i, j, hfirst.trans hi, hpart, covers_widen rest hrest (Nat.le_refl j) hlast⟩
  | _, .absent rest => exact covers_widen rest h hfirst hlast
  | _, .present part rest =>
    obtain ⟨i, j, hi, hpart, hrest⟩ := h
    exact ⟨i, j, hfirst.trans hi, hpart, covers_widen rest hrest (Nat.le_refl j) hlast⟩
  | _, .done rest => exact covers_widen rest h hfirst hlast
  | _, .more part rest =>
    obtain ⟨i, j, hi, hpart, hrest⟩ := h
    exact ⟨i, j, hfirst.trans hi, hpart, covers_widen rest hrest (Nat.le_refl j) hlast⟩

/-- Phrases that were read one behind the other from some of the tokens. -/
def Lined (start : Place) (reading : Reading) : List (Phrase category) → Nat → Nat → Prop
  | [], first, last => first ≤ last
  | part :: rest, first, last =>
    ∃ i j, first ≤ i ∧ part.Covers start reading i j ∧ Lined start reading rest j last

theorem Covers.lined {phrase : Phrase category} (h : phrase.Covers start reading first last) :
    Lined start reading [phrase] first last :=
  ⟨first, last, Nat.le_refl _, h, Nat.le_refl _⟩

namespace Lined

variable {phrases others : List (Phrase category)}

theorem widen {first' last' : Nat} (h : Lined start reading phrases first last)
    (hfirst : first' ≤ first) (hlast : last ≤ last') :
    Lined start reading phrases first' last' := by
  induction phrases generalizing first first' with
  | nil => exact hfirst.trans (Nat.le_trans h hlast)
  | cons phrase rest ih =>
    obtain ⟨i, j, hi, hphrase, hrest⟩ := h
    exact ⟨i, j, hfirst.trans hi, hphrase, ih hrest (Nat.le_refl j)⟩

theorem sooner {first' : Nat} (h : Lined start reading phrases first last)
    (hfirst : first' ≤ first) : Lined start reading phrases first' last :=
  h.widen hfirst (Nat.le_refl last)

theorem later {last' : Nat} (h : Lined start reading phrases first last) (hlast : last ≤ last') :
    Lined start reading phrases first last' :=
  h.widen (Nat.le_refl first) hlast

theorem append (h : Lined start reading phrases first middle)
    (hothers : Lined start reading others middle last) :
    Lined start reading (phrases ++ others) first last := by
  induction phrases generalizing first with
  | nil => exact hothers.sooner h
  | cons phrase rest ih =>
    obtain ⟨i, j, hi, hphrase, hrest⟩ := h
    exact ⟨i, j, hi, hphrase, ih hrest⟩

/-! ### Filling slots -/

variable {parts : Parts slots}

theorem one {phrase : Phrase category} (h : Lined start reading [phrase] first middle)
    (hparts : parts.Covers start reading middle last) :
    Covers start reading (.one phrase parts : Parts (.one field category :: slots)) first last := by
  obtain ⟨i, j, hi, hphrase, hj⟩ := h
  exact ⟨i, j, hi, hphrase, covers_widen parts hparts hj (Nat.le_refl last)⟩

theorem many (h : Lined start reading phrases first middle)
    (hparts : parts.Covers start reading middle last) :
    Covers start reading (.many phrases parts : Parts (.many field category :: slots))
      first last := by
  induction phrases generalizing first with
  | nil => exact covers_widen parts hparts h (Nat.le_refl last)
  | cons phrase rest ih =>
    obtain ⟨i, j, hi, hphrase, hrest⟩ := h
    exact ⟨i, j, hi, hphrase, ih hrest⟩

theorem optional {phrase? : Option (Phrase category)}
    (h : Lined start reading phrase?.toList first middle)
    (hparts : parts.Covers start reading middle last) :
    Covers start reading (.optional phrase? parts : Parts (.optional field category :: slots))
      first last := by
  cases phrase? with
  | none => exact covers_widen parts hparts h (Nat.le_refl last)
  | some phrase =>
    obtain ⟨i, j, hi, hphrase, hj⟩ := h
    exact ⟨i, j, hi, hphrase, covers_widen parts hparts hj (Nat.le_refl last)⟩

end Lined

/-- A phrase has the span of its tokens, and its parts cover some of them. -/
def Drawn (start : Place) (reading : Reading) : Phrase category → Nat → Nat → Prop
  | .phrase _ span parts, first, last =>
    first < last ∧ span = start.extent first last ∧ parts.Covers start reading first last

theorem Drawn.covers {phrase : Phrase category} (h : phrase.Drawn start reading first last)
    (hreading : reading.Holds phrase first last) : phrase.Covers start reading first last := by
  cases phrase with
  | phrase => exact ⟨h.1, h.2.1, h.2.2, hreading⟩

theorem Drawn.covers_of_ne {phrase : Phrase category} (h : phrase.Drawn start reading first last)
    (hcategory : category ≠ .expression) : phrase.Covers start reading first last :=
  h.covers (Reading.holds_of_ne hcategory phrase first last)

end Tree

end

/-! ### Contracts -/

/-- Sessions in a closed list fit it. -/
theorem Place.Begins.fit {start : Place} {session : Session}
    (h : start.Begins session.cursor.toPlace) (hclosed : start.Closed) :
    Parser.Fit start.total Parser.Untraced session := by
  refine ⟨h.closed hclosed, ?_, trivial⟩
  rw [total, total, h.behind_eq, List.length_nil, Nat.zero_add]
  exact h.length_eq

namespace Parser

variable {α β γ : Type} {start : Place} {reading : Reading} {first middle : Nat}

/-- From an index of the token list the parser returns a value as told and stops at an index as told
that is no smaller, if it returns at all. -/
def From (start : Place) (first : Nat) (parser : Parser α) (holds : α → Nat → Prop) : Prop :=
  Ensures start.total Untraced (start.At first) parser fun value place ↦
    start.Begins place ∧ first ≤ place.position ∧ holds value place.position

namespace From

variable {holds : α → Nat → Prop} {holds' : β → Nat → Prop}

theorem ok {parser : Parser α} (h : From start first parser holds) {session after : Session}
    {value : α} (hfit : Fit start.total Untraced session)
    (hplace : start.At first session.cursor.toPlace) (hrun : parser session = .ok value after) :
    start.Begins after.cursor.toPlace ∧ first ≤ after.cursor.position ∧
      holds value after.cursor.position :=
  (Ensures.ok h hfit hplace hrun).2

theorem weaken {holds' : α → Nat → Prop} {parser : Parser α} (h : From start first parser holds)
    (hholds : ∀ value last, first ≤ last → holds value last → holds' value last) :
    From start first parser holds' :=
  Ensures.weaken h (fun _ h ↦ h) fun _ _ h ↦ ⟨h.1, h.2.1, hholds _ _ h.2.1 h.2.2⟩

/-- What two contracts tell of a parser is the case of one run. -/
theorem and {other : α → Nat → Prop} {parser : Parser α} (h : From start first parser holds)
    (hother : From start first parser other) :
    From start first parser fun value last ↦ holds value last ∧ other value last := by
  intro session hfit hplace
  cases hrun : parser session with
  | ok value after =>
    obtain ⟨hafter, hbegins, hle, hholds⟩ := Ensures.ok h hfit hplace hrun
    exact ⟨hafter, hbegins, hle, hholds, (hother.ok hfit hplace hrun).2.2⟩
  | error failure after => exact Ensures.error h hfit hplace hrun

theorem pure {value : α} (h : holds value first) : From start first (pure value) holds :=
  Ensures.pure fun _ hplace ↦ ⟨hplace.1, Nat.le_of_eq hplace.2.symm, hplace.2 ▸ h⟩

theorem bind {parser : Parser α} {next : α → Parser β} (h : From start first parser holds)
    (hnext : ∀ value middle, first ≤ middle → holds value middle →
      From start middle (next value) holds') :
    From start first (parser >>= next) holds' := by
  refine Ensures.bind h fun value session hfit ⟨hbegins, hle, hholds⟩ ↦ ?_
  have hresult := hnext value _ hle hholds session hfit ⟨hbegins, rfl⟩
  cases hrun : next value session with
  | ok value' after =>
    rw [hrun] at hresult
    exact ⟨hresult.1, hresult.2.1, hle.trans hresult.2.2.1, hresult.2.2.2⟩
  | error failure after =>
    rw [hrun] at hresult
    exact hresult

theorem pure_bind {value : α} {next : α → Parser β} (h : From start first (next value) holds') :
    From start first (Pure.pure value >>= next) holds' := h

theorem map {f : α → β} {parser : Parser α}
    (h : From start first parser fun value ↦ holds' (f value)) :
    From start first (f <$> parser) holds' := by
  rw [map_eq_pure_bind]
  exact h.bind fun _ _ _ h ↦ .pure h

theorem ite {condition : Prop} [Decidable condition] {yes no : Parser α}
    (hyes : condition → From start first yes holds)
    (hno : ¬ condition → From start first no holds) :
    From start first (if condition then yes else no) holds :=
  Ensures.ite hyes hno

theorem fail {cause : Cause} : From start first (fail cause : Parser α) holds := Ensures.fail cause

theorem failMissing {what : String} {kinds : KindSet} :
    From start first (failMissing what kinds : Parser α) holds := Ensures.failMissing what kinds

/-! ### Tokens -/

/-- A look moves nothing and sees what there is at the index. -/
theorem view {view : Place → α} {next : α → Parser β}
    (hnext : ∀ place, start.At first place → From start first (next (view place)) holds') :
    From start first (look view >>= next) holds' :=
  fun session hfit hplace ↦ hnext _ hplace session hfit hplace

theorem look {view : Place → α} {next : α → Parser β}
    (hnext : ∀ value, From start first (next value) holds') :
    From start first (look view >>= next) holds' :=
  From.view fun place _ ↦ hnext (view place)

/-- A test moves nothing. -/
theorem test {kind : Kind} {next : Bool → Parser β}
    (hnext : ∀ found, ((start.peek first).kind == kind) = found →
      From start first (next found) holds') :
    From start first (check kind >>= next) holds' := by
  refine Ensures.bind (Ensures.check kind) fun found session hfit ⟨hplace, hfound⟩ ↦ ?_
  rw [Place.kind, hplace.1.here_eq, hplace.2] at hfound
  exact hnext found hfound session hfit hplace

theorem testAny {kinds : KindSet} {next : Bool → Parser β}
    (hnext : ∀ found, From start first (next found) holds') :
    From start first (checkAny kinds >>= next) holds' :=
  Ensures.bind (Ensures.checkAny kinds) fun found ↦ Ensures.when (hnext found) fun _ h ↦ h.1

/-- Passing a token that is not the end of the input is a step forward. -/
theorem advance_of_ne (h : (start.peek first).kind ≠ .endOfInput) :
    From start first advance fun _ last ↦ first < last := by
  intro session hfit hplace
  refine ⟨hfit.passed, ?_⟩
  obtain ⟨hbegins, hposition⟩ := hplace
  have hkind : session.cursor.kind ≠ .endOfInput := by
    rwa [Place.kind, hbegins.here_eq, hposition]
  have hlt := Cursor.position_lt_advance hfit.closed hkind
  rw [hposition] at hlt
  exact ⟨hbegins.advance, Nat.le_of_lt hlt, hlt⟩

variable {kind : Kind}

theorem advance_one (h : (start.peek first).kind ≠ .endOfInput) :
    From start first advance fun _ last ↦ last = first + 1 := by
  refine .advance_to fun cursor hclosed hplace ↦ ?_
  have hnext := hplace.advance hclosed (hplace.kind_eq ▸ h)
  exact ⟨hnext.1, hnext.2 ▸ Nat.le_succ first, hnext.2⟩

theorem expect_one (hend : kind ≠ .endOfInput) : From start first (expect kind) fun _ last ↦
    (start.peek first).kind = kind ∧ last = first + 1 := by
  refine .expect_to fun cursor hclosed hkind hplace ↦ ?_
  have hnext := hplace.advance hclosed (hkind ▸ hend)
  rw [hplace.kind_eq] at hkind
  exact ⟨hnext.1, hnext.2 ▸ Nat.le_succ first, hkind, hnext.2⟩

theorem consume_one (hend : kind ≠ .endOfInput) : From start first (consume kind) fun found last ↦
    if found then (start.peek first).kind = kind ∧ last = first + 1 else last = first := by
  refine .consume_to (fun cursor hclosed hkind hplace ↦ ?_) fun place _ hplace ↦ ?_
  · have hnext := hplace.advance hclosed (hkind ▸ hend)
    rw [hplace.kind_eq] at hkind
    exact ⟨hnext.1, hnext.2 ▸ Nat.le_succ first, hkind, hnext.2⟩
  · exact ⟨hplace.1, Nat.le_of_eq hplace.2.symm, hplace.2⟩

/-- Passing a token that is not the end of the input. -/
theorem pass {holds : β → Nat → Prop} {rest : Token → Parser β}
    (hend : (start.peek first).kind ≠ .endOfInput)
    (hrest : ∀ token, From start (first + 1) (rest token) holds) :
    From start first (advance >>= rest) holds :=
  (advance_one hend).bind fun token _ _ hmiddle ↦ hmiddle ▸ hrest token

/-- Demanding a token that is not the end of the input. -/
theorem demand {holds : β → Nat → Prop} {rest : Token → Parser β} (hend : kind ≠ .endOfInput)
    (hrest : ∀ token, (start.peek first).kind = kind → From start (first + 1) (rest token) holds) :
    From start first (expect kind >>= rest) holds :=
  (expect_one hend).bind fun token _ _ ⟨hkind, hmiddle⟩ ↦ hmiddle ▸ hrest token hkind

/-! ### Phrases -/

/-- A phrase runs from the token at which it began to the last token passed. -/
theorem phraseFrom {category : Category} {body : Parser (Draft category)} {begin middle : Nat}
    (hbegin : begin = (start.peek first).span.start)
    (h : From start middle body fun draft last ↦
      first < last ∧ draft.parts.Covers start reading first last) :
    From start middle (phraseFrom begin body) fun phrase last ↦
      phrase.Drawn start reading first last := by
  refine Ensures.bind h fun draft ↦ Ensures.bind (Ensures.look Place.previousStop) fun stop ↦
    Ensures.pure fun place ⟨⟨hbegins, hle, hlt, hparts⟩, hstop⟩ ↦ ⟨hbegins, hle, hlt, ?_, hparts⟩
  rw [← hstop, hbegins.previousStop_eq (Nat.lt_of_le_of_lt (Nat.zero_le _) hlt), hbegin,
    Place.extent]

/-- A phrase that begins at the token at hand runs to the last token passed. -/
theorem phrase_of_lt {category : Category} {body : Parser (Draft category)}
    (h : From start first body fun draft last ↦
      first < last ∧ draft.parts.Covers start reading first last) :
    From start first (phrase body) fun phrase last ↦ phrase.Drawn start reading first last := by
  refine .view fun place hplace ↦ phraseFrom ?_ h
  rw [hplace.1.here_eq, hplace.2]

/-- It is enough that the phrase is never empty. -/
theorem phrase_drawn {category : Category} {body : Parser (Draft category)}
    (hforward : From start first (phrase body) fun _ last ↦ first < last)
    (h : From start first body fun draft ↦ draft.parts.Covers start reading first) :
    From start first (phrase body) fun phrase last ↦ phrase.Drawn start reading first last := by
  have hbody : From start first body fun _ last ↦ first < last := by
    intro session hfit hplace
    have hresult := h session hfit hplace
    cases hrun : body session with
    | ok draft after =>
      rw [hrun] at hresult
      refine ⟨hresult.1, hresult.2.1, hresult.2.2.1, ?_⟩
      exact (hforward.ok hfit hplace ((bind_of_ok rfl _).trans (bind_of_ok hrun _))).2.2
    | error failure after =>
      rw [hrun] at hresult
      exact hresult
  exact phrase_of_lt (hbody.and h)

/-! ### Repetition -/

section Repetition

variable {category : Category}

/-- What one round of a loop keeps, the loop keeps. -/
theorem iterate {step : α → Parser (Option α)} {value : α}
    (hstep : ∀ value middle, first ≤ middle → holds value middle →
      From start middle (step value) fun next? last ↦
        next?.elim (holds value last) (holds · last))
    (h : holds value first) : From start first (iterate step value) holds := by
  intro session
  induction value, session using iterate_induction step generalizing first with
  | h value session ih =>
  intro hfit hplace
  have hround := hstep value first (Nat.le_refl first) h session hfit hplace
  cases hrun : step value session with
  | error failure after =>
    rw [hrun] at hround
    rw [iterate_of_error hrun]
    exact hround
  | ok next? after =>
    rw [hrun] at hround
    obtain ⟨hafter, hbegins, hle, hnext⟩ := hround
    cases next? with
    | none =>
      rw [iterate_of_none hrun]
      exact ⟨hafter, hbegins, hle, hnext⟩
    | some next =>
      by_cases hcloser : after.remaining < session.remaining
      · rw [iterate_of_closer hrun hcloser]
        have hrest := ih next after hrun hcloser
          (fun value middle hmiddle ↦ hstep value middle (hle.trans hmiddle)) hnext hafter
          ⟨hbegins, rfl⟩
        cases hlast : Parser.iterate step next after with
        | ok final last =>
          rw [hlast] at hrest
          exact ⟨hrest.1, hrest.2.1, hle.trans hrest.2.2.1, hrest.2.2.2⟩
        | error failure last =>
          rw [hlast] at hrest
          exact hrest
      · rw [iterate_of_not_closer hrun hcloser]
        exact ⟨hafter, hbegins, hle, hnext⟩

theorem lined {parser : Parser (Phrase category)}
    (h : From start first parser fun phrase ↦ phrase.Covers start reading first) :
    From start first (some <$> parser) fun phrase? last ↦
      Tree.Lined start reading phrase?.toList first last :=
  .map (h.weaken fun _ _ _ hphrase ↦ hphrase.lined)

theorem many {item : Parser (Option (Phrase category))}
    (h : ∀ middle, first ≤ middle → From start middle item fun phrase? ↦
      Tree.Lined start reading phrase?.toList middle) :
    From start first (many item) fun phrases ↦ Tree.Lined start reading phrases first := by
  have hloop : From start first (Parser.iterate (fun phrases ↦ do
      return (← item).map (· :: phrases)) []) fun phrases ↦
        Tree.Lined start reading phrases.reverse first := by
    refine iterate (fun phrases middle hmiddle hphrases ↦ ?_) (Nat.le_refl first)
    refine (h middle hmiddle).bind fun phrase? _ _ hphrase ↦ .pure ?_
    cases phrase? with
    | none => exact hphrases.later hphrase
    | some phrase =>
      rw [Option.map_some, Option.elim_some, List.reverse_cons]
      exact hphrases.append hphrase
  exact hloop.bind fun phrases _ _ hphrases ↦ .pure hphrases

end Repetition

/-! ### Choice and nesting -/

theorem attempt {title : String} {depth : Nat} {parser : Parser α}
    (h : From start first parser holds) : From start first (attempt title depth parser) holds :=
  Ensures.attempt (fun _ _ _ _ _ ↦ trivial) title h

theorem either {title : String} {depth : Nat} {tried : Parser α} {next : α → Parser γ}
    {second : Parser β} {rest : β → Parser γ} {holds'' : γ → Nat → Prop}
    (htried : From start first tried holds)
    (hnext : ∀ value middle, first ≤ middle → holds value middle →
      From start middle (next value) holds'')
    (hsecond : From start first second holds')
    (hrest : ∀ value middle, first ≤ middle → holds' value middle →
      From start middle (rest value) holds'') :
    From start first (either title depth tried next second rest) holds'' := by
  intro session hfit hplace
  cases hrun : tried session with
  | ok value after =>
    have hbind := htried.bind hnext session hfit hplace
    rw [bind_of_ok hrun] at hbind
    rwa [either_of_ok hrun]
  | error failure after =>
    have hback : Fit start.total Untraced (rewound title depth session after) :=
      ⟨hfit.closed, hfit.total_eq, trivial⟩
    have hbind := hsecond.bind hrest (rewound title depth session after) hback hplace
    cases hagain : second (rewound title depth session after) with
    | ok value last =>
      rw [bind_of_ok hagain] at hbind
      rwa [either_of_error_ok hrun hagain]
    | error other last =>
      rw [bind_of_error hagain] at hbind
      rwa [either_of_error_error hrun hagain]

theorem enter {title : String} {depth : Nat} {body : Parser α} (h : From start first body holds) :
    From start first (enter title depth body) holds :=
  Ensures.enter (fun _ _ _ ↦ trivial) (fun _ _ _ _ ↦ trivial) h

/-- A phrase that is no expression and never empty covers what its parts were read from. -/
theorem phrase {category : Category} {body : Parser (Draft category)}
    (hcategory : category ≠ .expression)
    (hforward : From start first (Parser.phrase body) fun _ last ↦ first < last)
    (h : From start first body fun draft ↦ draft.parts.Covers start reading first) :
    From start first (Parser.phrase body) fun phrase ↦ phrase.Covers start reading first :=
  (phrase_drawn hforward h).weaken fun _ _ _ hphrase ↦
    hphrase.covers_of_ne hcategory

end From

/-- No construction leaves the token list or goes back in it. -/
theorem Alike.from {scope other : Scope}
    (hscope : ∀ rule index, From start index (scope.nested rule) fun _ _ ↦ True)
    {parser parser' : Parser α} (h : Alike scope other parser parser') :
    From start first parser fun _ _ ↦ True := by
  have hkeeps : Ensures start.total Untraced
      (fun place ↦ start.Begins place ∧ first ≤ place.position) parser
      fun _ place ↦ start.Begins place ∧ first ≤ place.position := by
    refine h.ensures (fun _ _ _ _ _ ↦ trivial)
      (fun cursor h ↦ ⟨h.1.advance, h.2.trans (Cursor.position_le_advance cursor)⟩)
      fun rule session hfit hgiven ↦ ?_
    have hrule := hscope rule _ session hfit ⟨hgiven.1, rfl⟩
    cases hrun : scope.nested rule session with
    | ok phrase after =>
      rw [hrun] at hrule
      exact ⟨hrule.1, hrule.2.1, hgiven.2.trans hrule.2.2.1⟩
    | error failure after =>
      rw [hrun] at hrule
      exact hrule
  exact Ensures.weaken hkeeps (fun _ h ↦ ⟨h.1, Nat.le_of_eq h.2.symm⟩)
    fun _ _ h ↦ ⟨h.1, h.2, trivial⟩

/-- Behind an operation of the cursor no less has been passed. -/
theorem From.skip {holds : β → Nat → Prop} {parser : Parser α} {next : α → Parser β}
    (h : Elementary parser)
    (hnext : ∀ value middle, first ≤ middle → From start middle (next value) holds) :
    From start first (parser >>= next) holds := by
  have hparser : Alike idle idle parser parser := .elementary h
  exact (hparser.from fun _ _ ↦ .fail).bind fun value middle hle _ ↦ hnext value middle hle

section Lists

variable {category : Category}

theorem From.behind {kind : Kind} {body : Parser (Phrase category)}
    (h : ∀ middle, first ≤ middle → From start middle body fun phrase ↦
      phrase.Covers start reading middle) :
    From start first (behind kind body) fun phrase? ↦
      Tree.Lined start reading phrase?.toList first :=
  .skip (.consume kind) fun _ middle hle ↦ .ite
    (fun _ ↦ (h middle hle).lined.weaken fun _ _ _ hphrase ↦ hphrase.sooner hle)
    fun _ ↦ .pure hle

theorem From.separatedBy {separator : Kind} {item : Parser (Phrase category)}
    (h : ∀ middle, first ≤ middle → From start middle item fun phrase ↦
      phrase.Covers start reading middle) :
    From start first (separatedBy separator item) fun phrases ↦
      Tree.Lined start reading phrases first := by
  refine (h first (Nat.le_refl first)).bind fun phrase middle hle hphrase ↦ ?_
  refine (From.many fun index hindex ↦ .behind fun index' hindex' ↦
    h index' (hle.trans (hindex.trans hindex'))).bind fun others last hlast hothers ↦ .pure ?_
  exact hphrase.lined.append hothers

end Lists

/-- A production that returns has passed a token. -/
theorem From.forward {scope : Scope} (hs : scope.Progressive) {parser : Parser α}
    (hproduction : Grammar.Production scope parser)
    (h : From start first parser fun _ _ ↦ True) :
    From start first parser fun _ last ↦ first < last := by
  intro session hfit hplace
  have hresult := h session hfit hplace
  cases hrun : parser session with
  | ok value after =>
    rw [hrun] at hresult
    obtain ⟨hafter, hbegins, hle, -⟩ := hresult
    have hless := hs.productions hproduction hfit.closed hrun
    have hlength := hplace.1.length_eq
    have hlength' := hbegins.length_eq
    rw [hplace.2] at hlength
    simp only [Session.remaining] at hless
    refine ⟨hafter, hbegins, hle, ?_⟩
    omega
  | error failure after =>
    rw [hrun] at hresult
    exact hresult

end Parser

end CorpusQuery
