import CorpusQuery.Proofs.Extent.Basic
import CorpusQuery.Proofs.Negation.Embedding

/-!
Two token lists that differ in one negation. Where one list has `!` and the other one `NOT`, two
parses run side by side. `Parser.Twinned` says that they end alike: both fail, or both return values
that look the same, at the same index. From the second token behind the negation on nothing that
the grammar sees is different, so there the parses are coupled (`Coupling.twin`).
-/

set_option autoImplicit false
set_option relaxedAutoImplicit false

namespace CorpusQuery

open CorpusQuery.Parser CorpusQuery.Grammar

/-! ### Places -/

/-- Two token lists that are the same but for one token. -/
structure Place.Twins (start start' : Place) (pivot : Nat) : Prop where
  closed : start.Closed
  closed' : start'.Closed
  length_eq : start'.ahead.length = start.ahead.length
  peek_eq : ∀ index ≠ pivot, start.peek index = start'.peek index

variable {start start' place other : Place} {pivot : Nat}

namespace Place.Twins

variable (h : start.Twins start' pivot) (hplaces : Abreast start start' 0 place other)

include h

theorem advance {cursor copy : Cursor}
    (hplaces : Abreast start start' 0 cursor.toPlace copy.toPlace) :
    Abreast start start' 0 cursor.advance.toPlace copy.advance.toPlace :=
  hplaces.advance (hplaces.ahead_nil_iff h.length_eq)

include hplaces

theorem peek_of_ne (count : Nat) (hne : place.position + count ≠ pivot) :
    place.peek count = other.peek count := by
  rw [hplaces.begins.peek_eq, hplaces.begins_other.peek_eq, hplaces.position_eq]
  exact h.peek_eq _ hne

theorem here_of_ne (hne : place.position ≠ pivot) : place.here = other.here := by
  have hpeek := h.peek_of_ne hplaces 0 hne
  rwa [peek, peek, along_zero, along_zero] at hpeek

/-- From the second token behind that one on the lists look the same. -/
theorem seenAs (hpast : place.Past (pivot + 2)) : place.SeenAs (fun _ ↦ 0) other := by
  have hpeek (count : Nat) : place.peek count = other.peek count := by
    refine h.peek_of_ne hplaces count ?_
    have : pivot + 2 ≤ place.position := hpast
    omega
  have hpeekKind (count : Nat) : place.peekKind count = other.peekKind count :=
    congrArg Token.kind (hpeek count)
  have hhere := h.here_of_ne hplaces (Nat.ne_of_gt (Nat.lt_of_lt_of_le (by omega) hpast))
  have hprevious : place.behind.head? = other.behind.head? := by
    rcases hplaces.previous_cases with ⟨hnil, hnil'⟩ | ⟨-, -, -, -, hshift, -⟩ |
      ⟨previous, rest, previous', rest', hbehind, hbehind', rfl, rfl, hpos⟩
    · rw [hnil, hnil']
    · exact absurd hshift (Nat.lt_irrefl 0)
    · have hlast : pivot + 2 ≤ place.position := hpast
      rw [hbehind, hbehind', List.head?_cons, List.head?_cons, Nat.add_zero,
        h.peek_eq _ (by omega)]
  refine ⟨congrArg Token.kind hhere, fun _ ↦ congrArg Token.text hhere, hpeekKind 1,
    hpeekKind 2, fun _ ↦ ?_, fun _ ↦ ?_, fun _ ↦ ?_, fun kinds _ ↦ ?_, rfl, rfl⟩
  · have htouches (place : Place) : place.touches 0 =
        place.behind.head?.elim false (·.span.stop == place.here.span.start) := by
      rw [touches]
      cases place.behind <;> rfl
    rw [htouches, htouches, hhere, hprevious]
  · rw [touches, touches, hpeek, hpeek]
  · rw [touches, touches, hpeek, hpeek]
  · rw [Continuation.follows, Continuation.follows, previousKind?, previousKind?, hprevious]

end Place.Twins

/-! ### Behind the token that differs -/

namespace Coupling

/-- Sessions at the same index of two lists, behind the token that differs and the next one. -/
def twin (start start' : Place) (pivot : Nat) : Coupling where
  blur _ := 0
  sessions session copy :=
    Place.Abreast start start' 0 session.cursor.toPlace copy.cursor.toPlace ∧
      session.cursor.Past (pivot + 2)
  failures _ _ := True
  spent _ := False
  past _ := False
  beyond _ := False

variable (h : start.Twins start' pivot)

include h

theorem lawful_twin : (twin start start' pivot).Lawful where
  blur_max _ _ := rfl
  sees hsessions := h.seenAs hsessions.1 hsessions.2
  closed hsessions :=
    ⟨hsessions.1.begins.closed h.closed, hsessions.1.begins_other.closed h.closed'⟩
  tested _ hsessions := hsessions
  traced _ _ hsessions := hsessions
  passed hsessions := .inr ⟨h.advance hsessions.1,
    Nat.le_trans hsessions.2 (Cursor.position_le_advance _)⟩
  rewound _ _ _ hsessions _ := hsessions
  answered hsessions _ := hsessions
  fail _ _ := trivial
  exhausted _ _ := trivial
  past_passed _ hpast := hpast
  beyond_fail _ _ hpast := hpast
  beyond_exhausted hbeyond := hbeyond.elim id id

theorem scopes_twin (limit room : Nat) :
    (twin start start' pivot).Scopes (Rule.inside limit room) (Rule.inside limit room) := by
  have hnever (limit : Nat) (rule : Rule) : Coupled (twin start start' pivot) Anywhere
      (Tree.blurred fun _ ↦ 0) (rule.run limit 0) (rule.run limit 0) :=
    ⟨fun _ hspent ↦ hspent, fun _ hpast ↦ hpast, fun _ _ hsessions _ ↦
      .inr (.error trivial hsessions)⟩
  exact scopes_inside (lawful_twin h) (fun _ ↦ .of_never (fun _ h ↦ h) (fun _ h ↦ h) _)
    (hnever limit) room

end Coupling

/-! ### The contract -/

namespace Parser

variable {α β γ δ ε ζ : Type} {given between promised : Place → Prop} {view : α → δ}
  {view' : β → ε}

/-- A test whose answer is known. -/
theorem check_of_eq {kind : Kind} {session : Session} {found : Bool}
    (h : (session.cursor.kind == kind) = found) :
    check kind session = .ok found (session.tested (.single kind)) :=
  h ▸ rfl

theorem checkAny_of_eq {kinds : KindSet} {session : Session} {found : Bool}
    (h : kinds.contains session.cursor.kind = found) :
    checkAny kinds session = .ok found (session.tested kinds) :=
  h ▸ rfl

/-- Two runs that fail, or that return values which look the same, at places as promised. -/
inductive Meets (start start' : Place) (promised : Place → Prop) (view : α → δ) :
    EStateM.Result Failure Session α → EStateM.Result Failure Session α → Prop
  | ok {value value' : α} {after after' : Session} (hvalue : view value = view value')
      (hplaces : Place.Abreast start start' 0 after.cursor.toPlace after'.cursor.toPlace)
      (hpromised : promised after.cursor.toPlace) (hpromised' : promised after'.cursor.toPlace) :
      Meets start start' promised view (.ok value after) (.ok value' after')
  | error {failure failure' : Failure} {after after' : Session} :
      Meets start start' promised view (.error failure after) (.error failure' after')

/-- From places as given, at the same index of two lists, the parsers end alike, at places as
promised. -/
def Twinned (start start' : Place) (given promised : Place → Prop) (view : α → δ)
    (parser parser' : Parser α) : Prop :=
  ∀ session copy, Place.Abreast start start' 0 session.cursor.toPlace copy.cursor.toPlace →
    given session.cursor.toPlace → given copy.cursor.toPlace →
      Meets start start' promised view (parser session) (parser' copy)

/-- From one index of a list the parser returns a value and stops at another index. -/
def Gives (start : Place) (first last : Nat) (parser : Parser α) (value : α) : Prop :=
  ∀ session, start.At first session.cursor.toPlace →
    ∃ after, parser session = .ok value after ∧ start.At last after.cursor.toPlace

namespace Twinned

/-- Where the lists look the same, what is coupled ends alike. -/
theorem of_coupled {parser parser' : Parser α}
    (h : Coupled (.twin start start' pivot) Anywhere view parser parser') :
    Twinned start start' (Place.Past (pivot + 2)) (Place.Past (pivot + 2)) view parser parser' := by
  intro session copy hplaces hpast _
  have hfollows := h.follows session copy ⟨hplaces, hpast⟩ trivial
  generalize parser session = result, parser' copy = result' at hfollows
  rcases hfollows with (hspent | hahead) | hagrees
  · exact hspent.elim
  · cases result <;> exact hahead.elim
  · cases hagrees with
    | ok hvalue hafter =>
      refine .ok hvalue hafter.1 hafter.2 ?_
      rw [Place.Past, hafter.1.position_eq]
      exact hafter.2
    | error => exact .error

theorem weaken {promised' : Place → Prop} {parser parser' : Parser α}
    (h : Twinned start start' given promised view parser parser')
    (hpromised : ∀ place, promised place → promised' place) :
    Twinned start start' given promised' view parser parser' := by
  intro session copy hplaces hplace hplace'
  have hmeets := h session copy hplaces hplace hplace'
  generalize parser session = result, parser' copy = result' at hmeets
  cases hmeets with
  | ok hvalue hafter hkept hkept' =>
    exact .ok hvalue hafter (hpromised _ hkept) (hpromised _ hkept')
  | error => exact .error

theorem pure {value value' : α} (hvalue : view value = view value')
    (hpromised : ∀ place, given place → promised place) :
    Twinned start start' given promised view (Pure.pure value) (Pure.pure value') :=
  fun _ _ hplaces hplace hplace' ↦ .ok hvalue hplaces (hpromised _ hplace) (hpromised _ hplace')

theorem bind {parser parser' : Parser α} {next next' : α → Parser β}
    (h : Twinned start start' given between view parser parser')
    (hnext : ∀ value value', view value = view value' →
      Twinned start start' between promised view' (next value) (next' value')) :
    Twinned start start' given promised view' (parser >>= next) (parser' >>= next') := by
  intro session copy hplaces hplace hplace'
  have hmeets := h session copy hplaces hplace hplace'
  generalize hrun : parser session = result, hrun' : parser' copy = result' at hmeets
  cases hmeets with
  | ok hvalue hmiddle hbetween hbetween' =>
    rw [bind_of_ok hrun, bind_of_ok hrun']
    exact hnext _ _ hvalue _ _ hmiddle hbetween hbetween'
  | error =>
    rw [bind_of_error hrun, bind_of_error hrun']
    exact .error

theorem map {f : α → β} {parser parser' : Parser α}
    (h : Twinned start start' given promised view parser parser')
    (hview : ∀ value value', view value = view value' → view' (f value) = view' (f value')) :
    Twinned start start' given promised view' (f <$> parser) (f <$> parser') := by
  rw [map_eq_pure_bind, map_eq_pure_bind]
  exact h.bind fun value value' hvalue ↦ .pure (hview value value' hvalue) fun _ h ↦ h

theorem ite {condition : Prop} [Decidable condition] {yes yes' no no' : Parser α}
    (hyes : Twinned start start' given promised view yes yes')
    (hno : Twinned start start' given promised view no no') :
    Twinned start start' given promised view (if condition then yes else no)
      (if condition then yes' else no') := by
  split
  · exact hyes
  · exact hno

/-! ### Looking -/

section Looking

variable {kind : Kind} {kinds : KindSet}

/-- A look at something known. -/
theorem look {see : Place → α} (seen : α) (hseen : ∀ place, given place → see place = seen)
    {next next' : α → Parser β}
    (hnext : Twinned start start' given promised view' (next seen) (next' seen)) :
    Twinned start start' given promised view' (Parser.look see >>= next)
      (Parser.look see >>= next') := by
  intro session copy hplaces hplace hplace'
  rw [bind_look, bind_look, hseen _ hplace, hseen _ hplace']
  exact hnext session copy hplaces hplace hplace'

/-- A look that decides nothing. -/
theorem glance {see : Place → α} {next next' : α → Parser β}
    (hnext : ∀ value value',
      Twinned start start' given promised view' (next value) (next' value')) :
    Twinned start start' given promised view' (Parser.look see >>= next)
      (Parser.look see >>= next') :=
  fun session copy ↦ hnext _ _ session copy

/-- A test that is decided. -/
theorem check (found : Bool) (hfound : ∀ place, given place → (place.kind == kind) = found)
    {next next' : Bool → Parser β}
    (hnext : Twinned start start' given promised view' (next found) (next' found)) :
    Twinned start start' given promised view' (Parser.check kind >>= next)
      (Parser.check kind >>= next') := by
  intro session copy hplaces hplace hplace'
  rw [bind_of_ok (check_of_eq (hfound _ hplace)), bind_of_ok (check_of_eq (hfound _ hplace'))]
  exact hnext _ _ hplaces hplace hplace'

theorem checkAny (found : Bool) (hfound : ∀ place, given place → kinds.contains place.kind = found)
    {next next' : Bool → Parser β}
    (hnext : Twinned start start' given promised view' (next found) (next' found)) :
    Twinned start start' given promised view' (Parser.checkAny kinds >>= next)
      (Parser.checkAny kinds >>= next') := by
  intro session copy hplaces hplace hplace'
  rw [bind_of_ok (checkAny_of_eq (hfound _ hplace)),
    bind_of_ok (checkAny_of_eq (hfound _ hplace'))]
  exact hnext _ _ hplaces hplace hplace'

/-- A token that is not there. -/
theorem consume_none (hne : ∀ place, given place → place.kind ≠ kind) {next next' : Bool → Parser β}
    (hnext : Twinned start start' given promised view' (next false) (next' false)) :
    Twinned start start' given promised view' (Parser.consume kind >>= next)
      (Parser.consume kind >>= next') := by
  intro session copy hplaces hplace hplace'
  rw [bind_of_ok (consume_of_ne (hne _ hplace)), bind_of_ok (consume_of_ne (hne _ hplace'))]
  exact hnext _ _ hplaces hplace hplace'

/-- A table that has no entry for what is there. -/
theorem oneOf_none {table : List (Kind × α)} {view : Option α → δ}
    (hnone : ∀ place, given place → table.lookup place.kind = none) :
    Twinned start start' given given view (oneOf table) (oneOf table) := by
  intro session copy hplaces hplace hplace'
  rw [oneOf_of_lookup_none (hnone _ hplace), oneOf_of_lookup_none (hnone _ hplace')]
  exact .ok rfl hplaces hplace hplace'

end Looking

/-! ### Passing tokens -/

section Passing

variable (h : start.Twins start' pivot) {kind : Kind}

include h

/-- A token is demanded that is the same in both lists. -/
theorem expect (hne : ∀ place, given place → place.position ≠ pivot)
    (hpromised : ∀ cursor : Cursor, cursor.Closed → cursor.kind = kind → given cursor.toPlace →
      promised cursor.advance.toPlace) :
    Twinned start start' given promised (fun _ ↦ ()) (Parser.expect kind) (Parser.expect kind) := by
  intro session copy hplaces hplace hplace'
  have hkind : session.cursor.kind = copy.cursor.kind :=
    congrArg Token.kind (h.here_of_ne hplaces (hne _ hplace))
  by_cases hfound : session.cursor.kind = kind
  · have hfound' := hkind.symm.trans hfound
    rw [expect_of_kind hfound, expect_of_kind hfound']
    exact .ok rfl (h.advance hplaces)
      (hpromised _ (hplaces.begins.closed h.closed) hfound hplace)
      (hpromised _ (hplaces.begins_other.closed h.closed') hfound' hplace')
  · rw [expect_of_ne hfound, expect_of_ne fun hfound' ↦ hfound (hkind.trans hfound')]
    exact .error

/-- A token that may be there is the same in both lists. -/
theorem consume (hne : ∀ place, given place → place.position ≠ pivot)
    (hbetween : ∀ cursor : Cursor, cursor.Closed → cursor.kind = kind → given cursor.toPlace →
      between cursor.advance.toPlace) {next next' : Bool → Parser β}
    (hyes : Twinned start start' between promised view' (next true) (next' true))
    (hno : Twinned start start' given promised view' (next false) (next' false)) :
    Twinned start start' given promised view' (Parser.consume kind >>= next)
      (Parser.consume kind >>= next') := by
  intro session copy hplaces hplace hplace'
  have hkind : session.cursor.kind = copy.cursor.kind :=
    congrArg Token.kind (h.here_of_ne hplaces (hne _ hplace))
  by_cases hfound : session.cursor.kind = kind
  · have hfound' := hkind.symm.trans hfound
    rw [bind_of_ok (consume_of_kind hfound), bind_of_ok (consume_of_kind hfound')]
    exact hyes _ _ (h.advance hplaces)
      (hbetween _ (hplaces.begins.closed h.closed) hfound hplace)
      (hbetween _ (hplaces.begins_other.closed h.closed') hfound' hplace')
  · have hfound' : copy.cursor.kind ≠ kind := fun heq ↦ hfound (hkind.trans heq)
    rw [bind_of_ok (consume_of_ne hfound), bind_of_ok (consume_of_ne hfound')]
    exact hno _ _ hplaces hplace hplace'

end Passing

/-! ### Phrases and rules -/

theorem phraseFrom {category : Category} {begin begin' : Nat} {body body' : Parser (Draft category)}
    (h : Twinned start start' given promised (Draft.blurred fun _ ↦ 0) body body') :
    Twinned start start' given promised (Tree.blurred fun _ ↦ 0) (phraseFrom begin body)
      (phraseFrom begin' body') := by
  refine h.bind fun draft draft' hdraft session copy hplaces hplace hplace' ↦ ?_
  obtain ⟨form, parts⟩ := draft
  obtain ⟨form', parts'⟩ := draft'
  rw [Draft.blurred, Draft.blurred, Draft.mk.injEq] at hdraft
  obtain ⟨rfl, hparts⟩ := hdraft
  refine .ok ?_ hplaces hplace hplace'
  rw [Tree.blurred, Tree.blurred, eq_of_heq hparts, Span.blurred, Span.blurred]

theorem phrase {category : Category} {body body' : Parser (Draft category)}
    (h : Twinned start start' given promised (Draft.blurred fun _ ↦ 0) body body') :
    Twinned start start' given promised (Tree.blurred fun _ ↦ 0) (phrase body) (phrase body') :=
  fun session copy ↦ h.phraseFrom session copy

theorem enter {title : String} {depth depth' : Nat} {body body' : Parser α}
    (h : Twinned start start' given promised view body body') :
    Twinned start start' given promised view (enter title depth body)
      (enter title depth' body') := by
  intro session copy hplaces hplace hplace'
  have hmeets := h (entered title depth session) (entered title depth' copy) hplaces hplace hplace'
  generalize hrun : body (entered title depth session) = result,
    hrun' : body' (entered title depth' copy) = result' at hmeets
  cases hmeets with
  | ok hvalue hafter hpromised hpromised' =>
    rw [enter_of_ok hrun, enter_of_ok hrun']
    exact .ok hvalue hafter hpromised hpromised'
  | error =>
    rw [enter_of_error hrun, enter_of_error hrun']
    exact .error

/-- A question goes back to where it was asked. -/
theorem lookahead {question question' : Parser Bool}
    (h : Twinned start start' given promised id question question') :
    Twinned start start' given given id (lookahead question) (lookahead question') := by
  intro session copy hplaces hplace hplace'
  have hmeets := h session copy hplaces hplace hplace'
  generalize hrun : question session = result, hrun' : question' copy = result' at hmeets
  cases hmeets with
  | ok hanswer =>
    rw [lookahead_of_ok hrun, lookahead_of_ok hrun']
    exact .ok hanswer hplaces hplace hplace'
  | error =>
    rw [lookahead_of_error hrun, lookahead_of_error hrun']
    exact .ok rfl hplaces hplace hplace'

/-! ### Repetition -/

theorem iterate (h : start.Twins start' pivot) {step step' : α → Parser (Option α)}
    (hstep : ∀ value value', view value = view value' →
      Twinned start start' given given (Option.map view) (step value) (step' value'))
    {value value' : α} (hvalue : view value = view value') :
    Twinned start start' given given view (iterate step value) (iterate step' value') := by
  intro session
  induction value, session using iterate_induction step generalizing value' with
  | h value session ih =>
  intro copy hplaces hplace hplace'
  have hmeets := hstep value value' hvalue session copy hplaces hplace hplace'
  generalize hrun : step value session = result, hrun' : step' value' copy = result' at hmeets
  cases hmeets with
  | error =>
    rw [iterate_of_error hrun, iterate_of_error hrun']
    exact .error
  | @ok next? next?' after after' hnext hafter hgiven hgiven' =>
    cases next? with
    | none =>
      obtain rfl : next?' = none := Option.map_eq_none_iff.mp hnext.symm
      rw [iterate_of_none hrun, iterate_of_none hrun']
      exact .ok hvalue hafter hgiven hgiven'
    | some next =>
      obtain ⟨next', rfl, hview⟩ := Option.map_eq_some_iff.mp hnext.symm
      -- The rounds of both loops come to the same index, so both loops go on or stop.
      have hcloser : after.remaining < session.remaining ↔ after'.remaining < copy.remaining := by
        have hlength := h.length_eq
        have hsession := hplaces.begins.length_eq
        have hcopy := hplaces.begins_other.length_eq
        have hnext := hafter.begins.length_eq
        have hnext' := hafter.begins_other.length_eq
        have hposition := hplaces.position_eq
        have hposition' := hafter.position_eq
        simp only [Session.remaining]
        omega
      by_cases hless : after.remaining < session.remaining
      · rw [iterate_of_closer hrun hless, iterate_of_closer hrun' (hcloser.mp hless)]
        exact ih next after hrun hless hview.symm after' hafter hgiven hgiven'
      · rw [iterate_of_not_closer hrun hless, iterate_of_not_closer hrun' (mt hcloser.mpr hless)]
        exact .ok hview.symm hafter hgiven hgiven'

theorem many (h : start.Twins start' pivot) {item item' : Parser (Option α)}
    (hitem : Twinned start start' given given (Option.map view) item item') :
    Twinned start start' given given (List.map view) (many item) (many item') := by
  have hloop : Twinned start start' given given (List.map view)
      (Parser.iterate (fun items ↦ do return (← item).map (· :: items)) [])
      (Parser.iterate (fun items ↦ do return (← item').map (· :: items)) []) := by
    refine iterate h (fun values values' hvalues ↦ ?_) rfl
    refine hitem.bind fun value? value?' hvalue ↦ .pure ?_ fun _ h ↦ h
    cases value? <;> cases value?' <;> simp_all
  refine hloop.bind fun values values' hvalues ↦ .pure ?_ fun _ h ↦ h
  rw [List.map_reverse, List.map_reverse, hvalues]

/-! ### Choice -/

section Either

variable {title : String} {depth depth' : Nat} {first first' : Parser α}
  {next next' : α → Parser γ} {second second' : Parser β} {rest rest' : β → Parser γ}
  {view₂ : β → δ} {view₃ : γ → ζ}

/-- A choice whose first reading fails in both lists. -/
theorem either_second {index : Nat} (hgiven : ∀ place, given place → place.position = index)
    (hfirst : ∀ session, start.At index session.cursor.toPlace →
      ∃ failure after, first session = .error failure after)
    (hfirst' : ∀ session, start'.At index session.cursor.toPlace →
      ∃ failure after, first' session = .error failure after)
    (hsecond : Twinned start start' given between view₂ second second')
    (hrest : ∀ value value', view₂ value = view₂ value' →
      Twinned start start' between promised view₃ (rest value) (rest' value')) :
    Twinned start start' given promised view₃ (either title depth first next second rest)
      (either title depth' first' next' second' rest') := by
  intro session copy hplaces hplace hplace'
  obtain ⟨failure, after, hrun⟩ := hfirst session ⟨hplaces.begins, hgiven _ hplace⟩
  obtain ⟨failure', after', hrun'⟩ := hfirst' copy ⟨hplaces.begins_other, hgiven _ hplace'⟩
  have hmeets := hsecond (rewound title depth session after) (rewound title depth' copy after')
    hplaces hplace hplace'
  generalize hagain : second (rewound title depth session after) = result,
    hagain' : second' (rewound title depth' copy after') = result' at hmeets
  cases hmeets with
  | ok hvalue hlast hbetween hbetween' =>
    rw [either_of_error_ok hrun hagain, either_of_error_ok hrun' hagain']
    exact hrest _ _ hvalue _ _ hlast hbetween hbetween'
  | error =>
    rw [either_of_error_error hrun hagain, either_of_error_error hrun' hagain']
    exact .error

/-- A choice whose first reading returns the same in both lists. -/
theorem either_first {index last : Nat} (hgiven : ∀ place, given place → place.position = index)
    {value : α} (hfirst : Gives start index last first value)
    (hfirst' : Gives start' index last first' value)
    (hbetween : ∀ place, start.At last place → between place)
    (hbetween' : ∀ place, start'.At last place → between place)
    (hnext : Twinned start start' between promised view₃ (next value) (next' value)) :
    Twinned start start' given promised view₃ (either title depth first next second rest)
      (either title depth' first' next' second' rest') := by
  intro session copy hplaces hplace hplace'
  obtain ⟨after, hrun, hafter⟩ := hfirst session ⟨hplaces.begins, hgiven _ hplace⟩
  obtain ⟨after', hrun', hafter'⟩ := hfirst' copy ⟨hplaces.begins_other, hgiven _ hplace'⟩
  rw [either_of_ok hrun, either_of_ok hrun']
  exact hnext after after' ⟨hafter.1, hafter'.1, hafter'.2.trans hafter.2.symm⟩
    (hbetween _ hafter) (hbetween' _ hafter')

end Either

end Twinned

end Parser

end CorpusQuery
