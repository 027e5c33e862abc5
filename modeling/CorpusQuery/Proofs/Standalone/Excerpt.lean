import CorpusQuery.Proofs.Extent.Basic
import CorpusQuery.Proofs.Standalone.Ending

/-!
Excerpts of a token list. An excerpt takes some tokens of a list and puts the end of the input
behind them. `Parser.Carries` is the contract of a parser that reads of the excerpt what it reads of
the list, as long as it does not pass the last token taken: what is missing behind it was looked at
in the list, but not needed.
-/

set_option autoImplicit false
set_option relaxedAutoImplicit false

namespace CorpusQuery

open CorpusQuery.Parser

/-- The tokens of a list from an index on, so many of them, with the end of the input behind. What
follows them in the list is no set predicate that has begun among them. -/
structure Place.Excerpt (short start : Place) (shift length : Nat) : Prop where
  closed : start.Closed
  closed_short : short.Closed
  length_eq : short.ahead.length = length
  fits : shift + length ≤ start.ahead.length
  peek_eq : ∀ index < length, short.peek index = start.peek (index + shift)
  leadsSet_last : Grammar.Continuation.leadsSet (start.peek (shift + length - 1)).kind = false

variable {short start copy place : Place} {shift length base : Nat}

namespace Place.Excerpt

variable (h : short.Excerpt start shift length) (hplaces : Abreast short start shift copy place)

include h hplaces

theorem peek_of_lt (count : Nat) (hlt : copy.position + count < length) :
    copy.peek count = place.peek count := by
  rw [hplaces.begins.peek_eq, hplaces.begins_other.peek_eq, h.peek_eq _ hlt, hplaces.position_eq,
    Nat.add_right_comm]

theorem here_of_lt (hlt : copy.position < length) : copy.here = place.here := by
  have hpeek := h.peek_of_lt hplaces 0 hlt
  rwa [peek, peek, along_zero, along_zero] at hpeek

theorem peekKind_of_le (count : Nat) (hle : length ≤ copy.position + count) :
    copy.peekKind count = .endOfInput := by
  rw [peekKind, hplaces.begins.peek_eq]
  exact h.closed_short.kind_peek (h.length_eq ▸ hle)

/-- Whatever is seen in the excerpt and is not its end stands in the list as well. -/
theorem peek_of_ne (count : Nat) (hkind : copy.peekKind count ≠ .endOfInput) :
    copy.peek count = place.peek count :=
  h.peek_of_lt hplaces count (Nat.lt_of_not_le fun hle ↦ hkind (h.peekKind_of_le hplaces count hle))

theorem kind_of_ne (hkind : copy.kind ≠ .endOfInput) : copy.kind = place.kind := by
  have hpeek := h.peek_of_ne hplaces 0
    (by rwa [peekKind, peek, along_zero])
  rw [peek, peek, along_zero, along_zero] at hpeek
  exact congrArg Token.kind hpeek

/-- Behind the first token of an excerpt what comes before it does not matter. -/
theorem previous_eq (hpos : 0 < copy.position) : copy.behind.head? = place.behind.head? := by
  have hle := hplaces.begins.position_le
  have hlength := h.length_eq
  rcases hplaces.previous_cases with ⟨hnil, -⟩ | ⟨hnil, -⟩ |
    ⟨previous, rest, previous', rest', hbehind, hbehind', hprevious, hprevious', -⟩
  · exact absurd (congrArg List.length hnil) hpos.ne'
  · exact absurd (congrArg List.length hnil) hpos.ne'
  · rw [hbehind, hbehind', hprevious, hprevious', h.peek_eq _ (by omega)]
    rfl

theorem previousStop_eq (hpos : 0 < copy.position) : copy.previousStop = place.previousStop := by
  have hprevious := h.previous_eq hplaces hpos
  unfold previousStop
  cases hbehind : copy.behind with
  | nil => exact absurd (congrArg List.length hbehind) hpos.ne'
  | cons previous rest =>
    rw [hbehind] at hprevious
    cases hbehind' : place.behind with
    | nil =>
      rw [hbehind'] at hprevious
      cases hprevious
    | cons previous' rest' =>
      rw [hbehind'] at hprevious
      cases hprevious
      rfl

omit hplaces in
/-- A step in the list that does not lead behind the excerpt is a step in the excerpt. -/
theorem advance (copy cursor : Cursor)
    (hplaces : Abreast short start shift copy.toPlace cursor.toPlace)
    (hle : cursor.advance.position ≤ shift + length) :
    Abreast short start shift copy.advance.toPlace cursor.advance.toPlace := by
  refine hplaces.advance ?_
  have hlength := hplaces.begins.length_eq
  have hlength' := hplaces.begins_other.length_eq
  have hposition := hplaces.position_eq
  have hshort := h.length_eq
  have hfits := h.fits
  rw [← List.length_eq_zero_iff, ← List.length_eq_zero_iff]
  refine ⟨fun hzero ↦ ?_, by omega⟩
  by_contra hne
  rw [Cursor.position_advance_of_ne_nil fun hnil ↦ hne (hnil ▸ rfl)] at hle
  omega

omit hplaces in
/-- A token that is not the end of the input and is passed inside the excerpt stands in it. -/
theorem position_lt (copy cursor : Cursor)
    (hplaces : Abreast short start shift copy.toPlace cursor.toPlace)
    (hkind : cursor.kind ≠ .endOfInput) (hle : cursor.advance.position ≤ shift + length) :
    copy.position < length := by
  have hlt := Cursor.position_lt_advance (hplaces.begins_other.closed h.closed) hkind
  have hposition := hplaces.position_eq
  omega

end Place.Excerpt

/-! ### Contracts -/

namespace Parser

variable {α β γ : Type}

/-- A parser that never goes back. -/
def Onward (parser : Parser α) : Prop :=
  ∀ session value after, session.cursor.Closed → parser session = .ok value after →
    Fit session.cursor.total Untraced after ∧ session.cursor.position ≤ after.cursor.position

/-- What the one parser reads of the list inside the excerpt, the other one reads of the excerpt. -/
def Copies (short start : Place) (shift length base : Nat) (parser parser' : Parser α) : Prop :=
  ∀ session copy value after,
    Place.Abreast short start shift copy.cursor.toPlace session.cursor.toPlace →
      base ≤ copy.cursor.position → parser session = .ok value after →
        after.cursor.position ≤ shift + length →
          ∃ after', parser' copy = .ok value after' ∧
            Place.Abreast short start shift after'.cursor.toPlace after.cursor.toPlace ∧
              after'.overflow = copy.overflow

/-- A parser that never goes back and carries over from a list to an excerpt of it. -/
structure Carries (short start : Place) (shift length base : Nat) (parser parser' : Parser α) :
    Prop where
  onward : Onward parser
  copies : Copies short start shift length base parser parser'

/-- What passing a token keeps, no construction goes back on. -/
theorem Alike.onward {scope other : Scope}
    (hscope : ∀ rule total base, Ensures total Untraced (Place.Past base) (scope.nested rule)
      fun _ ↦ Place.Past base)
    {parser parser' : Parser α} (h : Alike scope other parser parser') : Onward parser := by
  intro session value after hclosed hrun
  have hkeeps : Ensures session.cursor.total Untraced (Place.Past session.cursor.position) parser
      fun _ ↦ Place.Past session.cursor.position :=
    h.ensures (fun _ _ _ _ _ ↦ trivial)
      (fun cursor hle ↦ Nat.le_trans hle (Cursor.position_le_advance cursor))
      fun rule ↦ hscope rule _ _
  exact hkeeps.ok ⟨hclosed, rfl, trivial⟩ (Nat.le_refl _) hrun

theorem Elementary.onward {parser : Parser α} (h : Elementary parser) : Onward parser :=
  (show Alike idle idle parser parser from .elementary h).onward fun _ _ _ ↦ .fail _

namespace Onward

variable {parser : Parser α} {next : α → Parser β}

theorem pure (value : α) : Onward (Pure.pure value : Parser α) := by
  intro session _ _ hclosed hrun
  cases hrun
  exact ⟨⟨hclosed, rfl, trivial⟩, Nat.le_refl _⟩

theorem bind (h : Onward parser) (hnext : ∀ value, Onward (next value)) :
    Onward (parser >>= next) := by
  intro session value after hclosed hrun
  obtain ⟨first, between, hfirst, hrest⟩ := bind_eq_ok hrun
  obtain ⟨hbetween, hle⟩ := h session first between hclosed hfirst
  obtain ⟨hafter, hle'⟩ := hnext first between value after hbetween.closed hrest
  exact ⟨hbetween.total_eq ▸ hafter, hle.trans hle'⟩

theorem phraseFrom {category : Category} {body : Parser (Draft category)} (h : Onward body)
    (begin : Nat) : Onward (phraseFrom begin body) :=
  h.bind fun _ ↦ .bind (Elementary.onward (.look _)) fun _ ↦ .pure _

theorem iterate {step : α → Parser (Option α)} (h : ∀ value, Onward (step value)) (value : α) :
    Onward (iterate step value) := by
  intro session
  induction value, session using iterate_induction step with
  | h value session ih =>
  intro final after hclosed hrun
  cases hstep : step value session with
  | error failure between =>
    rw [iterate_of_error hstep] at hrun
    cases hrun
  | ok next? between =>
    obtain ⟨hbetween, hle⟩ := h value session next? between hclosed hstep
    cases next? with
    | none =>
      rw [iterate_of_none hstep] at hrun
      cases hrun
      exact ⟨hbetween, hle⟩
    | some next =>
      by_cases hcloser : between.remaining < session.remaining
      · rw [iterate_of_closer hstep hcloser] at hrun
        obtain ⟨hafter, hle'⟩ := ih next between hstep hcloser final after hbetween.closed hrun
        exact ⟨hbetween.total_eq ▸ hafter, hle.trans hle'⟩
      · rw [iterate_of_not_closer hstep hcloser] at hrun
        cases hrun
        exact ⟨hbetween, hle⟩

theorem enter {title : String} {depth : Nat} (h : Onward parser) :
    Onward (enter title depth parser) := by
  intro session value after hclosed hrun
  obtain ⟨between, hbody, rfl⟩ := enter_eq_ok hrun
  obtain ⟨hfit, hle⟩ := h (entered title depth session) value between hclosed hbody
  exact ⟨⟨hfit.closed, hfit.total_eq, trivial⟩, hle⟩

end Onward

/-- A parser that never returns without having passed a token. -/
def Forward (parser : Parser α) : Prop :=
  ∀ session value after, session.cursor.Closed → parser session = .ok value after →
    session.cursor.position < after.cursor.position

/-- Fewer tokens are left where more have been passed. -/
theorem Onward.position_lt {parser : Parser α} (h : Onward parser) {session after : Session}
    {value : α} (hclosed : session.cursor.Closed) (hrun : parser session = .ok value after)
    (hless : after.remaining < session.remaining) :
    session.cursor.position < after.cursor.position := by
  have htotal := (h session value after hclosed hrun).1.total_eq
  simp only [Place.total, Session.remaining] at htotal hless
  simp only [Place.position]
  omega

theorem Onward.forward {scope : Scope} (hs : scope.Progressive) {parser : Parser α}
    (h : Onward parser) (hproduction : Grammar.Production scope parser) : Forward parser :=
  fun _ _ _ hclosed hrun ↦ h.position_lt hclosed hrun (hs.productions hproduction hclosed hrun)

namespace Forward

variable {parser : Parser α} {next : α → Parser β}

theorem bind (h : Forward parser) (hparser : Onward parser)
    (hnext : ∀ value, Onward (next value)) : Forward (parser >>= next) := by
  intro session value after hclosed hrun
  obtain ⟨first, between, hfirst, hrest⟩ := bind_eq_ok hrun
  have hbetween := (hparser session first between hclosed hfirst).1
  exact (h session first between hclosed hfirst).trans_le
    (hnext first between value after hbetween.closed hrest).2

theorem behind (hparser : Onward parser) (h : ∀ value, Forward (next value)) :
    Forward (parser >>= next) := by
  intro session value after hclosed hrun
  obtain ⟨first, between, hfirst, hrest⟩ := bind_eq_ok hrun
  obtain ⟨hbetween, hle⟩ := hparser session first between hclosed hfirst
  exact hle.trans_lt (h first between value after hbetween.closed hrest)

/-- What makes a phrase longer is read by its body. -/
theorem of_phrase {category : Category} {body : Parser (Draft category)}
    (h : Forward (phrase body)) : Forward body :=
  fun session _ after hclosed hrun ↦
    h session _ after hclosed ((bind_of_ok rfl _).trans (bind_of_ok hrun _))

end Forward

section Rules

variable {parser parser' : Parser α} {next next' : α → Parser β}

/-- The second parser may rely on what the first one has passed. -/
theorem Copies.bind {base' : Nat} (h : Carries short start shift length base parser parser')
    (hclosed : start.Closed) (honward : ∀ value, Onward (next value))
    (hpast : ∀ session value after, session.cursor.Closed → parser session = .ok value after →
      base' + session.cursor.position ≤ base + after.cursor.position)
    (hnext : ∀ value, Copies short start shift length base' (next value) (next' value)) :
    Copies short start shift length base (parser >>= next) (parser' >>= next') := by
  intro session copy value after hplaces hbase hrun hle
  have hsession := hplaces.begins_other.closed hclosed
  obtain ⟨first, between, hfirst, hrest⟩ := bind_eq_ok hrun
  obtain ⟨hbetween, -⟩ := h.onward session first between hsession hfirst
  have hlast := (honward first between value after hbetween.closed hrest).2
  obtain ⟨copied, hcopied, hplaces', hoverflow⟩ :=
    h.copies session copy first between hplaces hbase hfirst (hlast.trans hle)
  have hbase' : base' ≤ copied.cursor.position := by
    have hposition := hplaces.position_eq
    have hposition' := hplaces'.position_eq
    have := hpast session first between hsession hfirst
    omega
  obtain ⟨after', hrun', hplaces'', hoverflow'⟩ :=
    hnext first between copied value after hplaces' hbase' hrest hle
  exact ⟨after', (bind_of_ok hcopied _).trans hrun', hplaces'', hoverflow'.trans hoverflow⟩

namespace Carries

theorem pure (value : α) :
    Carries short start shift length base (Pure.pure value : Parser α) (Pure.pure value) := by
  refine ⟨Onward.pure value, fun _ _ _ _ hplaces _ hrun _ ↦ ?_⟩
  cases hrun
  exact ⟨_, rfl, hplaces, rfl⟩

/-- A parser that never returns. -/
theorem of_error (h : ∀ session value after, parser session ≠ .ok value after) :
    Carries short start shift length base parser parser' :=
  ⟨fun session value after _ hrun ↦ absurd hrun (h session value after),
    fun session _ value after _ _ hrun ↦ absurd hrun (h session value after)⟩

theorem later {base' : Nat} (h : Carries short start shift length base parser parser')
    (hle : base ≤ base') : Carries short start shift length base' parser parser' :=
  ⟨h.onward, fun session copy value after hplaces hbase ↦
    h.copies session copy value after hplaces (hle.trans hbase)⟩

/-- What is seen in the excerpt is what is seen in the list, if that decides for a run that stays
inside the excerpt. -/
theorem look {view : Place → α}
    (hview : ∀ (session copy : Session) value after,
      Place.Abreast short start shift copy.cursor.toPlace session.cursor.toPlace →
        next (view session.cursor.toPlace) session = .ok value after →
          after.cursor.position ≤ shift + length →
            view copy.cursor.toPlace = view session.cursor.toPlace)
    (hnext : ∀ value, Carries short start shift length base (next value) (next' value)) :
    Carries short start shift length base (Parser.look view >>= next)
      (Parser.look view >>= next') := by
  refine ⟨Onward.bind (Elementary.onward (.look view)) fun value ↦ (hnext value).onward, ?_⟩
  intro session copy value after hplaces hbase hrun hle
  have hrun' : next (view session.cursor.toPlace) session = .ok value after := hrun
  obtain ⟨after', hcopied, hafter⟩ :=
    (hnext _).copies session copy value after hplaces hbase hrun' hle
  refine ⟨after', ?_, hafter⟩
  rw [← hview session copy value after hplaces hrun' hle] at hcopied
  exact hcopied

variable (h : short.Excerpt start shift length)

include h

theorem bind (hparser : Carries short start shift length base parser parser')
    (hnext : ∀ value, Carries short start shift length base (next value) (next' value)) :
    Carries short start shift length base (parser >>= next) (parser' >>= next') :=
  ⟨Onward.bind hparser.onward fun value ↦ (hnext value).onward,
    Copies.bind hparser h.closed (fun value ↦ (hnext value).onward)
      (fun session value after hclosed hrun ↦
        Nat.add_le_add_left (hparser.onward session value after hclosed hrun).2 base)
      fun value ↦ (hnext value).copies⟩

/-- Behind a parser that moves forward. -/
theorem bind_forward (hparser : Carries short start shift length base parser parser')
    (hforward : Forward parser)
    (hnext : ∀ value, Carries short start shift length (base + 1) (next value) (next' value)) :
    Carries short start shift length base (parser >>= next) (parser' >>= next') := by
  refine ⟨Onward.bind hparser.onward fun value ↦ (hnext value).onward,
    Copies.bind hparser h.closed (fun value ↦ (hnext value).onward)
      (fun session value after hclosed hrun ↦ ?_) fun value ↦ (hnext value).copies⟩
  have hlt := hforward session value after hclosed hrun
  omega

theorem map {f : α → β} (hparser : Carries short start shift length base parser parser') :
    Carries short start shift length base (f <$> parser) (f <$> parser') := by
  rw [map_eq_pure_bind, map_eq_pure_bind]
  exact hparser.bind h fun _ ↦ .pure _

omit h in
theorem ite {condition : Prop} [Decidable condition] {yes yes' no no' : Parser α}
    (hyes : condition → Carries short start shift length base yes yes')
    (hno : ¬ condition → Carries short start shift length base no no') :
    Carries short start shift length base (if condition then yes else no)
      (if condition then yes' else no') := by
  split
  · exact hyes ‹_›
  · exact hno ‹_›

/-! ### Tokens -/

variable {kind : Kind} {kinds : KindSet}

theorem expect (hend : kind ≠ .endOfInput) :
    Carries short start shift length base (expect kind) (expect kind) := by
  refine ⟨Elementary.onward (.expect kind), ?_⟩
  intro session copy value after hplaces _ hrun hle
  by_cases hkind : session.cursor.kind = kind
  · rw [expect_of_kind hkind] at hrun
    cases hrun
    have hlt := h.position_lt (copy.cursor.expecting (.single kind))
      (session.cursor.expecting (.single kind)) hplaces (hkind ▸ hend) hle
    have hhere := h.here_of_lt hplaces hlt
    rw [← hhere]
    exact ⟨_, expect_of_kind ((congrArg Token.kind hhere).trans hkind),
      h.advance (copy.cursor.expecting (.single kind)) (session.cursor.expecting (.single kind))
        hplaces hle, rfl⟩
  · rw [expect_of_ne hkind] at hrun
    cases hrun

theorem consume (hend : kind ≠ .endOfInput) :
    Carries short start shift length base (consume kind) (consume kind) := by
  refine ⟨Elementary.onward (.consume kind), ?_⟩
  intro session copy value after hplaces _ hrun hle
  by_cases hkind : session.cursor.kind = kind
  · rw [consume_of_kind hkind] at hrun
    cases hrun
    have hlt := h.position_lt (copy.cursor.expecting (.single kind))
      (session.cursor.expecting (.single kind)) hplaces (hkind ▸ hend) hle
    exact ⟨_, consume_of_kind ((congrArg Token.kind (h.here_of_lt hplaces hlt)).trans hkind),
      h.advance (copy.cursor.expecting (.single kind)) (session.cursor.expecting (.single kind))
        hplaces hle, rfl⟩
  · rw [consume_of_ne hkind] at hrun
    cases hrun
    refine ⟨_, consume_of_ne fun hcopy ↦ hkind ?_, hplaces, rfl⟩
    exact (h.kind_of_ne hplaces (hcopy ▸ hend)).symm.trans hcopy

theorem consumeAny (hend : kinds.contains .endOfInput = false) :
    Carries short start shift length base (consumeAny kinds) (consumeAny kinds) := by
  refine ⟨Elementary.onward (.consumeAny kinds), ?_⟩
  have hne {kind : Kind} (hkind : kinds.contains kind = true) : kind ≠ .endOfInput := by
    rintro rfl
    rw [hend] at hkind
    cases hkind
  intro session copy value after hplaces _ hrun hle
  cases hkind : kinds.contains session.cursor.kind with
  | true =>
    rw [consumeAny_of_contains hkind] at hrun
    cases hrun
    have hlt := h.position_lt (copy.cursor.expecting kinds) (session.cursor.expecting kinds) hplaces
      (hne hkind) hle
    have hhere := h.here_of_lt hplaces hlt
    rw [← hhere]
    refine ⟨_, consumeAny_of_contains ?_,
      h.advance (copy.cursor.expecting kinds) (session.cursor.expecting kinds) hplaces hle, rfl⟩
    rw [Place.kind, hhere]
    exact hkind
  | false =>
    rw [consumeAny_of_not_contains hkind] at hrun
    cases hrun
    refine ⟨_, consumeAny_of_not_contains (Bool.eq_false_iff.mpr fun hcopy ↦ ?_), hplaces, rfl⟩
    rw [h.kind_of_ne hplaces (hne hcopy), hkind] at hcopy
    cases hcopy

/-- Passing a token whose text does not matter. -/
theorem pass {rest rest' : Parser β} (hrest : Carries short start shift length base rest rest') :
    Carries short start shift length base (Parser.advance >>= fun _ ↦ rest)
      (Parser.advance >>= fun _ ↦ rest') := by
  refine ⟨Onward.bind (Elementary.onward .advance) fun _ ↦ hrest.onward, ?_⟩
  intro session copy value after hplaces hbase hrun hle
  rw [bind_of_ok (rfl : Parser.advance session = .ok session.cursor.here session.passed)] at hrun
  have hclosed := Cursor.closed_advance (hplaces.begins_other.closed h.closed)
  have hplaces' := h.advance copy.cursor session.cursor hplaces
    ((hrest.onward session.passed value after hclosed hrun).2.trans hle)
  exact hrest.copies session.passed copy.passed value after hplaces'
    (hbase.trans (Cursor.position_le_advance copy.cursor)) hrun hle

end Carries

/-! ### Phrases -/

/-- A phrase ends alike if it ends behind the first token of the excerpt. -/
theorem Copies.phraseFrom (h : short.Excerpt start shift length) {category : Category} {begin : Nat}
    {body body' : Parser (Draft category)}
    (hpast : ∀ session draft after, start.Begins session.cursor.toPlace →
      shift + base ≤ session.cursor.position → body session = .ok draft after →
        shift < after.cursor.position)
    (hbody : Copies short start shift length base body body') :
    Copies short start shift length base (phraseFrom begin body) (phraseFrom begin body') := by
  intro session copy phrase after hplaces hbase hrun hle
  have hposition := hplaces.position_eq
  obtain ⟨draft, between, hfirst, hrest⟩ := bind_eq_ok hrun
  cases hrest
  have hlt := hpast session draft _ hplaces.begins_other (by omega) hfirst
  obtain ⟨after', hrun', hplaces', hoverflow⟩ :=
    hbody session copy draft _ hplaces hbase hfirst hle
  have hposition' := hplaces'.position_eq
  refine ⟨after', ?_, hplaces', hoverflow⟩
  rw [← h.previousStop_eq hplaces' (by omega)]
  exact bind_of_ok hrun' _

/-- A phrase that is never empty begins alike. -/
theorem Copies.phrase (h : short.Excerpt start shift length) {category : Category}
    {body body' : Parser (Draft category)} (hforward : Forward (Parser.phrase body))
    (hbody : Copies short start shift length 0 body body') :
    Copies short start shift length 0 (Parser.phrase body) (Parser.phrase body') := by
  intro session copy phrase after hplaces hbase hrun hle
  have hclosed := hplaces.begins_other.closed h.closed
  have hlt := hforward session phrase after hclosed hrun
  have hposition := hplaces.position_eq
  have hhere := h.here_of_lt hplaces (by omega)
  have hcopies : Copies short start shift length 0
      (Parser.phraseFrom session.cursor.here.span.start body)
      (Parser.phraseFrom session.cursor.here.span.start body') := by
    refine Copies.phraseFrom h (fun other draft after hbegins hle hbody ↦ ?_) hbody
    have hother := hforward.of_phrase other draft after (hbegins.closed h.closed) hbody
    omega
  obtain ⟨after', hrun', hafter⟩ := hcopies session copy phrase after hplaces hbase hrun hle
  refine ⟨after', ?_, hafter⟩
  rw [← hhere] at hrun'
  exact hrun'

theorem Carries.phrase (h : short.Excerpt start shift length) {category : Category}
    {body body' : Parser (Draft category)} (hforward : Forward (Parser.phrase body))
    (hbody : Carries short start shift length 0 body body') :
    Carries short start shift length 0 (Parser.phrase body) (Parser.phrase body') :=
  ⟨.bind (Elementary.onward (.look _)) fun _ ↦ hbody.onward.phraseFrom _,
    .phrase h hforward hbody.copies⟩

/-! ### Repetition -/

theorem Carries.iterate (h : short.Excerpt start shift length) {step step' : α → Parser (Option α)}
    (hstep : ∀ value, Carries short start shift length base (step value) (step' value))
    (value : α) :
    Carries short start shift length base (iterate step value) (iterate step' value) := by
  have honward (value : α) : Onward (Parser.iterate step value) :=
    .iterate (fun value ↦ (hstep value).onward) value
  refine ⟨honward value, fun session ↦ ?_⟩
  induction value, session using iterate_induction step with
  | h value session ih =>
  intro copy final after hplaces hbase hrun hle
  have hclosed := hplaces.begins_other.closed h.closed
  cases hround : step value session with
  | error failure between =>
    rw [iterate_of_error hround] at hrun
    cases hrun
  | ok next? between =>
    have hcopied (hbetween : between.cursor.position ≤ shift + length) :=
      (hstep value).copies session copy next? between hplaces hbase hround hbetween
    cases next? with
    | none =>
      rw [iterate_of_none hround] at hrun
      cases hrun
      obtain ⟨after', hrun', hafter⟩ := hcopied hle
      exact ⟨after', iterate_of_none hrun', hafter⟩
    | some next =>
      -- The rounds of both loops come to corresponding places, so both loops go on or stop.
      have hcloser {copied : Session}
          (hplaces' : Place.Abreast short start shift copied.cursor.toPlace
            between.cursor.toPlace) :
          copied.remaining < copy.remaining ↔ between.remaining < session.remaining := by
        have hlength := hplaces.begins.length_eq
        have hlength' := hplaces.begins_other.length_eq
        have hcopied := hplaces'.begins.length_eq
        have hcopied' := hplaces'.begins_other.length_eq
        have hposition := hplaces.position_eq
        have hposition' := hplaces'.position_eq
        simp only [Session.remaining]
        omega
      by_cases hless : between.remaining < session.remaining
      · rw [iterate_of_closer hround hless] at hrun
        obtain ⟨hfit, hpast⟩ := (hstep value).onward session (some next) between hclosed hround
        have hlast := (honward next between final after hfit.closed hrun).2
        obtain ⟨copied, hrun', hplaces', hoverflow⟩ := hcopied (hlast.trans hle)
        have hposition := hplaces.position_eq
        have hposition' := hplaces'.position_eq
        obtain ⟨after', hrest, hplaces'', hoverflow'⟩ :=
          ih next between hround hless copied final after hplaces' (by omega) hrun hle
        rw [iterate_of_closer hrun' ((hcloser hplaces').mpr hless)]
        exact ⟨after', hrest, hplaces'', hoverflow'.trans hoverflow⟩
      · rw [iterate_of_not_closer hround hless] at hrun
        cases hrun
        obtain ⟨after', hrun', hplaces', hoverflow⟩ := hcopied hle
        refine ⟨after', ?_, hplaces', hoverflow⟩
        exact iterate_of_not_closer hrun' fun hless' ↦ hless ((hcloser hplaces').mp hless')

theorem Carries.behind (h : short.Excerpt start shift length) {kind : Kind}
    (hend : kind ≠ .endOfInput)
    (hparser : Carries short start shift length base parser parser') :
    Carries short start shift length base (behind kind parser) (behind kind parser') :=
  (Carries.consume h hend).bind h fun _ ↦ .ite (fun _ ↦ .map h hparser) fun _ ↦ .pure _

theorem Carries.separatedBy (h : short.Excerpt start shift length) {separator : Kind}
    (hend : separator ≠ .endOfInput)
    (hparser : Carries short start shift length base parser parser') :
    Carries short start shift length base (separatedBy separator parser)
      (separatedBy separator parser') :=
  hparser.bind h fun _ ↦ .bind h
    (.bind h (.iterate h (fun _ ↦ .bind h (.behind h hend hparser) fun _ ↦ .pure _) [])
      fun _ ↦ .pure _) fun _ ↦ .pure _

/-- Entering a rule and leaving it moves nothing. -/
theorem Carries.enter {title : String} {depth depth' : Nat}
    (hbody : Carries short start shift length base parser parser') :
    Carries short start shift length base (enter title depth parser)
      (enter title depth' parser') := by
  refine ⟨.enter hbody.onward, ?_⟩
  intro session copy value after hplaces hbase hrun hle
  obtain ⟨between, hfirst, rfl⟩ := enter_eq_ok hrun
  obtain ⟨after', hrun', hplaces', hoverflow⟩ := hbody.copies (entered title depth session)
    (entered title depth' copy) value between hplaces hbase hfirst hle
  exact ⟨left title depth' none after', enter_of_ok hrun', hplaces', hoverflow⟩

end Rules

end Parser

end CorpusQuery
