import CorpusQuery.Proofs.Coupling.Grammar

/-!
Places by their index. A parse never changes its token list, so every place in it is given by the
place where the list begins and the number of tokens passed (`Place.Begins`), and so is everything
that can be seen from there. Two places at corresponding indices look the same to the grammar if the
two lists agree from the token before them to the second one behind them (`Abreast.seenAs`).
-/

set_option autoImplicit false
set_option relaxedAutoImplicit false

namespace CorpusQuery

open CorpusQuery.Grammar

/-! ### Indices -/

namespace Place

variable {start place : Place}

/-- The token list of a place begins at another one. -/
structure Begins (start place : Place) : Prop where
  behind_eq : start.behind = []
  tokens_eq : place.tokens = start.tokens

theorem along_append {front : List Token} {here first : Token} {ahead rest : List Token}
    (h : first :: rest = front ++ here :: ahead) (count : Nat) :
    along first rest (front.length + count) = along here ahead count := by
  induction front generalizing first rest with
  | nil =>
    cases h
    rw [List.length_nil, Nat.zero_add]
  | cons token front ih =>
    rw [List.cons_append, List.cons.injEq] at h
    obtain ⟨rfl, rfl⟩ := h
    cases hrest : front ++ here :: ahead with
    | nil => simp at hrest
    | cons next others =>
      rw [List.length_cons, Nat.add_right_comm, along]
      exact ih hrest.symm

theorem along_of_length_le {here : Token} {ahead : List Token} {count : Nat}
    (h : ahead.length ≤ count) : along here ahead count = ahead.getLastD here := by
  induction ahead generalizing here count with
  | nil => rfl
  | cons next rest ih =>
    cases count with
    | zero => exact absurd h (Nat.not_succ_le_zero _)
    | succ count =>
      rw [along, List.getLastD_cons]
      exact ih (Nat.le_of_succ_le_succ h)

theorem begins_ofTokens (tokens : List Token) : (ofTokens tokens).Begins (ofTokens tokens) := by
  refine ⟨?_, rfl⟩
  cases tokens with
  | nil => rfl
  | cons first rest =>
    simp only [ofTokens]
    split <;> rfl

/-- A token of the list by its index. -/
theorem getElem?_tokens (h : start.behind = []) {index : Nat}
    (hindex : index ≤ start.ahead.length) :
    start.tokens[index]? = some (start.peek index) := by
  obtain ⟨behind, here, ahead⟩ := start
  obtain rfl : behind = [] := h
  simp only [tokens, peek, List.reverse_nil, List.nil_append] at hindex ⊢
  induction ahead generalizing here index with
  | nil =>
    obtain rfl : index = 0 := Nat.le_zero.mp hindex
    rfl
  | cons next rest ih =>
    cases index with
    | zero => rfl
    | succ index => exact ih next (Nat.le_of_succ_le_succ hindex)

namespace Begins

theorem first_eq (h : start.Begins place) :
    start.here :: start.ahead = place.behind.reverse ++ place.here :: place.ahead := by
  have htokens := h.tokens_eq
  rw [tokens, tokens, h.behind_eq] at htokens
  exact htokens.symm

theorem length_eq (h : start.Begins place) :
    place.position + place.ahead.length = start.ahead.length := by
  have hlength := congrArg List.length h.first_eq
  simp only [List.length_cons, List.length_append, List.length_reverse] at hlength
  rw [position]
  omega

theorem position_le (h : start.Begins place) : place.position ≤ start.ahead.length :=
  h.length_eq ▸ Nat.le_add_right _ _

theorem peek_eq (h : start.Begins place) (count : Nat) :
    place.peek count = start.peek (place.position + count) := by
  have halong := along_append h.first_eq count
  rw [List.length_reverse] at halong
  exact halong.symm

theorem here_eq (h : start.Begins place) : place.here = start.peek place.position := by
  rw [← Nat.add_zero place.position, ← h.peek_eq, peek, along_zero]

theorem previous_eq (h : start.Begins place) {previous : Token} {rest : List Token}
    (hbehind : place.behind = previous :: rest) : previous = start.peek (place.position - 1) := by
  have hfirst := h.first_eq
  rw [hbehind, List.reverse_cons, List.append_assoc, List.singleton_append] at hfirst
  have halong := along_append hfirst 0
  rw [along_zero, List.length_reverse] at halong
  rw [position, hbehind, List.length_cons, Nat.add_sub_cancel]
  exact halong.symm

theorem closed (h : start.Begins place) (hclosed : start.Closed) : place.Closed := by
  rw [Closed, ← along_of_length_le (Nat.le_refl _)] at hclosed ⊢
  have hpeek := h.peek_eq place.ahead.length
  rw [h.length_eq] at hpeek
  rw [show along place.here place.ahead place.ahead.length = _ from hpeek]
  exact hclosed

theorem advance {cursor : Cursor} (h : start.Begins cursor.toPlace) :
    start.Begins cursor.advance.toPlace :=
  ⟨h.behind_eq, (Cursor.tokens_advance cursor).trans h.tokens_eq⟩

/-- A place is given by its index. -/
theorem eq_of_position_eq (h : start.Begins place) {other : Place} (hother : start.Begins other)
    (hposition : other.position = place.position) : place = other := by
  have hfirst := h.first_eq.symm.trans hother.first_eq
  obtain ⟨hbehind, hrest⟩ := List.append_inj hfirst (by
    rw [List.length_reverse, List.length_reverse]
    exact hposition.symm)
  obtain ⟨hhere, hahead⟩ := List.cons.inj hrest
  obtain ⟨behind, here, ahead⟩ := place
  obtain ⟨behind', here', ahead'⟩ := other
  obtain rfl : behind = behind' := List.reverse_injective hbehind
  obtain rfl : here = here' := hhere
  obtain rfl : ahead = ahead' := hahead
  rfl

/-- The tokens from a place on are those from its index on. -/
theorem exists_index (h : start.Begins place) {token : Token}
    (htoken : token ∈ place.here :: place.ahead) :
    ∃ index, place.position ≤ index ∧ index ≤ start.ahead.length ∧ token = start.peek index := by
  obtain ⟨count, hcount, hget⟩ := List.mem_iff_getElem.mp htoken
  have hsplit := h.first_eq
  have hlength := h.length_eq
  rw [List.length_cons] at hcount
  refine ⟨place.position + count, Nat.le_add_right _ _, by omega, ?_⟩
  have hpeek := getElem?_tokens h.behind_eq (show place.position + count ≤ _ by omega)
  have htokens : start.tokens = place.behind.reverse ++ place.here :: place.ahead := by
    rw [tokens, h.behind_eq, List.reverse_nil, List.nil_append, hsplit]
  rw [htokens, position, ← List.length_reverse, List.getElem?_append_right (Nat.le_add_right _ _),
    Nat.add_sub_cancel_left, List.getElem?_eq_getElem hcount, hget, Option.some.injEq] at hpeek
  rw [hpeek, List.length_reverse]
  rfl

end Begins

/-- From the last index on there is only the end of the input. -/
theorem Closed.kind_peek (hclosed : start.Closed) {index : Nat} (h : start.ahead.length ≤ index) :
    (start.peek index).kind = .endOfInput := by
  rw [peek, along_of_length_le h]
  exact hclosed

end Place

namespace Cursor

variable {cursor : Cursor}

theorem position_advance_of_nil (h : cursor.ahead = []) :
    cursor.advance.position = cursor.position := by
  rw [advance_of_nil h]

theorem position_advance_of_ne_nil (h : cursor.ahead ≠ []) :
    cursor.advance.position = cursor.position + 1 := by
  obtain ⟨next, rest, hahead⟩ := List.exists_cons_of_ne_nil h
  rw [advance_of_cons hahead]
  rfl

theorem expected_advance_of_ne_nil (h : cursor.ahead ≠ []) : cursor.advance.expected = ∅ := by
  obtain ⟨next, rest, hahead⟩ := List.exists_cons_of_ne_nil h
  rw [advance_of_cons hahead]

end Cursor

/-! ### Places at corresponding indices -/

namespace Place

/-- Two places in the lists that begin at two others, the second one so many tokens further on in
its list than the first one is in its own. -/
structure Abreast (start start' : Place) (shift : Nat) (place other : Place) : Prop where
  begins : start.Begins place
  begins_other : start'.Begins other
  position_eq : other.position = place.position + shift

namespace Abreast

variable {start start' place other : Place} {shift : Nat}

theorem advance {cursor copy : Cursor} (h : Abreast start start' shift cursor.toPlace copy.toPlace)
    (hahead : cursor.ahead = [] ↔ copy.ahead = []) :
    Abreast start start' shift cursor.advance.toPlace copy.advance.toPlace := by
  refine ⟨h.begins.advance, h.begins_other.advance, ?_⟩
  by_cases hnil : cursor.ahead = []
  · rw [Cursor.position_advance_of_nil hnil, Cursor.position_advance_of_nil (hahead.mp hnil)]
    exact h.position_eq
  · rw [Cursor.position_advance_of_ne_nil hnil,
      Cursor.position_advance_of_ne_nil fun hcopy ↦ hnil (hahead.mpr hcopy), h.position_eq,
      Nat.add_right_comm]

/-- Two lists of which the second one is longer by the shift end together. -/
theorem ahead_nil_iff (h : Abreast start start' shift place other)
    (hlength : start'.ahead.length = start.ahead.length + shift) :
    place.ahead = [] ↔ other.ahead = [] := by
  have hplace := h.begins.length_eq
  have hother := h.begins_other.length_eq
  have hposition := h.position_eq
  rw [← List.length_eq_zero_iff, ← List.length_eq_zero_iff]
  omega

/-- What two lists have to have in common for the places at an index to look the same. -/
structure Agree (blur : Nat → Nat) (start start' : Place) (shift index : Nat) : Prop where
  lexeme : ∀ i ≤ index + 2, (start.peek i).lexeme = (start'.peek (i + shift)).lexeme
  touches : ∀ i < index + 2, i < start.ahead.length →
    ((start.peek i).span.stop == (start.peek (i + 1)).span.start) =
      ((start'.peek (i + shift)).span.stop == (start'.peek (i + 1 + shift)).span.start)
  blurred : ∀ i ≤ index,
    blur (start.peek i).span.start = blur (start'.peek (i + shift)).span.start ∧
      blur (start.peek i).span.stop = blur (start'.peek (i + shift)).span.stop
  /-- The tokens that only the second list begins with say nothing about the first one. -/
  before : ∀ i < shift, (start'.peek i).kind = .keyword .find ∧
    blur (start'.peek i).span.stop = blur (start.peek 0).span.start

theorem previous_cases (h : Abreast start start' shift place other) :
    (place.behind = [] ∧ other.behind = []) ∨
      (place.behind = [] ∧ ∃ previous' rest', other.behind = previous' :: rest' ∧ 0 < shift ∧
        previous' = start'.peek (shift - 1)) ∨
      ∃ previous rest previous' rest', place.behind = previous :: rest ∧
        other.behind = previous' :: rest' ∧ previous = start.peek (place.position - 1) ∧
          previous' = start'.peek (place.position - 1 + shift) ∧ 0 < place.position := by
  have hposition := h.position_eq
  cases hbehind : place.behind with
  | nil =>
    have hzero : place.position = 0 := by rw [position, hbehind]; rfl
    cases hbehind' : other.behind with
    | nil => exact .inl ⟨rfl, rfl⟩
    | cons previous' rest' =>
      have hpos : 0 < other.position := by rw [position, hbehind']; exact Nat.succ_pos _
      refine .inr (.inl ⟨rfl, previous', rest', rfl, by omega, ?_⟩)
      rw [h.begins_other.previous_eq hbehind', hposition, hzero, Nat.zero_add]
  | cons previous rest =>
    have hpos : 0 < place.position := by rw [position, hbehind]; exact Nat.succ_pos _
    have hlength : 0 < other.behind.length := by
      rw [← position]
      omega
    obtain ⟨previous', rest', hbehind'⟩ :=
      List.exists_cons_of_ne_nil (List.ne_nil_of_length_pos hlength)
    refine .inr (.inr ⟨previous, rest, previous', rest', rfl, hbehind',
      h.begins.previous_eq hbehind, ?_, hpos⟩)
    rw [h.begins_other.previous_eq hbehind', hposition, Nat.sub_add_comm hpos]

theorem seenAs {blur : Nat → Nat} (h : Abreast start start' shift place other)
    (hclosed : start.Closed) (hagree : Agree blur start start' shift place.position) :
    place.SeenAs blur other := by
  have hhere := h.begins.here_eq
  have hhere' := h.begins_other.here_eq
  rw [h.position_eq] at hhere'
  have hlexeme (count : Nat) (hcount : count ≤ 2) :
      (place.peek count).lexeme = (other.peek count).lexeme := by
    rw [h.begins.peek_eq, h.begins_other.peek_eq, h.position_eq, Nat.add_right_comm]
    exact hagree.lexeme _ (by omega)
  have hpeek (count : Nat) (hcount : count ≤ 2) : place.peekKind count = other.peekKind count :=
    (Lexeme.mk.inj (hlexeme count hcount)).1
  have hlexeme_here : place.here.lexeme = other.here.lexeme := by
    have hzero := hlexeme 0 (Nat.zero_le _)
    rwa [peek, peek, along_zero, along_zero] at hzero
  obtain ⟨hkind, htext⟩ := Lexeme.mk.inj hlexeme_here
  have htouches (count : Nat) (hcount : count < 2)
      (hend : place.peekKind (count + 1) ≠ .endOfInput) :
      place.touches (count + 1) = other.touches (count + 1) := by
    have hlt : place.position + count < start.ahead.length := by
      refine Nat.lt_of_not_le fun hle ↦ hend ?_
      rw [peekKind, h.begins.peek_eq]
      exact hclosed.kind_peek (by omega)
    have hagreed := hagree.touches (place.position + count) (by omega) hlt
    rw [touches, touches, h.begins.peek_eq, h.begins.peek_eq, h.begins_other.peek_eq,
      h.begins_other.peek_eq, h.position_eq]
    rw [Nat.add_right_comm place.position shift, Nat.add_right_comm place.position shift]
    exact hagreed
  exact {
    kind := hkind
    text := fun hhas ↦ by
      have hhas' : place.here.kind.hasText = true := hhas
      rwa [← hkind, hhas', if_pos rfl, if_pos rfl] at htext
    next := hpeek 1 (by omega)
    second := hpeek 2 (by omega)
    touches := fun hbehind ↦ by
      rcases h.previous_cases with ⟨hnil, -⟩ | ⟨hnil, -⟩ | hprevious
      · exact absurd hnil hbehind
      · exact absurd hnil hbehind
      obtain ⟨previous, rest, previous', rest', hcons, hcons', rfl, rfl, hpos⟩ := hprevious
      have hle := h.begins.position_le
      have hagreed := hagree.touches (place.position - 1) (by omega) (by omega)
      rw [Nat.sub_add_cancel hpos] at hagreed
      rw [Place.touches, Place.touches, hcons, hcons', hhere, hhere']
      exact hagreed
    touches_next := htouches 0 (by omega)
    touches_second := htouches 1 (by omega)
    follows := fun kinds hfind ↦ by
      rw [Continuation.follows, Continuation.follows, previousKind?, previousKind?]
      rcases h.previous_cases with ⟨hnil, hnil'⟩ | ⟨hnil, previous', rest', hcons', hshift, rfl⟩ |
        ⟨previous, rest, previous', rest', hcons, hcons', rfl, rfl, hpos⟩
      · rw [hnil, hnil']
      · rw [hnil, hcons']
        simp only [List.head?_nil, List.head?_cons, Option.map_none, Option.map_some,
          Option.any_none, Option.any_some, (hagree.before (shift - 1) (by omega)).1, hfind]
      · have hsame := (Lexeme.mk.inj (hagree.lexeme (place.position - 1) (by omega))).1
        rw [hcons, hcons']
        simp only [List.head?_cons, Option.map_some, Option.any_some, hsame]
    start := by
      rw [hhere, hhere']
      exact (hagree.blurred _ (Nat.le_refl _)).1
    stop := by
      rw [previousStop, previousStop]
      rcases h.previous_cases with ⟨hnil, hnil'⟩ | ⟨hnil, previous', rest', hcons', hshift, rfl⟩ |
        ⟨previous, rest, previous', rest', hcons, hcons', rfl, rfl, hpos⟩
      · rw [hnil, hnil', hhere, hhere']
        exact (hagree.blurred _ (Nat.le_refl _)).1
      · have hzero : place.position = 0 := by rw [position, hnil]; rfl
        rw [hnil, hcons', hhere, hzero]
        exact (hagree.before (shift - 1) (by omega)).2.symm
      · rw [hcons, hcons']
        exact (hagree.blurred _ (by omega)).2 }

end Abreast

end Place

/-! ### Sessions at the same index -/

/-- Two sessions at the same index of two lists, with the same kinds tested there. -/
structure Session.Abreast (start start' : Place) (session copy : Session) : Prop where
  place : Place.Abreast start start' 0 session.cursor.toPlace copy.cursor.toPlace
  expected_eq : session.cursor.expected = copy.cursor.expected

namespace Session.Abreast

variable {start start' : Place} {session copy after after' : Session}

theorem position_eq (h : Session.Abreast start start' session copy) :
    copy.cursor.position = session.cursor.position := h.place.position_eq

theorem tested (h : Session.Abreast start start' session copy) (kinds : KindSet) :
    Session.Abreast start start' (session.tested kinds) (copy.tested kinds) :=
  ⟨h.place, congrArg (· ∪ kinds) h.expected_eq⟩

theorem passed (h : Session.Abreast start start' session copy)
    (hahead : session.cursor.ahead = [] ↔ copy.cursor.ahead = []) :
    Session.Abreast start start' session.passed copy.passed := by
  refine ⟨h.place.advance hahead, ?_⟩
  rw [Session.passed, Session.passed]
  by_cases hnil : session.cursor.ahead = []
  · rw [Cursor.advance_of_nil hnil, Cursor.advance_of_nil (hahead.mp hnil), h.expected_eq]
  · rw [Cursor.expected_advance_of_ne_nil hnil,
      Cursor.expected_advance_of_ne_nil fun hcopy ↦ hnil (hahead.mpr hcopy)]

theorem expected_rewind_eq (h : Session.Abreast start start' session copy)
    (hafter : Session.Abreast start start' after after') :
    (after.cursor.rewind session.cursor.toPlace).expected =
      (after'.cursor.rewind copy.cursor.toPlace).expected := by
  simp only [Cursor.rewind, h.position_eq, hafter.position_eq, hafter.expected_eq]

theorem rewound (h : Session.Abreast start start' session copy)
    (hafter : Session.Abreast start start' after after') (title : String) (depth depth' : Nat) :
    Session.Abreast start start' (Parser.rewound title depth session after)
      (Parser.rewound title depth' copy after') :=
  ⟨h.place, h.expected_rewind_eq hafter⟩

theorem answered (h : Session.Abreast start start' session copy)
    (hafter : Session.Abreast start start' after after') :
    Session.Abreast start start' (Parser.answered session after) (Parser.answered copy after') := by
  refine ⟨h.place, ?_⟩
  have hback := h.expected_rewind_eq hafter
  simp only [Parser.answered, Cursor.expecting, hback, h.expected_eq]

end Session.Abreast

/-! ### Token lists -/

namespace Token

/-- A token list that ends with the end of the input. -/
def Closed (tokens : List Token) : Prop := tokens.getLast?.map Token.kind = some .endOfInput

instance (tokens : List Token) : Decidable (Closed tokens) := inferInstanceAs (Decidable (_ = _))

/-- Every token of a list starts behind the start of the one before it. -/
def Increasing (tokens : List Token) : Prop :=
  tokens.Pairwise fun token next ↦ token.span.start < next.span.start

instance (tokens : List Token) : Decidable (Increasing tokens) :=
  inferInstanceAs (Decidable (tokens.Pairwise _))

/-- A token list whose only end of the input is its last token. -/
structure Ended (tokens : List Token) : Prop where
  closed : Closed tokens
  single : ∀ token ∈ tokens.dropLast, token.kind ≠ .endOfInput

/-- A token list as it is cut from a text. -/
structure Stream (tokens : List Token) : Prop extends Ended tokens where
  increasing : Increasing tokens

/-- The token at an index. Behind the last token a list reads as that token. -/
def read? (tokens : List Token) (index : Nat) : Option Token := tokens[index]?.or tokens.getLast?

end Token

theorem Place.tokens_ofTokens {tokens : List Token} (h : Token.Closed tokens) :
    (Place.ofTokens tokens).tokens = tokens := by
  cases tokens with
  | nil => cases h
  | cons first rest =>
    rw [Token.Closed, List.getLast?_cons, Option.map_some, Option.some.injEq,
      ← List.getLastD_eq_getLast?] at h
    rw [Place.ofTokens]
    simp only [h]
    rfl

section Lists

variable {tokens : List Token}

theorem Place.length_ofTokens (h : Token.Closed tokens) :
    tokens.length = (Place.ofTokens tokens).ahead.length + 1 := by
  have htokens := Place.tokens_ofTokens h
  rw [Place.tokens, (Place.begins_ofTokens tokens).behind_eq, List.reverse_nil,
    List.nil_append] at htokens
  exact (congrArg List.length htokens).symm

/-- The tokens of a closed list by their indices. -/
theorem Place.peek_ofTokens (h : Token.Closed tokens) {index : Nat}
    (hindex : index < tokens.length) :
    (Place.ofTokens tokens).peek index = tokens[index] := by
  have hbegins := Place.begins_ofTokens tokens
  have hlength := Place.length_ofTokens h
  have hget := Place.getElem?_tokens hbegins.behind_eq (show index ≤ _ by omega)
  rw [Place.tokens_ofTokens h, List.getElem?_eq_getElem hindex, Option.some.injEq] at hget
  exact hget.symm

theorem Place.read?_ofTokens (h : Token.Closed tokens) (index : Nat) :
    Token.read? tokens index = some ((Place.ofTokens tokens).peek index) := by
  have hlength := Place.length_ofTokens h
  by_cases hindex : index < tokens.length
  · rw [Token.read?, List.getElem?_eq_getElem hindex, Place.peek_ofTokens h hindex, Option.some_or]
  · have hlast := Place.peek_ofTokens h (show tokens.length - 1 < _ by omega)
    rw [Place.peek, Place.along_of_length_le (by omega)] at hlast
    rw [Token.read?, List.getElem?_eq_none (by omega), Option.none_or,
      List.getLast?_eq_getElem?, List.getElem?_eq_getElem (by omega), ← hlast, Place.peek,
      Place.along_of_length_le (by omega)]

/-- In a list whose only end of the input is its last token, that kind tells where the list ends. -/
theorem Token.Ended.kind_peek_iff (h : Token.Ended tokens) {index : Nat} :
    ((Place.ofTokens tokens).peek index).kind = .endOfInput ↔
      (Place.ofTokens tokens).ahead.length ≤ index := by
  have hlength := Place.length_ofTokens h.closed
  refine ⟨fun hend ↦ Nat.le_of_not_lt fun hlt ↦ ?_, (Place.ofTokens_closed tokens).kind_peek⟩
  rw [Place.peek_ofTokens h.closed (by omega)] at hend
  refine h.single _ (List.mem_iff_getElem.mpr ⟨index, ?_, List.getElem_dropLast _⟩) hend
  rw [List.length_dropLast]
  omega

theorem Token.Increasing.lt (hincreasing : Token.Increasing tokens) (h : Token.Closed tokens)
    {index next : Nat} (hlt : index < next) (hnext : next ≤ (Place.ofTokens tokens).ahead.length) :
    ((Place.ofTokens tokens).peek index).span.start <
      ((Place.ofTokens tokens).peek next).span.start := by
  have hlength := Place.length_ofTokens h
  rw [Place.peek_ofTokens h (by omega), Place.peek_ofTokens h (by omega)]
  exact List.pairwise_iff_getElem.mp hincreasing index next (by omega) (by omega) hlt

end Lists

/-- Parses of two lists begin at the same index. -/
theorem Session.Abreast.start (tokens tokens' : List Token) :
    Session.Abreast (.ofTokens tokens) (.ofTokens tokens') (.ofTokens tokens)
      (.ofTokens tokens') := by
  have hbegins := Place.begins_ofTokens tokens
  have hbegins' := Place.begins_ofTokens tokens'
  have hposition :
      (Place.ofTokens tokens').behind.length = (Place.ofTokens tokens).behind.length := by
    rw [hbegins.behind_eq, hbegins'.behind_eq]
  exact ⟨⟨hbegins, hbegins', hposition⟩, rfl⟩

end CorpusQuery
