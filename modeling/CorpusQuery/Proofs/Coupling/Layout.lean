import CorpusQuery.Proofs.Coupling.Index

/-!
Layout does not matter. Two token lists that say the same and whose tokens touch in the same places
are read alike by every entry under every limit (`Entry.layout_invariant`): offsets, the sizes of
gaps and the letter case of keywords never influence an outcome. The coupling relates sessions at
the same index; since tokens start later and later in either list, the failures of alternatives are
compared alike, too.
-/

set_option autoImplicit false
set_option relaxedAutoImplicit false

namespace CorpusQuery

open CorpusQuery.Parser

/-! ### Two layouts of the same tokens -/

namespace Token

/-- For every token but the last one, whether the next one starts where it stops. -/
def touching (tokens : List Token) : List Bool :=
  tokens.zipWith (fun token next ↦ token.span.stop == next.span.start) tokens.tail

/-- Two token lists that say the same and have their gaps in the same places. -/
structure Relaid (tokens tokens' : List Token) : Prop where
  lexemes : tokens.map Token.lexeme = tokens'.map Token.lexeme
  touching : touching tokens = touching tokens'
  closed : Closed tokens
  closed' : Closed tokens'
  increasing : Increasing tokens
  increasing' : Increasing tokens'

theorem touching_getElem? {tokens : List Token} {index : Nat} (h : index + 1 < tokens.length) :
    (touching tokens)[index]? =
      some (tokens[index].span.stop == tokens[index + 1].span.start) := by
  rw [touching, List.getElem?_zipWith, List.getElem?_tail, List.getElem?_eq_getElem h,
    List.getElem?_eq_getElem (Nat.lt_of_succ_lt h)]

end Token

namespace Token.Relaid

variable {tokens tokens' : List Token} (h : Token.Relaid tokens tokens')

include h

theorem length_eq : tokens'.length = tokens.length := by
  have hlength := congrArg List.length h.lexemes
  rw [List.length_map, List.length_map] at hlength
  exact hlength.symm

theorem ahead_length_eq :
    (Place.ofTokens tokens').ahead.length = (Place.ofTokens tokens).ahead.length := by
  have hlength := Place.length_ofTokens h.closed
  have hlength' := Place.length_ofTokens h.closed'
  have hsame := h.length_eq
  omega

theorem lexeme_eq {index : Nat} (hindex : index ≤ (Place.ofTokens tokens).ahead.length) :
    ((Place.ofTokens tokens).peek index).lexeme = ((Place.ofTokens tokens').peek index).lexeme := by
  have hlength := Place.length_ofTokens h.closed
  have hsame := h.length_eq
  rw [Place.peek_ofTokens h.closed (by omega), Place.peek_ofTokens h.closed' (by omega)]
  have hget := congrArg (·[index]?) h.lexemes
  simp only [List.getElem?_map] at hget
  rw [List.getElem?_eq_getElem (by omega), List.getElem?_eq_getElem (by omega)] at hget
  exact Option.some.inj hget

theorem agree (index : Nat) :
    Place.Abreast.Agree (fun _ ↦ 0) (Place.ofTokens tokens) (Place.ofTokens tokens') 0 index where
  lexeme i _ := by
    rcases Nat.le_total i (Place.ofTokens tokens).ahead.length with hle | hle
    · exact h.lexeme_eq hle
    · have hlast := h.lexeme_eq (Nat.le_refl _)
      rw [Place.peek, Place.along_of_length_le (Nat.le_refl _), Place.peek,
        Place.along_of_length_le (Nat.le_of_eq h.ahead_length_eq)] at hlast
      rw [Place.peek, Place.along_of_length_le hle, Place.peek,
        Place.along_of_length_le (h.ahead_length_eq ▸ hle)]
      exact hlast
  touches i _ hi := by
    have hlength := Place.length_ofTokens h.closed
    have hsame := h.length_eq
    have htouching := congrArg (·[i]?) h.touching
    simp only [Token.touching_getElem? (show i + 1 < tokens.length by omega),
      Token.touching_getElem? (show i + 1 < tokens'.length by omega), Option.some.injEq]
      at htouching
    rw [Nat.add_zero, Nat.add_zero, Place.peek_ofTokens h.closed (by omega),
      Place.peek_ofTokens h.closed (by omega), Place.peek_ofTokens h.closed' (by omega),
      Place.peek_ofTokens h.closed' (by omega)]
    exact htouching
  blurred _ _ := ⟨rfl, rfl⟩
  before _ hi := absurd hi (Nat.not_lt_zero _)

/-- Tokens are in the same order in both lists. -/
theorem start_lt_iff {index next : Nat} (hindex : index ≤ (Place.ofTokens tokens).ahead.length)
    (hnext : next ≤ (Place.ofTokens tokens).ahead.length) :
    (((Place.ofTokens tokens).peek index).span.start <
        ((Place.ofTokens tokens).peek next).span.start ↔ index < next) ∧
      (((Place.ofTokens tokens').peek index).span.start <
        ((Place.ofTokens tokens').peek next).span.start ↔ index < next) := by
  have hlength := h.ahead_length_eq
  rcases Nat.lt_trichotomy index next with hlt | rfl | hlt
  · have hstart := h.increasing.lt h.closed hlt hnext
    have hstart' := h.increasing'.lt h.closed' hlt (hlength ▸ hnext)
    exact ⟨iff_of_true hstart hlt, iff_of_true hstart' hlt⟩
  · simp
  · have hstart := h.increasing.lt h.closed hlt hindex
    have hstart' := h.increasing'.lt h.closed' hlt (hlength ▸ hindex)
    exact ⟨iff_of_false (by omega) (by omega), iff_of_false (by omega) (by omega)⟩

end Token.Relaid

/-! ### Failures at the same index -/

/-- Two failures about the tokens at an index of two lists that report the same otherwise. -/
structure Failure.Abreast (start start' : Place) (failure failure' : Failure) : Prop where
  index : ∃ index ≤ start.ahead.length,
    failure.token = start.peek index ∧ failure'.token = start'.peek index
  expected_eq : failure.expected = failure'.expected
  cause_eq : failure.cause = failure'.cause

section Failures

variable {tokens tokens' : List Token} {failure failure' other other' : Failure}

theorem Failure.Abreast.exhausted (h : Token.Relaid tokens tokens')
    (hfailure : Failure.Abreast (.ofTokens tokens) (.ofTokens tokens') failure failure')
    (hother : Failure.Abreast (.ofTokens tokens) (.ofTokens tokens') other other') :
    Failure.Abreast (.ofTokens tokens) (.ofTokens tokens') (other.exhausted [failure])
      (other'.exhausted [failure']) := by
  obtain ⟨index, hindex, htoken, htoken'⟩ := hfailure.index
  obtain ⟨next, hnext, hnextToken, hnextToken'⟩ := hother.index
  obtain ⟨hlt, hlt'⟩ := h.start_lt_iff hnext hindex
  obtain ⟨hgt, hgt'⟩ := h.start_lt_iff hindex hnext
  have hend : failure.atEnd = failure'.atEnd := by
    rw [Failure.atEnd, Failure.atEnd, htoken, htoken', (Lexeme.mk.inj (h.lexeme_eq hindex)).1]
  have hend' : other.atEnd = other'.atEnd := by
    rw [Failure.atEnd, Failure.atEnd, hnextToken, hnextToken',
      (Lexeme.mk.inj (h.lexeme_eq hnext)).1]
  have hpick : Failure.Abreast (.ofTokens tokens) (.ofTokens tokens') (other.merge failure)
      (other'.merge failure') := by
    refine ⟨?_, congrArg₂ (· ∪ ·) hother.expected_eq hfailure.expected_eq, rfl⟩
    simp only [Failure.merge, ← hend, ← hend']
    split
    · exact hfailure.index
    · exact hother.index
  simp only [Failure.exhausted, List.foldl_cons, List.foldl_nil, Failure.further]
  rw [htoken, hnextToken, htoken', hnextToken']
  rcases Nat.lt_trichotomy next index with hcase | hcase | hcase
  · rw [if_pos (hlt.mpr hcase), if_pos (hlt'.mpr hcase)]
    exact hfailure
  · have hnot := mt hlt.mp (Nat.not_lt_of_le (Nat.le_of_eq hcase.symm))
    have hnot' := mt hlt'.mp (Nat.not_lt_of_le (Nat.le_of_eq hcase.symm))
    rw [if_neg hnot, if_neg hnot', if_pos (by rw [hcase]), if_pos (by rw [hcase])]
    exact hpick
  · have hstart := hgt.mpr hcase
    have hstart' := hgt'.mpr hcase
    rw [if_neg (by omega), if_neg (by omega), if_neg (by omega), if_neg (by omega)]
    exact hother

/-- Failures at the same index read alike. -/
theorem Failure.Abreast.reads (h : Token.Relaid tokens tokens')
    (hfailure : Failure.Abreast (.ofTokens tokens) (.ofTokens tokens') failure failure') :
    failure.token.lexeme = failure'.token.lexeme ∧
      failure.failureClass = failure'.failureClass ∧ failure.message = failure'.message := by
  obtain ⟨index, hindex, htoken, htoken'⟩ := hfailure.index
  have hlexeme : failure.token.lexeme = failure'.token.lexeme := by
    rw [htoken, htoken', h.lexeme_eq hindex]
  obtain ⟨hkind, htext⟩ := Lexeme.mk.inj hlexeme
  have hdescribe : failure.token.describe = failure'.token.describe := by
    rw [Token.describe, Token.describe, ← hkind]
    rw [← hkind] at htext
    split <;> rename_i hcase
    all_goals first
      | rfl
      | rw [hcase] at htext
        rw [show failure.token.text = failure'.token.text from htext]
  refine ⟨hlexeme, ?_, ?_⟩
  · rw [Failure.failureClass, Failure.failureClass, Failure.atEnd, Failure.atEnd, hkind,
      hfailure.cause_eq]
  · simp only [Failure.message, Failure.expectedText, hkind, hdescribe, hfailure.cause_eq,
      hfailure.expected_eq]

end Failures

/-! ### The coupling -/

/-- Sessions at the same index of two lists, and failures at the same index. -/
def Coupling.layout (start start' : Place) : Coupling where
  blur _ := 0
  sessions session copy := Session.Abreast start start' session copy ∧
    Option.Rel (Failure.Abreast start start') session.overflow copy.overflow
  failures := Failure.Abreast start start'
  spent _ := False
  past _ := False
  beyond _ := False

section Coupled

variable {tokens tokens' : List Token}

theorem Coupling.lawful_layout (h : Token.Relaid tokens tokens') :
    (layout (.ofTokens tokens) (.ofTokens tokens')).Lawful where
  blur_max _ _ := rfl
  sees hsessions := hsessions.1.place.seenAs (Place.ofTokens_closed _) (h.agree _)
  closed hsessions := ⟨hsessions.1.place.begins.closed (Place.ofTokens_closed _),
    hsessions.1.place.begins_other.closed (Place.ofTokens_closed _)⟩
  tested kinds hsessions := ⟨hsessions.1.tested kinds, hsessions.2⟩
  traced _ _ hsessions := ⟨⟨hsessions.1.place, hsessions.1.expected_eq⟩, hsessions.2⟩
  passed hsessions := .inr ⟨hsessions.1.passed
    (hsessions.1.place.ahead_nil_iff h.ahead_length_eq), hsessions.2⟩
  rewound title depth depth' hsessions hafter :=
    ⟨hsessions.1.rewound hafter.1 title depth depth', hafter.2⟩
  answered hsessions hafter := ⟨hsessions.1.answered hafter.1, hafter.2⟩
  fail cause hsessions := by
    refine ⟨⟨_, hsessions.1.place.begins.position_le, hsessions.1.place.begins.here_eq, ?_⟩,
      hsessions.1.expected_eq, rfl⟩
    rw [← hsessions.1.position_eq]
    exact hsessions.1.place.begins_other.here_eq
  exhausted hfailure hother := hfailure.exhausted h hother
  past_passed _ h := h
  beyond_fail _ _ h := h
  beyond_exhausted h := h.elim id id

/-- Without room both parses fail at the same index. -/
theorem Coupling.cutoff_layout (h : Token.Relaid tokens tokens') (limit : Nat) (rule : Rule) :
    Coupled (layout (.ofTokens tokens) (.ofTokens tokens')) Anywhere (Tree.blurred fun _ ↦ 0)
      (rule.run limit 0) (rule.run limit 0) where
  sticky _ hspent := hspent
  forward _ hpast := hpast
  follows session copy hsessions _ := by
    have hfailure := (lawful_layout h).fail (.nestingLimit limit) hsessions
    have hoverflow : Option.Rel (Failure.Abreast (.ofTokens tokens) (.ofTokens tokens'))
        (session.overflow <|> some (session.cursor.failure (.nestingLimit limit)))
        (copy.overflow <|> some (copy.cursor.failure (.nestingLimit limit))) := by
      have hearlier := hsessions.2
      generalize session.overflow = earlier, copy.overflow = earlier' at hearlier ⊢
      cases hearlier with
      | some hfirst => exact .some hfirst
      | none => exact .some hfailure
    exact .inr (.error hfailure ⟨⟨hsessions.1.place, hsessions.1.expected_eq⟩, hoverflow⟩)

theorem Coupling.scopes_layout (h : Token.Relaid tokens tokens') (limit room : Nat) :
    (layout (.ofTokens tokens) (.ofTokens tokens')).Scopes (Rule.inside limit room)
      (Rule.inside limit room) :=
  scopes_inside (lawful_layout h) (fun _ ↦ .of_never (fun _ h ↦ h) (fun _ h ↦ h) _)
    (cutoff_layout h limit) room

end Coupled

/-! ### Outcomes -/

/-- Two outcomes over two token lists that differ at most in offsets: trees that are the same but
for their spans, or failures that report the same at the same index. -/
inductive SameOutcome (tokens tokens' : List Token) {category : Category} :
    Except Failure (Phrase category) → Except Failure (Phrase category) → Prop
  | ok {phrase phrase' : Phrase category} (h : phrase.same phrase' = true) :
      SameOutcome tokens tokens' (.ok phrase) (.ok phrase')
  | error {failure failure' : Failure} (index : Nat)
      (htoken : tokens[index]? = some failure.token)
      (htoken' : tokens'[index]? = some failure'.token)
      (hclass : failure.failureClass = failure'.failureClass)
      (hkind : failure.token.kind = failure'.token.kind)
      (hexpected : failure.expected = failure'.expected)
      (hmessage : failure.message = failure'.message) :
      SameOutcome tokens tokens' (.error failure) (.error failure')

theorem Failure.Abreast.sameOutcome {tokens tokens' : List Token}
    (h : Token.Relaid tokens tokens') {failure failure' : Failure}
    (hfailure : Failure.Abreast (.ofTokens tokens) (.ofTokens tokens') failure failure')
    {category : Category} :
    SameOutcome tokens tokens' (.error failure : Except Failure (Phrase category))
      (.error failure') := by
  obtain ⟨index, hindex, htoken, htoken'⟩ := hfailure.index
  obtain ⟨hlexeme, hclass, hmessage⟩ := hfailure.reads h
  have hget := Place.getElem?_tokens (Place.begins_ofTokens tokens).behind_eq hindex
  have hget' := Place.getElem?_tokens (Place.begins_ofTokens tokens').behind_eq
    (h.ahead_length_eq ▸ hindex)
  rw [Place.tokens_ofTokens h.closed, ← htoken] at hget
  rw [Place.tokens_ofTokens h.closed', ← htoken'] at hget'
  exact .error index hget hget' hclass (Lexeme.mk.inj hlexeme).1 hfailure.expected_eq hmessage

/-- Token lists that say the same and have their gaps in the same places are read alike. -/
theorem Entry.layout_invariant (entry : Entry) (limit : Nat) {tokens tokens' : List Token}
    (h : Token.Relaid tokens tokens') :
    SameOutcome tokens tokens' (entry.parse limit tokens).outcome
      (entry.parse limit tokens').outcome := by
  have hscopes := Coupling.scopes_layout h limit limit
  rw [← Scope.top_eq_inside] at hscopes
  have hfollows := (entry.coupled_complete (Coupling.lawful_layout h) hscopes).follows _ _
    ⟨.start tokens tokens', .none⟩ trivial
  unfold parse
  generalize entry.complete (.top limit) (.ofTokens tokens) = result at hfollows ⊢
  generalize entry.complete (.top limit) (.ofTokens tokens') = result' at hfollows ⊢
  have hagrees := hfollows.resolve_left
    (by rintro (hspent | hahead) <;> cases result <;> assumption)
  cases hagrees with
  | @ok phrase phrase' after after' hphrase hafter =>
    have hoverflow := hafter.2
    simp only
    generalize after.overflow = overflow, after'.overflow = overflow' at hoverflow ⊢
    cases hoverflow with
    | some hfailure => exact hfailure.sameOutcome h
    | none =>
      refine .ok ((Tree.same_iff _ _).mpr ?_)
      rw [← Tree.blurred_zero, ← Tree.blurred_zero]
      exact hphrase
  | @error failure failure' after after' hfailure hafter =>
    have hoverflow := hafter.2
    simp only
    generalize after.overflow = overflow, after'.overflow = overflow' at hoverflow ⊢
    cases hoverflow with
    | some hfirst => exact hfirst.sameOutcome h
    | none => exact hfailure.sameOutcome h

/-- A negated variable, and the same with the keyword in capitals and a wider gap behind it. -/
theorem Entry.layout_invariant_of_negation :
    let negation : List Token :=
      [⟨.keyword .not, "not", ⟨0, 3⟩⟩, ⟨.variableName, "x", ⟨4, 6⟩⟩, .endAt 6]
    let shouted : List Token :=
      [⟨.keyword .not, "NOT", ⟨2, 5⟩⟩, ⟨.variableName, "x", ⟨9, 11⟩⟩, .endAt 11]
    Token.Relaid negation shouted ∧
      SameOutcome negation shouted (Entry.expression.parse 8 negation).outcome
        (Entry.expression.parse 8 shouted).outcome := by
  intro negation shouted
  have h : Token.Relaid negation shouted := by
    constructor <;> decide
  exact ⟨h, layout_invariant .expression 8 h⟩

end CorpusQuery
