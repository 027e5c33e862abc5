import CorpusQuery.Proofs.Spelling.Atom
import CorpusQuery.Proofs.Spelling.Shadow

/-!
The attempt at a marker. Behind its label a node tries a marker first. What stands there may be
something else, but whatever the wordings are, a marker reads no more in a copy than in the tokens:
it tells no synonyms apart, and a sign that stands apart in the copy is no part of an argument.
-/

set_option autoImplicit false
set_option relaxedAutoImplicit false

namespace CorpusQuery

open CorpusQuery.Parser

/-! ### Any wordings -/

/-- The tokens between the parts of a marker, its connectives and the signs of its arguments
aside. -/
def Kind.isDivider : Kind → Bool
  | .identifier | .symbol .leftParen | .symbol .rightParen | .symbol .comma => true
  | _ => false

theorem Kind.beginsArgument_of_isDivider {kind : Kind} (h : kind.isDivider = true) :
    ¬ kind.beginsArgument = true := by
  unfold isDivider at h
  split at h
  iterate 4 exact Bool.false_ne_true
  cases h

namespace Abreast

variable {session copy : Session}

/-- What does not tell synonyms apart, nor the tokens with which arguments begin, sees the same in
two sessions side by side. -/
theorem view_eq {α : Type} (h : Abreast Orderly session copy) (view : Kind → α)
    (hview : ∀ synonym : Synonym, view synonym.other = view synonym.usual)
    (hargument : ∀ kind kind' : Kind, kind.beginsArgument = true → kind'.beginsArgument = true →
      view kind = view kind') : view session.cursor.kind = view copy.cursor.kind := by
  obtain ⟨-, ahead, horderly, hspells, hready⟩ := h
  cases ahead with
  | nil =>
    rw [Session.rest] at hspells
    cases hspells
  | cons wording later =>
    cases hisArgument : wording.isArgument with
    | false =>
      have hsettled : Settled (wording :: later) := by
        refine ⟨horderly, fun next hnext ↦ ?_⟩
        cases hnext
        exact hisArgument
      exact hsettled.kind_eq view hview hspells hready.printed
    | true =>
      obtain ⟨token, rest, hrest, hkind⟩ := hspells.first
      obtain ⟨token', rest', hrest', hkind'⟩ := hready.printed.first
      obtain ⟨rfl, -⟩ := List.cons.inj hrest
      obtain ⟨rfl, -⟩ := List.cons.inj hrest'
      have hbegins := Wording.beginsArgument_kind hisArgument
      rw [Place.kind, Place.kind, hkind']
      refine hargument _ _ ?_ hbegins
      rcases hkind with heq | ⟨synonym, rfl, -⟩ | ⟨-, heq⟩
      · exact heq ▸ hbegins
      · cases hisArgument
      · rw [heq]
        rfl

/-- A mark between the parts of a marker is there for both or for none. -/
theorem kind_iff (h : Abreast Orderly session copy) {kind : Kind} (hkind : kind.isDivider = true) :
    session.cursor.kind = kind ↔ copy.cursor.kind = kind := by
  have hview : (session.cursor.kind == kind) = (copy.cursor.kind == kind) := by
    refine h.view_eq (· == kind) (fun synonym ↦ ?_) fun first second hfirst hsecond ↦ ?_
    · rw [beq_false_of_ne, beq_false_of_ne]
      all_goals
        rintro rfl
        cases synonym <;> cases hkind
    · rw [beq_false_of_ne, beq_false_of_ne]
      · rintro rfl
        exact absurd hsecond (Kind.beginsArgument_of_isDivider hkind)
      · rintro rfl
        exact absurd hfirst (Kind.beginsArgument_of_isDivider hkind)
  rw [← beq_iff_eq, hview, beq_iff_eq]

/-- A token with which no wording of several tokens begins is passed in both. -/
theorem pass (h : Abreast Orderly session copy) (hend : copy.cursor.kind ≠ .endOfInput)
    (hseveral : copy.cursor.kind.beginsSeveral = false) :
    Abreast Orderly session.passed copy.passed := by
  obtain ⟨hclosing, ahead, horderly, hspells, hready⟩ := h
  cases ahead with
  | nil =>
    rw [Session.rest] at hspells
    cases hspells
  | cons wording later =>
    obtain ⟨token, rest, hrest, hkind⟩ := hready.printed.first
    obtain ⟨rfl, -⟩ := List.cons.inj hrest
    rw [Place.kind, hkind] at hseveral
    obtain ⟨hclosing', hlater, hready', -⟩ :=
      hready.pass hclosing hspells (horderly.isSingle hseveral) hend
    exact ⟨hclosing', later, horderly.tail, hlater, hready'⟩

theorem pass_kind (h : Abreast Orderly session copy) {kind : Kind} (hkind : kind.isDivider = true)
    (heq : copy.cursor.kind = kind) : Abreast Orderly session.passed copy.passed := by
  refine h.pass ?_ ?_
  all_goals
    rw [heq]
    unfold Kind.isDivider at hkind
    split at hkind
    iterate 4 first | rfl | nofun
    cases hkind

end Abreast

namespace Grammar

variable {scope : Scope} {α : Type}

/-- The link between two sessions that have any wordings in order ahead. -/
abbrev Anywhere : Session → Session → Prop := Abreast Orderly

/-- A point is not followed by digits. -/
theorem complete_of_orderly {chunk rest : List Token} {later : List Wording}
    (h : Orderly later) (hspells : Spells later rest) : Complete chunk rest := by
  rintro - - point fraction others rfl hpoint hfraction -
  cases later with
  | nil => cases hspells
  | cons wording later =>
    obtain ⟨_, _, heq, hkind⟩ := hspells.first
    cases heq
    rw [hpoint] at hkind
    have hwording : wording.kind = .symbol .dot := by
      rcases hkind with heq | ⟨synonym, -, heq⟩ | ⟨-, heq⟩
      · exact heq.symm
      · cases synonym <;> cases heq
      · cases heq
    have hsingle : wording.isSingle = true := by
      refine h.isSingle ?_
      rw [hwording]
      rfl
    cases wording with
    | lexeme kind text =>
      obtain ⟨_, _, heq, htoken, hlater⟩ := hspells.lexeme
      cases heq
      have hdot : Wording.lexeme kind text = .sign .dot := by
        have hlexeme := Token.lexeme_of_symbol hpoint
        rw [htoken, Lexeme.mark, Lexeme.mk.injEq] at hlexeme
        rw [hlexeme.1, hlexeme.2]
        rfl
      cases later with
      | nil => cases hlater
      | cons next later =>
        obtain ⟨name, rfl⟩ := ((List.isChain_cons_cons.mp h.chain).1).1 hdot
        obtain ⟨_, _, heq, htoken', -⟩ := hlater.lexeme
        cases heq
        rw [(Token.of_lexeme_eq rfl htoken').1] at hfraction
        revert hfraction
        decide
    | choice synonym => cases synonym <;> cases hwording
    | pair first second => cases hsingle
    | number numeral => cases hsingle
    | argument numeral => cases hsingle

theorem numeric_of_signedNumeral {session last : Session} {value : Numeral}
    (hclosing : Closing session.rest) (hrun : signedNumeral session = .ok value last) :
    ∃ value chunk, Numeric value chunk ∧ session.Passes chunk last := by
  obtain ⟨way, hway, chunk, hchunk, hpasses, -⟩ := signedNumeral_written hclosing hrun
  obtain ⟨value, hvalue⟩ := Numeric.of_written hway hchunk
  exact ⟨value, chunk, hvalue, hpasses⟩

theorem getLast_of_argument {numeral : Numeral} {way : List Lexeme}
    (h : way ∈ (Wording.argument numeral).ways) :
    way.getLast? = (Wording.argument numeral).usual.getLast? := by
  simp only [Wording.ways, Wording.usual] at h ⊢
  cases hnegative : numeral.isNegative with
  | true =>
    rw [hnegative, if_pos rfl, if_pos rfl, List.mem_singleton] at h
    rw [h, if_pos rfl]
  | false =>
    rw [hnegative, if_neg Bool.false_ne_true, if_neg Bool.false_ne_true, List.mem_pair] at h
    rw [if_neg Bool.false_ne_true]
    obtain ⟨text, others, heq⟩ := numeral.lexemes_eq_cons
    rcases h with rfl | rfl
    · rfl
    · rw [heq, List.getLast?_cons_cons]

/-- A wording that is a number with or without a sign, however it is written. -/
def IsNumeric (wording : Wording) : Prop :=
  ∀ way ∈ wording.ways, way.getLast? = wording.usual.getLast? ∧
    ∀ chunk, Written way chunk → ∃ value, Numeric value chunk

theorem isNumeric_number (numeral : Numeral) : IsNumeric (.number numeral) := by
  intro way hway
  rw [List.mem_singleton.mp hway]
  exact ⟨rfl, fun chunk h ↦ (Digital.of_written h).imp fun _ ↦ .unsigned⟩

theorem isNumeric_argument (numeral : Numeral) : IsNumeric (.argument numeral) :=
  fun _ hway ↦ ⟨getLast_of_argument hway, fun _ ↦ Numeric.of_written hway⟩

theorem isNumeric_lexeme {kind : Kind} (text : String) (h : digitKinds.contains kind = true) :
    IsNumeric (.lexeme kind text) := by
  intro way hway
  rw [List.mem_singleton.mp hway]
  refine ⟨rfl, fun chunk hchunk ↦ ?_⟩
  obtain ⟨token, rfl, htoken⟩ := hchunk.singleton
  have hkind : token.kind = kind := congrArg Lexeme.kind htoken
  exact ⟨_, .unsigned (.integer (hkind ▸ h))⟩

theorem contains_digitKinds {kind : Kind} :
    digitKinds.contains kind = true ↔ kind = .pureDigits ∨ kind = .digits := by
  rw [digitKinds, KindSet.contains_ofList]
  simp

/-- The first token of a number with or without a sign. -/
theorem Numeric.first {value : Numeral} {chunk : List Token} (h : Numeric value chunk) :
    ∃ first others, chunk = first :: others ∧
      (digitKinds.contains first.kind = true ∨
        ∃ next rest, others = next :: rest ∧ digitKinds.contains next.kind = true ∧
          first.Touches next ∧ (first.kind = .symbol .plus ∨ first.kind = .symbol .minus)) := by
  cases h with
  | unsigned h =>
    obtain ⟨first, others, rfl, hfirst⟩ := h.first
    exact ⟨first, others, rfl, .inl hfirst⟩
  | signed hsign h htouch =>
    obtain ⟨first, others, rfl, hfirst⟩ := h.first
    refine ⟨_, _, rfl, .inr ⟨first, others, rfl, hfirst, htouch first rfl, ?_⟩⟩
    exact (lookup_signs hsign).imp And.left And.left

/-- A copy reads a number with or without a sign only where the wording is one. -/
theorem isNumeric_of_copy {copy last : Session} {value : Numeral} {wording : Wording}
    {later : List Wording} (hclosing : Closing copy.rest)
    (hprinted : Printed (wording :: later) copy.rest)
    (hrun : signedNumeral copy = .ok value last) : IsNumeric wording := by
  obtain ⟨chunk, rest, hrest, hchunk, hgap, -⟩ := hprinted.uncons
  obtain ⟨_, chunk', hnumeric, hpasses⟩ := numeric_of_signedNumeral hclosing hrun
  rw [hpasses.rest] at hrest
  obtain ⟨first, others, rfl, hfirst⟩ := hnumeric.first
  cases wording with
  | number numeral => exact isNumeric_number numeral
  | argument numeral => exact isNumeric_argument numeral
  | lexeme kind text =>
    obtain ⟨token, rfl, htoken⟩ := hchunk.singleton
    obtain ⟨rfl, rfl⟩ := List.cons.inj hrest
    have hkind : first.kind = kind := congrArg Lexeme.kind htoken
    rcases hfirst with hdigits | ⟨next, others, rfl, hdigits, htouch, -⟩
    · exact isNumeric_lexeme text (hkind ▸ hdigits)
    · exact absurd htouch (hgap first rfl next rfl (ne_endOfInput_of_digits hdigits))
  | choice synonym =>
    obtain ⟨token, rfl, htoken⟩ := hchunk.singleton
    obtain ⟨rfl, rfl⟩ := List.cons.inj hrest
    have hkind : first.kind = synonym.usual := congrArg Lexeme.kind htoken
    rw [contains_digitKinds, hkind] at hfirst
    rcases hfirst with (heq | heq) | ⟨-, -, -, -, -, heq | heq⟩
    all_goals cases synonym <;> cases heq
  | pair head tail =>
    obtain ⟨token, tokens, rfl, htoken, htokens⟩ := hchunk.first
    obtain ⟨token', rfl, htoken'⟩ := htokens.singleton
    obtain ⟨rfl, hothers⟩ := List.cons.inj hrest
    have hkind : first.kind = .symbol head := congrArg Lexeme.kind htoken
    have hkind' : token'.kind = .symbol tail := congrArg Lexeme.kind htoken'
    rw [contains_digitKinds, hkind] at hfirst
    rcases hfirst with (heq | heq) | ⟨next, rest, rfl, hdigits, -⟩
    · cases heq
    · cases heq
    · obtain ⟨rfl, -⟩ := List.cons.inj hothers
      rw [contains_digitKinds, hkind'] at hdigits
      rcases hdigits with heq | heq <;> cases heq

theorem shadows_signedNumeral :
    Shadows Anywhere Anywhere (fun _ ↦ ()) signedNumeral signedNumeral := by
  have hoverflow := Alike.overflow_eq alike_signedNumeral
  refine ⟨fun session failure h ↦ (hoverflow session).trans h, fun session copy hlink _ ↦
    ⟨(hoverflow copy).trans ((Abreast.tied _).overflow hlink), fun value' last' hrun' ↦ ?_⟩⟩
  obtain ⟨hclosing, ahead, horderly, hspells, hready⟩ := hlink
  cases ahead with
  | nil =>
    rw [Session.rest] at hspells
    cases hspells
  | cons wording later =>
    have hnumeric := isNumeric_of_copy hready.closing hready.printed hrun'
    obtain ⟨way, hway, chunk, rest, hrest, hchunk, hlater⟩ := hspells.uncons
    obtain ⟨chunk', rest', hrest', hchunk', hgap, hprinted⟩ := hready.printed.uncons
    obtain ⟨hgetLast, hread⟩ := hnumeric way hway
    obtain ⟨-, hread'⟩ := hnumeric _ wording.usual_mem_ways
    obtain ⟨value, hvalue⟩ := hread chunk hchunk
    obtain ⟨value'', hvalue'⟩ := hread' chunk' hchunk'
    obtain ⟨last, hrun, hpasses⟩ := signedNumeral_of_numeric hvalue hclosing hrest
      (complete_of_orderly horderly.tail hlater)
    obtain ⟨last'', hrun'', hpasses'⟩ := signedNumeral_of_numeric hvalue' hready.closing hrest'
      (complete_of_apart hgap)
    obtain ⟨-, rfl⟩ : value' = value'' ∧ last' = last'' := by
      rw [hrun'', EStateM.Result.ok.injEq] at hrun'
      exact ⟨hrun'.1.symm, hrun'.2.symm⟩
    have hne : way ≠ [] := by
      rintro rfl
      exact wording.usual_ne_nil (List.getLast?_eq_none_iff.mp hgetLast.symm)
    rw [hpasses.rest, List.append_cancel_left_eq] at hrest
    rw [hpasses'.rest, List.append_cancel_left_eq] at hrest'
    refine ⟨value, last, hrun, rfl, hpasses.closing hclosing, later, horderly.tail,
      hrest.symm ▸ hlater, hpasses'.overflow.trans hready.overflow, ?_,
      hpasses'.closing hready.closing, hrest'.symm ▸ hprinted⟩
    rw [hpasses'.previous_eq hchunk' wording.usual_ne_nil, hpasses.previous_eq hchunk hne, hgetLast]

/-! ### Markers -/

section Marker

variable (hscope : scope.Progressive) (hnested : ∀ rule, Sticky (scope.nested rule))
  (hmarker : ∀ least, Shadows Anywhere Anywhere (fun _ ↦ ()) (scope.marker least)
    (scope.marker least))

theorem pure_anywhere {δ : Type} {view : α → δ} {value value' : α}
    (hview : view value = view value') :
    Shadows Anywhere Anywhere view (pure value) (pure value') :=
  .pure hview fun _ _ hlink ↦ ⟨(Abreast.tied _).overflow hlink, hlink⟩

theorem expect_anywhere {kind : Kind} (hkind : kind.isDivider = true) :
    Shadows Anywhere Anywhere (fun _ ↦ ()) (expect kind) (expect kind) :=
  .expect (Abreast.tied _) fun _ _ hlink heq ↦
    ⟨(hlink.kind_iff hkind).mpr heq, hlink.pass_kind hkind heq⟩

theorem consume_anywhere_then {δ : Type} {view : α → δ} {kind : Kind} {next next' : Bool → Parser α}
    (hkind : kind.isDivider = true)
    (hyes : Shadows Anywhere Anywhere view (next true) (next' true))
    (hno : Shadows Anywhere Anywhere view (next false) (next' false)) :
    Shadows Anywhere Anywhere view (consume kind >>= next) (consume kind >>= next') :=
  .consume_then (Abreast.tied _) (fun _ _ hlink ↦ hlink.kind_iff hkind)
    (fun _ _ hlink heq ↦ hlink.pass_kind hkind heq) hyes hno

include hscope hnested

theorem shadows_markerArguments :
    Shadows Anywhere Anywhere (fun _ ↦ ()) markerArguments markerArguments := by
  refine consume_anywhere_then rfl ?_ (pure_anywhere rfl)
  refine (Shadows.separatedBy (Abreast.tied _) hscope hnested .argument alike_signedNumeral
    shadows_signedNumeral ?_).bind fun _ _ _ ↦ ?_
  · exact .behind (Abreast.tied _) (fun _ _ hlink ↦ hlink.kind_iff rfl)
      (fun _ _ hlink heq ↦ hlink.pass_kind rfl heq) shadows_signedNumeral
  · exact (expect_anywhere rfl).bind fun _ _ _ ↦ pure_anywhere rfl

include hmarker

theorem shadows_markerOperand :
    Shadows Anywhere Anywhere (fun _ ↦ ()) (markerOperand scope) (markerOperand scope) := by
  refine .phrase (fun _ ↦ ()) (Abreast.tied _) (Abreast.tied _) (fun _ _ _ _ _ ↦ rfl) ?_
  refine consume_anywhere_then rfl ?_ ?_
  · refine (hmarker 0).bind fun _ _ _ ↦ ?_
    exact (expect_anywhere rfl).bind fun _ _ _ ↦ pure_anywhere rfl
  · refine .check (Abreast.tied _) (fun _ _ hlink ↦ hlink.kind_iff rfl) ?_ ?_
    · have hadvance : Shadows (fun session copy ↦ Anywhere session copy ∧
          copy.cursor.kind = .identifier) Anywhere (fun _ ↦ ()) advance advance :=
        .advance fun _ _ hlink ↦
          ⟨(Abreast.tied _).overflow hlink.1, rfl, hlink.1.pass_kind rfl hlink.2⟩
      exact hadvance.bind fun _ _ _ ↦
        (shadows_markerArguments hscope hnested).bind fun _ _ _ ↦ pure_anywhere rfl
    · refine .of_error (.of_elementary (.failMissing _ _)) fun session copy hlink ↦ ?_
      have hoverflow : copy.overflow = none := (Abreast.tied _).overflow hlink
      exact ⟨_, _, rfl, hoverflow⟩

omit hscope hnested hmarker in
theorem of_ofKind? {kind : Kind} {connective : Connective}
    (h : Connective.ofKind? kind = some connective) :
    kind ≠ .endOfInput ∧ kind.beginsSeveral = false := by
  unfold Connective.ofKind? at h
  split at h
  iterate 4 exact ⟨nofun, rfl⟩
  cases h

omit hscope hnested in
theorem shadows_markerContinuation (least : Nat) (left left' : Phrase .marker) :
    Shadows Anywhere Anywhere (Option.map fun _ ↦ ()) (markerContinuation scope least left)
      (markerContinuation scope least left') := by
  refine .look (Abreast.tied _)
    (fun kind kind' ↦ Connective.ofKind? kind = Connective.ofKind? kind') (fun _ ↦ rfl)
    (fun session copy hlink ↦ hlink.view_eq Connective.ofKind? ?_ ?_) fun kind kind' hkind ↦ ?_
  · rintro (_ | _ | _ | _) <;> rfl
  · have hnone {kind : Kind} (h : kind.beginsArgument = true) : Connective.ofKind? kind = none := by
      unfold Kind.beginsArgument at h
      split at h
      iterate 4 rfl
      cases h
    exact fun _ _ h h' ↦ (hnone h).trans (hnone h').symm
  · have hpure {value value' : Option (Phrase .marker)}
        (hview : value.map (fun _ ↦ ()) = value'.map fun _ ↦ ()) :
        Shadows (fun session copy ↦ Anywhere session copy ∧ session.cursor.kind = kind ∧
          copy.cursor.kind = kind') Anywhere (Option.map fun _ ↦ ()) (pure value) (pure value') :=
      (pure_anywhere hview).weaken (fun _ _ hlink ↦ hlink.1) fun _ _ ↦ id
    rw [hkind]
    cases hconnective : Connective.ofKind? kind' with
    | none => exact hpure rfl
    | some connective =>
      by_cases hlevel : connective.level < least
      · simp only [if_pos hlevel]
        exact hpure rfl
      · simp only [if_neg hlevel]
        have hadvance : Shadows (fun session copy ↦ Anywhere session copy ∧
            session.cursor.kind = kind ∧ copy.cursor.kind = kind') Anywhere (fun _ ↦ ()) advance
            advance := by
          refine .advance fun session copy ⟨hlink, _, hcopy⟩ ↦ ?_
          obtain ⟨hend, hseveral⟩ := of_ofKind? (hcopy ▸ hconnective)
          exact ⟨(Abreast.tied _).overflow hlink, rfl, hlink.pass hend hseveral⟩
        refine .map (fun _ ↦ ())
          (.phraseFrom (fun _ ↦ ()) (Abreast.tied _) (fun _ _ _ _ _ ↦ rfl) ?_)
          (fun _ _ ↦ (Abreast.tied _).overflow) fun _ _ _ ↦ rfl
        exact hadvance.bind fun _ _ _ ↦ (hmarker _).bind fun _ _ _ ↦ pure_anywhere rfl

theorem shadows_marker (least : Nat) :
    Shadows Anywhere Anywhere (fun _ ↦ ()) (marker scope least) (marker scope least) := by
  refine (shadows_markerOperand hscope hnested hmarker).bind fun first first' _ ↦ ?_
  refine .iterate (fun _ ↦ ()) (Abreast.tied _) (hscope.loops (.marker least)) (fun value ↦ ?_)
    (fun value value' _ ↦ shadows_markerContinuation hmarker least value value') rfl
  have halike : Alike scope scope (iterate (markerContinuation scope least) value)
      (iterate (markerContinuation scope least) value) :=
    .iterate (.marker least) (alike_markerContinuation least) value
  exact halike.sticky hnested

omit hscope hnested in
theorem shadows_leadingMarker :
    Shadows Anywhere Anywhere (fun _ ↦ ()) (leadingMarker scope) (leadingMarker scope) := by
  refine (hmarker 0).bind fun _ _ _ ↦ ?_
  exact (expect_anywhere rfl).bind fun _ _ _ ↦ pure_anywhere rfl

end Marker

end Grammar

end CorpusQuery
