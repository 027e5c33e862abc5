import CorpusQuery.Proofs.Acceptance.Fork

/-!
Honest parsers. As long as two parses over lists that part at an index have not passed it, they go
the same way, and the first parse notes nothing as expected that the second list has there
(`Parser.Honest`). A test can break this, since it notes a kind that the second parse may find; it
is made good if whatever follows then crosses, and so is a look that reaches the fork. The
operations that pass a token if it is there cross by themselves.
-/

set_option autoImplicit false
set_option relaxedAutoImplicit false

namespace CorpusQuery

open CorpusQuery.Parser CorpusQuery.Grammar

namespace Parser

open CorpusQuery.Fork

variable {fork : Fork} {α β γ δ ε ζ : Type} {stray stray' : Stray} {given : Place → Prop}
  {view : α → δ} {view' : β → ε}

/-- A view that tells no values apart. -/
abbrev unseen (_ : α) : Unit := ()

/-- From two sessions that have gone the same way, of which the first one stands at a place as
given, the parsers end the same way, unless one of them passes the fork or they stray. -/
structure Honest (fork : Fork) (stray : Stray) (given : Place → Prop) (view : α → δ)
    (parser parser' : Parser α) : Prop where
  left : Aloof fork.left.coupling parser
  right : Aloof fork.right.coupling parser'
  ends : ∀ session copy, fork.Sessions session copy → given session.cursor.toPlace →
    fork.Ends stray view (parser session) (parser' copy)

namespace Honest

variable {parser parser' : Parser α} {next next' : α → Parser β}

theorem when {given' : Place → Prop} (h : Honest fork stray given view parser parser')
    (hgiven : ∀ place, given' place → given place) :
    Honest fork stray given' view parser parser' :=
  ⟨h.left, h.right, fun session copy hsessions hplace ↦
    h.ends session copy hsessions (hgiven _ hplace)⟩

theorem weaken {view' : α → ε} (h : Honest fork stray given view parser parser')
    (hview : ∀ value value', view value = view value' → view' value = view' value') :
    Honest fork stray given view' parser parser' := by
  refine ⟨h.left, h.right, fun session copy hsessions hplace ↦ ?_⟩
  have hends := h.ends session copy hsessions hplace
  generalize parser session = result, parser' copy = result' at hends
  cases hends with
  | left h => exact .left h
  | right h => exact .right h
  | ok hvalue hafter => exact .ok (hview _ _ hvalue) hafter
  | error hfailure hafter => exact .error hfailure hafter
  | stray h => exact .stray h

theorem blind (h : Honest fork stray given view parser parser') :
    Honest fork stray given unseen parser parser' := h.weaken fun _ _ _ ↦ rfl

/-- A parser that never strays will do where one may. -/
theorem astray (h : Honest fork stray given view parser parser')
    (hstray : ∀ end₁ end₂, stray end₁ end₂ → stray' end₁ end₂) :
    Honest fork stray' given view parser parser' := by
  refine ⟨h.left, h.right, fun session copy hsessions hplace ↦ ?_⟩
  have hends := h.ends session copy hsessions hplace
  generalize parser session = result, parser' copy = result' at hends
  cases hends with
  | left h => exact .left h
  | right h => exact .right h
  | ok hvalue hafter => exact .ok hvalue hafter
  | error hfailure hafter => exact .error hfailure hafter
  | stray h => exact .stray (hstray _ _ h)

theorem steady (h : Honest fork Never given view parser parser') :
    Honest fork stray given view parser parser' := h.astray fun _ _ ↦ False.elim

theorem anywhere (h : Honest fork stray Anywhere view parser parser') :
    Honest fork stray given view parser parser' :=
  h.when fun _ _ ↦ trivial

/-! ### Sequence -/

theorem pure {value value' : α} (hview : view value = view value') :
    Honest fork stray given view (pure value) (pure value') :=
  ⟨.pure _, .pure _, fun _ _ hsessions _ ↦ .ok hview hsessions⟩

/-- A parser that may stray and what follows it, where something is known of the place between
them. -/
theorem bind_stray (h : Honest fork stray given view parser parser') (given' : α → Place → Prop)
    (hgiven : ∀ session copy value after, fork.Sessions session copy →
      given session.cursor.toPlace → parser session = .ok value after →
        fork.Ample 0 after.cursor.toPlace → given' value after.cursor.toPlace)
    (hnext : ∀ value value', view value = view value' →
      Honest fork stray' (given' value) view' (next value) (next' value'))
    (hstray : ∀ session copy, fork.Sessions session copy → given session.cursor.toPlace →
      stray (ending (parser session)) (ending (parser' copy)) →
        fork.Ends stray' view' ((parser >>= next) session) ((parser' >>= next') copy)) :
    Honest fork stray' given view' (parser >>= next) (parser' >>= next') :=
  have hleft (value : α) := (hnext value value rfl).left
  have hright (value : α) := (hnext value value rfl).right
  ⟨h.left.bind hleft, h.right.bind hright, fun session copy hsessions hplace ↦
    (h.ends session copy hsessions hplace).bind hleft hright
      (fun value value' after after' hrun _ hvalue hafter ↦
        (hnext value value' hvalue).ends after after' hafter
          (hgiven session copy value after hsessions hplace hrun hafter.position_le))
      (hstray session copy hsessions hplace)⟩

theorem bind_given (h : Honest fork Never given view parser parser') (given' : α → Place → Prop)
    (hgiven : ∀ session copy value after, fork.Sessions session copy →
      given session.cursor.toPlace → parser session = .ok value after →
        fork.Ample 0 after.cursor.toPlace → given' value after.cursor.toPlace)
    (hnext : ∀ value value', view value = view value' →
      Honest fork stray (given' value) view' (next value) (next' value')) :
    Honest fork stray given view' (parser >>= next) (parser' >>= next') :=
  h.bind_stray given' hgiven hnext fun _ _ _ _ ↦ False.elim

theorem bind (h : Honest fork Never given view parser parser')
    (hnext : ∀ value value', view value = view value' →
      Honest fork stray Anywhere view' (next value) (next' value')) :
    Honest fork stray given view' (parser >>= next) (parser' >>= next') :=
  h.bind_given (fun _ ↦ Anywhere) (fun _ _ _ _ _ _ _ _ ↦ trivial) hnext

/-- What strays strays on if what follows only makes a value of it. -/
theorem finish_of {f f' : α → Session → β} (h : Honest fork stray given view parser parser')
    (hf : ∀ value session, next value session = .ok (f value session) session)
    (hf' : ∀ value session, next' value session = .ok (f' value session) session)
    (hview : ∀ value value' session session', view value = view value' →
      view' (f value session) = view' (f' value' session')) :
    Honest fork stray given view' (parser >>= next) (parser' >>= next') := by
  have hnext (value value' : α) (hvalue : view value = view value') :
      Honest fork stray Anywhere view' (next value) (next' value') := by
    refine ⟨⟨fun session h ↦ ?_, fun session h ↦ ?_⟩, ⟨fun session h ↦ ?_, fun session h ↦ ?_⟩,
      fun session copy hsessions _ ↦ ?_⟩
    · rwa [hf]
    · rwa [hf]
    · rwa [hf']
    · rwa [hf']
    · rw [hf, hf']
      exact .ok (hview _ _ _ _ hvalue) hsessions
  refine h.bind_stray (fun _ ↦ Anywhere) (fun _ _ _ _ _ _ _ _ ↦ trivial) hnext
    fun session copy _ _ hstray ↦ .stray ?_
  have hending {parser : Parser α} {next : α → Parser β} {f : α → Session → β} {session : Session}
      (hf : ∀ value session, next value session = .ok (f value session) session) :
      ending ((parser >>= next) session) = ending (parser session) := by
    cases hrun : parser session with
    | ok value after =>
      rw [bind_of_ok hrun, hf]
      rfl
    | error failure after =>
      rw [bind_of_error hrun]
      rfl
  rw [hending hf, hending hf']
  exact hstray

theorem finish {f f' : α → β} (h : Honest fork stray given view parser parser')
    (hview : ∀ value value', view value = view value' → view' (f value) = view' (f' value')) :
    Honest fork stray given view' (parser >>= fun value ↦ Pure.pure (f value))
      (parser' >>= fun value ↦ Pure.pure (f' value)) :=
  have hpure (f : α → β) (value : α) (session : Session) :
      (Pure.pure (f value) : Parser β) session =
        .ok ((fun value _ ↦ f value) value session) session :=
    rfl
  h.finish_of (hpure f) (hpure f') fun _ _ _ _ ↦ hview _ _

theorem map {f : α → β} (h : Honest fork stray given view parser parser')
    (hview : ∀ value value', view value = view value' → view' (f value) = view' (f value')) :
    Honest fork stray given view' (f <$> parser) (f <$> parser') := by
  rw [map_eq_pure_bind, map_eq_pure_bind]
  exact h.finish hview

theorem ite {condition : Prop} [Decidable condition] {yes yes' no no' : Parser α}
    (hyes : Honest fork stray given view yes yes') (hno : Honest fork stray given view no no') :
    Honest fork stray given view (if condition then yes else no)
      (if condition then yes' else no') := by
  split
  · exact hyes
  · exact hno

/-- The parsers may be told apart by whether they begin at the fork. -/
theorem of_cases (hat : Honest fork stray
      (fun place ↦ given place ∧ place.position = fork.left.index) view parser parser')
    (hbefore :
      Honest fork stray (fun place ↦ given place ∧ fork.Ample 1 place) view parser parser') :
    Honest fork stray given view parser parser' :=
  ⟨hat.left, hat.right, fun session copy hsessions hplace ↦
    hsessions.eq_or_ample.elim (fun heq ↦ hat.ends session copy hsessions ⟨hplace, heq⟩)
      fun hample ↦ hbefore.ends session copy hsessions ⟨hplace, hample⟩⟩

theorem of_either (also : Place → Prop)
    (hyes : Honest fork stray (fun place ↦ given place ∧ also place) view parser parser')
    (hno : Honest fork stray (fun place ↦ given place ∧ ¬ also place) view parser parser') :
    Honest fork stray given view parser parser' :=
  ⟨hyes.left, hyes.right, fun session copy hsessions hplace ↦
    (Classical.em (also session.cursor.toPlace)).elim
      (fun halso ↦ hyes.ends session copy hsessions ⟨hplace, halso⟩)
      fun halso ↦ hno.ends session copy hsessions ⟨hplace, halso⟩⟩

/-- The place where the parsers are run is one of the list. -/
theorem begun (h : Honest fork stray (fun place ↦ given place ∧ fork.left.start.Begins place) view
    parser parser') : Honest fork stray given view parser parser' :=
  ⟨h.left, h.right, fun session copy hsessions hplace ↦
    h.ends session copy hsessions ⟨hplace, hsessions.begins⟩⟩

/-- Kinds with which either parser crosses are not at hand any more. -/
theorem gate {kinds : KindSet}
    (hleft : kinds.contains fork.left.kind = true → fork.left.Crosses parser)
    (hright : kinds.contains fork.right.kind = true → fork.right.Crosses parser')
    (h : Honest fork stray (fun place ↦ given place ∧ fork.Clear kinds place) view parser parser') :
    Honest fork stray given view parser parser' := by
  refine ⟨h.left, h.right, fun session copy hsessions hplace ↦ ?_⟩
  by_cases heq : session.cursor.position = fork.left.index
  · cases hkind : kinds.contains fork.left.kind with
    | true => exact .left (hleft hkind session (hsessions.at_left heq))
    | false =>
      cases hkind' : kinds.contains fork.right.kind with
      | true => exact .right (hright hkind' copy (hsessions.at_right heq))
      | false => exact h.ends session copy hsessions ⟨hplace, fun _ ↦ ⟨hkind, hkind'⟩⟩
  · exact h.ends session copy hsessions ⟨hplace, fun heq' ↦ absurd heq' heq⟩

/-! ### Tests -/

section Tests

variable {kind : Kind} {kinds : KindSet} {next next' : Bool → Parser β}

/-- A test for kinds that are not at hand at the fork. -/
theorem checkAny_then (hclear : ∀ place, given place → fork.Clear kinds place)
    (hyes : Honest fork stray (fun place ↦ given place ∧ fork.Ample 1 place ∧
      kinds.contains place.kind = true) view' (next true) (next' true))
    (hno : Honest fork stray given view' (next false) (next' false)) :
    Honest fork stray given view' (checkAny kinds >>= next) (checkAny kinds >>= next') := by
  refine ⟨?_, ?_, fun session copy hsessions hplace ↦ ?_⟩
  · exact (Aloof.of_elementary fork.left.lawful (.checkAny _)).bind fun found ↦ by
      cases found
      · exact hno.left
      · exact hyes.left
  · exact (Aloof.of_elementary fork.right.lawful (.checkAny _)).bind fun found ↦ by
      cases found
      · exact hno.right
      · exact hyes.right
  · have htested : fork.Sessions (session.tested kinds) (copy.tested kinds) :=
      hsessions.tested _ fun heq ↦ (hclear _ hplace heq).2
    change fork.Ends stray view' (next (kinds.contains session.cursor.kind) (session.tested kinds))
      (next' (kinds.contains copy.cursor.kind) (copy.tested kinds))
    rcases hsessions.eq_or_ample with heq | hample
    · rw [show session.cursor.kind = _ from (hsessions.at_left heq).kind_eq,
        show copy.cursor.kind = _ from (hsessions.at_right heq).kind_eq, (hclear _ hplace heq).1,
        (hclear _ hplace heq).2]
      exact hno.ends _ _ htested hplace
    · rw [hsessions.kind_eq hample]
      cases hkind : kinds.contains session.cursor.kind with
      | false => exact hno.ends _ _ htested hplace
      | true => exact hyes.ends _ _ htested ⟨hplace, hample, hkind⟩

/-- A test for kinds with which the rest crosses. -/
theorem checkAny_cross
    (hleft : kinds.contains fork.left.kind = true → fork.left.Crosses (next true))
    (hright : kinds.contains fork.right.kind = true → fork.right.Crosses (next' true))
    (hyes : Honest fork stray (fun place ↦ given place ∧ fork.Ample 1 place ∧
      kinds.contains place.kind = true) view' (next true) (next' true))
    (hno : Honest fork stray (fun place ↦ given place ∧ fork.Clear kinds place) view' (next false)
      (next' false)) :
    Honest fork stray given view' (checkAny kinds >>= next) (checkAny kinds >>= next') := by
  have hclear : Honest fork stray (fun place ↦ given place ∧ fork.Clear kinds place) view'
      (checkAny kinds >>= next) (checkAny kinds >>= next') :=
    checkAny_then (fun _ h ↦ h.2) (hyes.when fun _ h ↦ ⟨h.1.1, h.2⟩) hno
  refine gate (fun hkind ↦ .checkAny ?_) (fun hkind ↦ .checkAny ?_) hclear
  · rw [hkind]
    exact hleft hkind
  · rw [hkind]
    exact hright hkind

theorem check_eq_checkAny (kind : Kind) : check kind = checkAny (.single kind) := by
  funext session
  rw [check, checkAny, onCursor, onCursor, Cursor.check, Cursor.checkAny, KindSet.contains_single]
  rfl

theorem check_then (hclear : ∀ place, given place → fork.Clear (.single kind) place)
    (hyes : Honest fork stray (fun place ↦ given place ∧ fork.Ample 1 place ∧
      (KindSet.single kind).contains place.kind = true) view' (next true) (next' true))
    (hno : Honest fork stray given view' (next false) (next' false)) :
    Honest fork stray given view' (check kind >>= next) (check kind >>= next') := by
  rw [check_eq_checkAny]
  exact checkAny_then hclear hyes hno

theorem check_cross (hleft : fork.left.kind = kind → fork.left.Crosses (next true))
    (hright : fork.right.kind = kind → fork.right.Crosses (next' true))
    (hyes : Honest fork stray (fun place ↦ given place ∧ fork.Ample 1 place ∧
      (KindSet.single kind).contains place.kind = true) view' (next true) (next' true))
    (hno : Honest fork stray (fun place ↦ given place ∧ fork.Clear (.single kind) place) view'
      (next false) (next' false)) :
    Honest fork stray given view' (check kind >>= next) (check kind >>= next') := by
  rw [check_eq_checkAny]
  refine checkAny_cross (fun hkind ↦ hleft ?_) (fun hkind ↦ hright ?_) hyes hno
  all_goals rwa [KindSet.contains_single, decide_eq_true_eq] at hkind

end Tests

/-! ### Passing tokens -/

section Passing

variable {kind : Kind} {kinds : KindSet}

/-- What is known behind a token that was passed. -/
abbrev Behind (given : Place → Prop) (place : Place) : Prop :=
  ∃ earlier, given earlier ∧ place.previousKind? = some earlier.kind ∧
    place.position = earlier.position + 1

theorem advance_then {next next' : Token → Parser β}
    (hample : ∀ place, given place → fork.Ample 1 place)
    (hnext : ∀ token, Honest fork stray (Behind given) view' (next token) (next' token)) :
    Honest fork stray given view' (advance >>= next) (advance >>= next') := by
  refine ⟨(Aloof.of_elementary fork.left.lawful .advance).bind fun token ↦ (hnext token).left,
    (Aloof.of_elementary fork.right.lawful .advance).bind fun token ↦ (hnext token).right,
    fun session copy hsessions hplace ↦ ?_⟩
  have hhere := hsessions.here_eq (hample _ hplace)
  obtain ⟨token, rest, hahead⟩ :=
    List.exists_cons_of_ne_nil (Sessions.ahead_ne_nil hsessions.begins (hample _ hplace))
  change fork.Ends stray view' (next session.cursor.here session.passed)
    (next' copy.cursor.here copy.passed)
  rw [hhere]
  refine (hnext session.cursor.here).ends _ _ (hsessions.passed (hample _ hplace))
    ⟨session.cursor.toPlace, hplace, ?_, Cursor.position_advance_of_ne_nil (hahead ▸ nofun)⟩
  rw [Session.passed, Cursor.advance_of_cons hahead]
  rfl

/-- A token is passed of which it is known that it stands before the fork. -/
theorem pass {count : Nat} {next next' : Token → Parser β}
    (hample : ∀ place, given place → fork.Ample (count + 1) place)
    (hnext : ∀ token, Honest fork stray (fork.Ample count) view' (next token) (next' token)) :
    Honest fork stray given view' (advance >>= next) (advance >>= next') := by
  refine advance_then (fun place h ↦ (hample place h).mono (Nat.le_add_left _ _))
    fun token ↦ (hnext token).when ?_
  rintro place ⟨earlier, hearlier, -, hposition⟩
  have hle : earlier.position + (count + 1) ≤ fork.left.index := hample earlier hearlier
  change place.position + count ≤ fork.left.index
  omega

theorem pass_one {next next' : Token → Parser β}
    (hample : ∀ place, given place → fork.Ample 1 place)
    (hnext : ∀ token, Honest fork stray Anywhere view' (next token) (next' token)) :
    Honest fork stray given view' (advance >>= next) (advance >>= next') :=
  pass hample fun token ↦ (hnext token).anywhere

theorem fail {cause : Cause} : Honest fork stray given view (fail cause) (fail cause) :=
  ⟨⟨fun _ h ↦ h, fun session h ↦ fork.left.lawful.beyond_fail session cause h⟩,
    ⟨fun _ h ↦ h, fun session h ↦ fork.right.lawful.beyond_fail session cause h⟩,
    fun _ _ hsessions _ ↦ .error (hsessions.spares_failure cause) hsessions.spared⟩

theorem expecting_then {next next' : Unit → Parser β}
    (hclear : ∀ place, given place → fork.Clear kinds place)
    (hnext : Honest fork stray given view' (next ()) (next' ())) :
    Honest fork stray given view' (expecting kinds >>= next) (expecting kinds >>= next') :=
  ⟨(Aloof.of_elementary fork.left.lawful (.expecting _)).bind fun _ ↦ hnext.left,
    (Aloof.of_elementary fork.right.lawful (.expecting _)).bind fun _ ↦ hnext.right,
    fun _ _ hsessions hplace ↦ hnext.ends _ _
      (hsessions.tested _ fun heq ↦ (hclear _ hplace heq).2) hplace⟩

theorem failMissing_eq (what : String) (kinds : KindSet) :
    (failMissing what kinds : Parser α) = expecting kinds >>= fun _ ↦ Parser.fail (.missing what) :=
  rfl

theorem failMissing {what : String} (hclear : ∀ place, given place → fork.Clear kinds place) :
    Honest fork stray given view (failMissing what kinds) (failMissing what kinds) := by
  rw [failMissing_eq]
  exact .expecting_then hclear .fail

theorem consume_bind (kind : Kind) (next : Bool → Parser β) :
    consume kind >>= next = check kind >>= fun found ↦
      if found then advance >>= fun _ ↦ next true else next false := by
  funext session
  by_cases hkind : session.cursor.kind = kind
  · rw [bind_of_ok (consume_of_kind hkind), bind_check, if_pos (beq_iff_eq.mpr hkind)]
    rfl
  · rw [bind_of_ok (consume_of_ne hkind), bind_check, if_neg (by rwa [beq_iff_eq])]

theorem expect_bind (kind : Kind) (next : Token → Parser β) :
    expect kind >>= next = check kind >>= fun found ↦
      if found then advance >>= next else Parser.fail .unexpected := by
  funext session
  by_cases hkind : session.cursor.kind = kind
  · rw [bind_of_ok (expect_of_kind hkind), bind_check, if_pos (beq_iff_eq.mpr hkind)]
    rfl
  · rw [bind_of_error (expect_of_ne hkind), bind_check, if_neg (by rwa [beq_iff_eq])]
    rfl

theorem consumeAny_bind (kinds : KindSet) (next : Option Token → Parser β) :
    consumeAny kinds >>= next = checkAny kinds >>= fun found ↦
      if found then advance >>= fun token ↦ next (some token) else next none := by
  funext session
  cases hkind : kinds.contains session.cursor.kind with
  | true =>
    rw [bind_of_ok (consumeAny_of_contains hkind), bind_checkAny, if_pos hkind]
    rfl
  | false =>
    rw [bind_of_ok (consumeAny_of_not_contains hkind), bind_checkAny,
      if_neg (Bool.eq_false_iff.mp hkind)]

theorem consumeAny_then (hend : kinds.contains .endOfInput = false)
    {next next' : Option Token → Parser β}
    (hsome : ∀ token, Honest fork stray (Behind fun place ↦ kinds.contains place.kind = true) view'
      (next (some token)) (next' (some token)))
    (hnone : Honest fork stray (fun place ↦ given place ∧ fork.Clear kinds place) view' (next none)
      (next' none)) :
    Honest fork stray given view' (consumeAny kinds >>= next) (consumeAny kinds >>= next') := by
  rw [consumeAny_bind, consumeAny_bind]
  have hcross {verge : Verge} {next : Token → Parser β} (hkind : kinds.contains verge.kind = true)
      (h : ∀ token, Aloof verge.coupling (next token)) : verge.Crosses (advance >>= next) := by
    refine (Verge.Crosses.advance fun heq ↦ ?_).bind h
    rw [heq, hend] at hkind
    cases hkind
  refine checkAny_cross (fun hkind ↦ hcross hkind fun token ↦ (hsome token).left)
    (fun hkind ↦ hcross hkind fun token ↦ (hsome token).right)
    (advance_then (fun _ h ↦ h.2.1) fun token ↦ (hsome token).when ?_) hnone
  exact fun place ⟨earlier, hearlier, hplace⟩ ↦ ⟨earlier, hearlier.2.2, hplace⟩

/-- A token may be passed for which a table has an entry. -/
theorem oneOf_then {table : List (Kind × α)}
    (htable : (KindSet.ofKeys table).contains .endOfInput = false)
    {next next' : Option α → Parser β}
    (hsome : ∀ value, Honest fork stray (fun place ↦ 0 < place.position) view' (next (some value))
      (next' (some value)))
    (hnone : Honest fork stray (fun place ↦ (given place ∧ fork.Clear (.ofKeys table) place) ∧
      (KindSet.ofKeys table).contains place.kind = false) view' (next none) (next' none)) :
    Honest fork stray given view' (oneOf table >>= next) (oneOf table >>= next') := by
  have hleft (value? : Option α) : Aloof fork.left.coupling (next value?) := by
    cases value?
    · exact hnone.left
    · exact (hsome _).left
  have hright (value? : Option α) : Aloof fork.right.coupling (next' value?) := by
    cases value?
    · exact hnone.right
    · exact (hsome _).right
  have hnot {session : Session}
      (hclear : (KindSet.ofKeys table).contains session.cursor.kind = false) :
      table.lookup session.cursor.kind = none := by
    rwa [KindSet.contains_ofKeys, Option.isSome_eq_false_iff, Option.isNone_iff_eq_none] at hclear
  have haloof {c : Coupling} (hc : c.Lawful) : Aloof c (oneOf table) :=
    .bind (.of_elementary hc (.consumeAny _)) fun token? ↦ by cases token? <;> exact .pure _
  suffices h : Honest fork stray (fun place ↦ given place ∧ fork.Clear (.ofKeys table) place) view'
      (oneOf table >>= next) (oneOf table >>= next') from
    gate (fun hkind ↦ (Verge.Crosses.oneOf hkind htable).bind hleft)
      (fun hkind ↦ (Verge.Crosses.oneOf hkind htable).bind hright) h
  refine ⟨(haloof fork.left.lawful).bind hleft, (haloof fork.right.lawful).bind hright,
    fun session copy hsessions hplace ↦ ?_⟩
  have htested : fork.Sessions (session.tested (.ofKeys table)) (copy.tested (.ofKeys table)) :=
    hsessions.tested _ fun heq ↦ (hplace.2 heq).2
  rcases hsessions.eq_or_ample with heq | hample
  · have hkind : session.cursor.kind = fork.left.kind := (hsessions.at_left heq).kind_eq
    have hkind' : copy.cursor.kind = fork.right.kind := (hsessions.at_right heq).kind_eq
    rw [bind_of_ok (oneOf_of_lookup_none (hnot (hkind ▸ (hplace.2 heq).1))),
      bind_of_ok (oneOf_of_lookup_none (hnot (hkind' ▸ (hplace.2 heq).2)))]
    exact hnone.ends _ _ htested ⟨hplace, hkind ▸ (hplace.2 heq).1⟩
  · have hsame := hsessions.kind_eq hample
    cases hlookup : table.lookup session.cursor.kind with
    | none =>
      rw [bind_of_ok (oneOf_of_lookup_none hlookup),
        bind_of_ok (oneOf_of_lookup_none (hsame ▸ hlookup))]
      refine hnone.ends _ _ htested ⟨hplace, ?_⟩
      change (KindSet.ofKeys table).contains session.cursor.kind = false
      rw [KindSet.contains_ofKeys, hlookup]
      rfl
    | some value =>
      rw [bind_of_ok (oneOf_of_lookup hlookup), bind_of_ok (oneOf_of_lookup (hsame ▸ hlookup))]
      refine (hsome value).ends _ _ (htested.passed hample) ?_
      have hnil := Sessions.ahead_ne_nil hsessions.begins hample
      have hposition : (session.tested (.ofKeys table)).passed.cursor.position =
          session.cursor.position + 1 := Cursor.position_advance_of_ne_nil hnil
      omega

theorem consume_then (hend : kind ≠ .endOfInput) {next next' : Bool → Parser β}
    (hyes : Honest fork stray (fun place ↦ place.previousKind? = some kind) view' (next true)
      (next' true))
    (hno : Honest fork stray (fun place ↦ given place ∧ fork.Clear (.single kind) place) view'
      (next false) (next' false)) :
    Honest fork stray given view' (consume kind >>= next) (consume kind >>= next') := by
  rw [consume_bind, consume_bind]
  refine check_cross (fun hkind ↦ ?_) (fun hkind ↦ ?_)
    (advance_then (fun _ h ↦ h.2.1) fun _ ↦ hyes.when ?_) hno
  · exact (Verge.Crosses.advance (hkind ▸ hend)).bind fun _ ↦ hyes.left
  · exact (Verge.Crosses.advance (hkind ▸ hend)).bind fun _ ↦ hyes.right
  · rintro place ⟨earlier, hearlier, hplace, -⟩
    rw [hplace, show earlier.kind = kind by simpa using hearlier.2.2]

/-- A token of the kind is demanded. -/
theorem expect_then (hend : kind ≠ .endOfInput) {next next' : Token → Parser β}
    (hnext : ∀ token, Honest fork stray (fun place ↦ 0 < place.position) view' (next token)
      (next' token)) :
    Honest fork stray given view' (expect kind >>= next) (expect kind >>= next') := by
  rw [expect_bind, expect_bind]
  refine check_cross (fun hkind ↦ ?_) (fun hkind ↦ ?_)
    (advance_then (fun _ h ↦ h.2.1) fun token ↦ (hnext token).when ?_) .fail
  · exact (Verge.Crosses.advance (hkind ▸ hend)).bind fun token ↦ (hnext token).left
  · exact (Verge.Crosses.advance (hkind ▸ hend)).bind fun token ↦ (hnext token).right
  · rintro place ⟨earlier, -, -, hplace⟩
    omega

theorem expect (hend : kind ≠ .endOfInput) :
    Honest fork stray given id (expect kind) (expect kind) := by
  have h : Honest fork stray given id (Parser.expect kind >>= Pure.pure)
      (Parser.expect kind >>= Pure.pure) := expect_then hend fun _ ↦ .pure rfl
  rwa [bind_pure] at h

theorem consume (hend : kind ≠ .endOfInput) :
    Honest fork stray given id (consume kind) (consume kind) := by
  have h : Honest fork stray given id (Parser.consume kind >>= Pure.pure)
      (Parser.consume kind >>= Pure.pure) := consume_then hend (.pure rfl) (.pure rfl)
  rwa [bind_pure] at h

theorem oneOf {table : List (Kind × α)} {view : α → δ}
    (htable : (KindSet.ofKeys table).contains .endOfInput = false) :
    Honest fork stray given (Option.map view) (oneOf table) (oneOf table) := by
  have h : Honest fork stray given (Option.map view) (Parser.oneOf table >>= Pure.pure)
      (Parser.oneOf table >>= Pure.pure) := oneOf_then htable (fun _ ↦ .pure rfl) (.pure rfl)
  rwa [bind_pure] at h

end Passing

/-! ### Looking -/

/-- What is seen within the next tokens is the same before the fork. Near it, a parse that sees
something special escapes, and the others go on alike. -/
theorem look_then {see : Place → γ} {next next' : γ → Parser β} (count : Nat) (special : γ → Prop)
    (hsee : ∀ place other : Place, (∀ i < count, other.peek i = place.peek i) →
      see other = see place)
    (hleft : ∀ session copy, fork.Sessions session copy → given session.cursor.toPlace →
      fork.left.index < session.cursor.position + count → special (see session.cursor.toPlace) →
        fork.left.coupling.Escapes (next (see session.cursor.toPlace) session))
    (hright : ∀ session copy, fork.Sessions session copy → given session.cursor.toPlace →
      fork.right.index < copy.cursor.position + count → special (see copy.cursor.toPlace) →
        fork.right.coupling.Escapes (next' (see copy.cursor.toPlace) copy))
    (hfar : ∀ value, Honest fork stray (fun place ↦ given place ∧ fork.Ample count place ∧
      see place = value) view' (next value) (next' value))
    (hnear : ∀ value value', ¬ special value → ¬ special value' →
      Honest fork stray given view' (next value) (next' value')) :
    Honest fork stray given view' (look see >>= next) (look see >>= next') := by
  refine ⟨(Aloof.of_elementary fork.left.lawful (.look _)).bind fun value ↦ (hfar value).left,
    (Aloof.of_elementary fork.right.lawful (.look _)).bind fun value ↦ (hfar value).right,
    fun session copy hsessions hplace ↦ ?_⟩
  rw [bind_look, bind_look]
  by_cases hample : fork.Ample count session.cursor.toPlace
  · rw [hsee session.cursor.toPlace copy.cursor.toPlace fun i hi ↦
      hsessions.peek_eq (hample.mono hi)]
    exact (hfar _).ends _ _ hsessions ⟨hplace, hample, rfl⟩
  · have hlt : fork.left.index < session.cursor.position + count := Nat.lt_of_not_le hample
    by_cases hspecial : special (see session.cursor.toPlace)
    · exact .left (hleft session copy hsessions hplace hlt hspecial)
    · by_cases hspecial' : special (see copy.cursor.toPlace)
      · refine .right (hright session copy hsessions hplace ?_ hspecial')
        rw [fork.index_eq, hsessions.position_eq]
        exact hlt
      · exact (hnear _ _ hspecial hspecial').ends _ _ hsessions hplace

/-- What is seen is the same. -/
theorem look_equal {see : Place → γ} {next next' : γ → Parser β}
    (hsee : ∀ session copy, fork.Sessions session copy → given session.cursor.toPlace →
      see copy.cursor.toPlace = see session.cursor.toPlace)
    (hnext : ∀ value, Honest fork stray (fun place ↦ given place ∧ see place = value) view'
      (next value) (next' value)) :
    Honest fork stray given view' (look see >>= next) (look see >>= next') := by
  refine ⟨(Aloof.of_elementary fork.left.lawful (.look _)).bind fun value ↦ (hnext value).left,
    (Aloof.of_elementary fork.right.lawful (.look _)).bind fun value ↦ (hnext value).right,
    fun session copy hsessions hplace ↦ ?_⟩
  rw [bind_look, bind_look, hsee session copy hsessions hplace]
  exact (hnext _).ends _ _ hsessions ⟨hplace, rfl⟩

/-- What is seen is the same if the fork is that far. -/
theorem look_same {see : Place → γ} {next next' : γ → Parser β} (count : Nat)
    (hsee : ∀ place other : Place, (∀ i < count, other.peek i = place.peek i) →
      see other = see place)
    (hample : ∀ place, given place → fork.Ample count place)
    (hnext : ∀ value, Honest fork stray (fun place ↦ given place ∧ see place = value) view'
      (next value) (next' value)) :
    Honest fork stray given view' (look see >>= next) (look see >>= next') :=
  .look_equal (fun session copy hsessions hplace ↦
    hsee session.cursor.toPlace copy.cursor.toPlace fun _ hi ↦
      hsessions.peek_eq ((hample _ hplace).mono hi)) hnext

/-- What is seen does not matter. -/
theorem look_any {see : Place → γ} {next next' : γ → Parser β}
    (hnext : ∀ value value', Honest fork stray given view' (next value) (next' value')) :
    Honest fork stray given view' (look see >>= next) (look see >>= next') :=
  ⟨(Aloof.of_elementary fork.left.lawful (.look _)).bind fun value ↦ (hnext value value).left,
    (Aloof.of_elementary fork.right.lawful (.look _)).bind fun value ↦ (hnext value value).right,
    fun session copy hsessions hplace ↦ (hnext (see session.cursor.toPlace)
      (see copy.cursor.toPlace)).ends session copy hsessions hplace⟩

/-! ### Phrases -/

section Phrases

variable {category : Category} {body body' : Parser (Draft category)} {view : Draft category → δ}
  {view' : Phrase category → ε}

theorem phraseFrom {start start' : Nat} (h : Honest fork stray given view body body')
    (hview : ∀ draft draft' : Draft category, view draft = view draft' → ∀ span span',
      view' (.phrase draft.form span draft.parts) =
        view' (.phrase draft'.form span' draft'.parts)) :
    Honest fork stray given view' (phraseFrom start body) (phraseFrom start' body') :=
  h.finish_of (fun _ _ ↦ rfl) (fun _ _ ↦ rfl) fun _ _ _ _ hdraft ↦ hview _ _ hdraft _ _

theorem phrase (h : Honest fork stray given view body body')
    (hview : ∀ draft draft' : Draft category, view draft = view draft' → ∀ span span',
      view' (.phrase draft.form span draft.parts) =
        view' (.phrase draft'.form span' draft'.parts)) :
    Honest fork stray given view' (phrase body) (phrase body') :=
  look_any fun _ _ ↦ h.phraseFrom hview

theorem phraseFrom_blind {start start' : Nat} (h : Honest fork stray given unseen body body') :
    Honest fork stray given unseen (Parser.phraseFrom start body)
      (Parser.phraseFrom start' body') :=
  h.phraseFrom fun _ _ _ _ _ ↦ rfl

theorem phrase_blind (h : Honest fork stray given unseen body body') :
    Honest fork stray given unseen (Parser.phrase body) (Parser.phrase body') :=
  look_any fun _ _ ↦ h.phraseFrom_blind

end Phrases

theorem behind {kind : Kind} (hend : kind ≠ .endOfInput)
    (h : Honest fork Never (fun place ↦ place.previousKind? = some kind) view parser parser') :
    Honest fork stray given (Option.map view) (behind kind parser) (behind kind parser') :=
  have hbody : Honest fork stray (fun place ↦ place.previousKind? = some kind) (Option.map view)
      (some <$> parser) (some <$> parser') := by
    refine .steady (h.map fun _ _ hvalue ↦ ?_)
    exact congrArg some hvalue
  .consume_then hend hbody (.pure rfl)

/-! ### Repetition -/

section Repetition

variable {step step' : α → Parser (Option α)} {item item' : Parser (Option α)}

/-- A loop goes on alike as long as its rounds do. -/
theorem iterate_stray
    (hstep : ∀ value value', view value = view value' →
      Honest fork stray Anywhere (Option.map view) (step value) (step' value'))
    (hstray : ∀ value value' session copy, view value = view value' →
      fork.Sessions session copy →
      stray (ending (step value session)) (ending (step' value' copy)) →
        fork.Ends stray' view (iterate step value session) (iterate step' value' copy))
    {value value' : α} (hvalue : view value = view value') :
    Honest fork stray' given view (iterate step value) (iterate step' value') := by
  have hleft := Aloof.iterate fun value ↦ (hstep value value rfl).left
  have hright := Aloof.iterate fun value ↦ (hstep value value rfl).right
  refine ⟨hleft value, hright value', fun session copy hsessions hplace ↦ ?_⟩
  clear hplace
  induction value, session using iterate_induction step generalizing value' copy with
  | h value session ih =>
  have hround := (hstep value value' hvalue).ends session copy hsessions trivial
  have hstrayed := hstray value value' session copy hvalue hsessions
  generalize hrun : step value session = result, hrun' : step' value' copy = result'
    at hround hstrayed
  cases hround with
  | left h => exact .left (.iterate (hrun ▸ h) fun value ↦ (hstep value value rfl).left)
  | right h => exact .right (.iterate (hrun' ▸ h) fun value ↦ (hstep value value rfl).right)
  | stray h => exact hstrayed h
  | error hfailure hafter =>
    rw [iterate_of_error hrun, iterate_of_error hrun']
    exact .error hfailure hafter
  | @ok next? next?' after after' hnext hafter =>
    cases next? with
    | none =>
      obtain rfl : next?' = none := Option.map_eq_none_iff.mp hnext.symm
      rw [iterate_of_none hrun, iterate_of_none hrun']
      exact .ok hvalue hafter
    | some next =>
      obtain ⟨next', rfl, hview⟩ := Option.map_eq_some_iff.mp hnext.symm
      by_cases hcloser : after.remaining < session.remaining
      · rw [iterate_of_closer hrun hcloser,
          iterate_of_closer hrun' ((hsessions.remaining_lt_iff hafter).mp hcloser)]
        exact ih next after hrun hcloser hview.symm after' hafter
      · rw [iterate_of_not_closer hrun hcloser,
          iterate_of_not_closer hrun' fun h ↦ hcloser ((hsessions.remaining_lt_iff hafter).mpr h)]
        exact .ok hview.symm hafter

theorem iterate
    (hstep : ∀ value value', view value = view value' →
      Honest fork Never Anywhere (Option.map view) (step value) (step' value'))
    {value value' : α} (hvalue : view value = view value') :
    Honest fork stray given view (iterate step value) (iterate step' value') :=
  iterate_stray hstep (fun _ _ _ _ _ _ ↦ False.elim) hvalue

theorem many (h : Honest fork Never Anywhere (Option.map view) item item') :
    Honest fork stray given (List.map view) (many item) (many item') := by
  have hstep (values values' : List α) (hvalues : values.map view = values'.map view) :
      Honest fork Never Anywhere (Option.map (List.map view))
        (do return (← item).map (· :: values)) (do return (← item').map (· :: values')) := by
    refine h.finish fun value? value?' hvalue ↦ ?_
    cases value? <;> cases value?' <;> simp_all
  refine (iterate hstep rfl).finish fun values values' hvalues ↦ ?_
  rw [List.map_reverse, List.map_reverse, hvalues]

theorem separatedBy {separator : Kind} (hend : separator ≠ .endOfInput)
    (hfirst : Honest fork Never given view parser parser')
    (h : Honest fork Never (fun place ↦ place.previousKind? = some separator) view parser parser') :
    Honest fork stray given (List.map view) (separatedBy separator parser)
      (separatedBy separator parser') :=
  hfirst.bind fun first first' hfirst ↦ (many (h.behind hend)).finish fun others others' hothers ↦
    by rw [List.map_cons, List.map_cons, hfirst, hothers]

end Repetition

/-! ### Choice -/

theorem attempt {title : String} {depth : Nat} (h : Honest fork Never given view parser parser') :
    Honest fork stray given view (attempt title depth parser) (attempt title depth parser') := by
  refine ⟨h.left.attempt, h.right.attempt, fun session copy hsessions hplace ↦ ?_⟩
  have hends := h.ends session copy hsessions hplace
  generalize hrun : parser session = result, hrun' : parser' copy = result' at hends
  cases hends with
  | left h => exact .left (.attempt (hrun ▸ h))
  | right h => exact .right (.attempt (hrun' ▸ h))
  | stray h => cases h
  | ok hvalue hafter =>
    rw [attempt_of_ok hrun, attempt_of_ok hrun']
    exact .ok hvalue hafter
  | error hfailure hafter =>
    rw [attempt_of_error hrun, attempt_of_error hrun']
    exact .error hfailure hafter.rewound

section Either

variable {title : String} {depth : Nat} {first : Parser α} {next : α → Parser γ}
  {second : Parser β} {rest : β → Parser γ} {view₁ : α → δ} {view₂ : β → ε} {view₃ : γ → ζ}

/-- A choice of which the first reading may stray. -/
theorem either_stray (hovertakes : Overtakes first second)
    (hfirst : Honest fork stray given view₁ first first)
    (hnext : ∀ value value', view₁ value = view₁ value' →
      Honest fork stray' Anywhere view₃ (next value) (next value'))
    (hsecond : Honest fork Never given view₂ second second)
    (hrest : ∀ value value', view₂ value = view₂ value' →
      Honest fork stray' Anywhere view₃ (rest value) (rest value'))
    (hstray : ∀ session copy, fork.Sessions session copy → given session.cursor.toPlace →
      stray (ending (first session)) (ending (first copy)) →
        fork.Ends stray' view₃ (either title depth first next second rest session)
          (either title depth first next second rest copy)) :
    Honest fork stray' given view₃ (either title depth first next second rest)
      (either title depth first next second rest) := by
  have hnextl (value : α) := (hnext value value rfl).left
  have hnextr (value : α) := (hnext value value rfl).right
  have hrestl (value : β) := (hrest value value rfl).left
  have hrestr (value : β) := (hrest value value rfl).right
  refine ⟨.either fork.left.lawful hfirst.left hnextl hsecond.left hrestl,
    .either fork.right.lawful hfirst.right hnextr hsecond.right hrestr,
    fun session copy hsessions hplace ↦ ?_⟩
  have hends := hfirst.ends session copy hsessions hplace
  have hstrayed := hstray session copy hsessions hplace
  generalize hrun : first session = result, hrun' : first copy = result' at hends hstrayed
  cases hends with
  | left h => exact .left (Verge.escapes_either_of_first hovertakes hnextl hsecond.left hrestl
      hsessions.begins (hrun ▸ h))
  | right h => exact .right (Verge.escapes_either_of_first hovertakes hnextr hsecond.right hrestr
      hsessions.begins_copy (hrun' ▸ h))
  | stray h => exact hstrayed h
  | ok hvalue hafter =>
    rw [either_of_ok hrun, either_of_ok hrun']
    exact (hnext _ _ hvalue).ends _ _ hafter trivial
  | @error failure failure' after after' hfailure hafter =>
    have hagain := hsecond.ends (rewound title depth session after)
      (rewound title depth copy after')
      (hsessions.rewound hafter) hplace
    generalize hsecond₁ : second (rewound title depth session after) = result,
      hsecond₂ : second (rewound title depth copy after') = result' at hagain
    cases hagain with
    | left h => exact .left (Verge.escapes_either_of_second hrun (hsecond₁ ▸ h) hrestl)
    | right h => exact .right (Verge.escapes_either_of_second hrun' (hsecond₂ ▸ h) hrestr)
    | stray h => cases h
    | ok hvalue hlast =>
      rw [either_of_error_ok hrun hsecond₁, either_of_error_ok hrun' hsecond₂]
      exact (hrest _ _ hvalue).ends _ _ hlast trivial
    | error hother hlast =>
      rw [either_of_error_error hrun hsecond₁, either_of_error_error hrun' hsecond₂]
      exact .error (hfailure.exhausted hother) hlast

end Either

/-! ### Questions and rules -/

/-- A question that is answered by a reading, and what follows it. -/
theorem lookahead_then {question : Parser Bool} {next : Bool → Parser β}
    (h : Honest fork stray given id question question)
    (hnext : ∀ answer, Honest fork stray' given view' (next answer) (next answer))
    (hleft : ∀ session copy, fork.Sessions session copy → given session.cursor.toPlace →
      fork.left.coupling.Escapes (question session) →
        fork.left.coupling.Escapes ((lookahead question >>= next) session))
    (hright : ∀ session copy, fork.Sessions session copy → given session.cursor.toPlace →
      fork.right.coupling.Escapes (question copy) →
        fork.right.coupling.Escapes ((lookahead question >>= next) copy))
    (hstray : ∀ session copy, fork.Sessions session copy → given session.cursor.toPlace →
      stray (ending (question session)) (ending (question copy)) →
        fork.Ends stray' view' ((lookahead question >>= next) session)
          ((lookahead question >>= next) copy)) :
    Honest fork stray' given view' (lookahead question >>= next) (lookahead question >>= next) := by
  refine ⟨h.left.lookahead.bind fun answer ↦ (hnext answer).left,
    h.right.lookahead.bind fun answer ↦ (hnext answer).right,
    fun session copy hsessions hplace ↦ ?_⟩
  have hends := h.ends session copy hsessions hplace
  have hstrayed := hstray session copy hsessions hplace
  generalize hrun : question session = result, hrun' : question copy = result' at hends hstrayed
  cases hends with
  | left h => exact .left (hleft session copy hsessions hplace (hrun ▸ h))
  | right h => exact .right (hright session copy hsessions hplace (hrun' ▸ h))
  | stray h => exact hstrayed h
  | @ok answer answer' after after' hanswer hafter =>
    obtain rfl : answer = answer' := hanswer
    rw [bind_of_ok (lookahead_of_ok hrun), bind_of_ok (lookahead_of_ok hrun')]
    exact (hnext answer).ends _ _ (hsessions.answered hafter.spared) hplace
  | error hfailure hafter =>
    rw [bind_of_ok (lookahead_of_error hrun), bind_of_ok (lookahead_of_error hrun')]
    exact (hnext false).ends _ _ (hsessions.answered hafter) hplace

theorem enter {title : String} {depth : Nat} (h : Honest fork stray given view parser parser') :
    Honest fork stray given view (enter title depth parser) (enter title depth parser') := by
  refine ⟨h.left.enter, h.right.enter, fun session copy hsessions hplace ↦ ?_⟩
  have hentered : fork.Sessions (entered title depth session) (entered title depth copy) :=
    ⟨hsessions.begins, hsessions.begins_copy, hsessions.position_eq, hsessions.position_le,
      hsessions.spared⟩
  have hending {parser : Parser α} {session : Session} :
      ending (Parser.enter title depth parser session) =
        ending (parser (entered title depth session)) := by
    cases hrun : parser (entered title depth session) with
    | ok value after =>
      rw [enter_of_ok hrun]
      rfl
    | error failure after =>
      rw [enter_of_error hrun]
      rfl
  have hends := h.ends _ _ hentered hplace
  generalize hrun : parser (entered title depth session) = result,
    hrun' : parser' (entered title depth copy) = result' at hends
  cases hends with
  | left h => exact .left (.enter (hrun ▸ h))
  | right h => exact .right (.enter (hrun' ▸ h))
  | stray h =>
    refine .stray ?_
    rwa [hending, hending, hrun, hrun']
  | ok hvalue hafter =>
    rw [enter_of_ok hrun, enter_of_ok hrun']
    exact .ok hvalue ⟨hafter.begins, hafter.begins_copy, hafter.position_eq, hafter.position_le,
      hafter.spared⟩
  | error hfailure hafter =>
    rw [enter_of_error hrun, enter_of_error hrun']
    exact .error hfailure hafter

end Honest

end Parser

end CorpusQuery
