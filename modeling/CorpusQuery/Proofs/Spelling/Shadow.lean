import CorpusQuery.Proofs.Spelling.Mirror

/-!
Attempts that fail. Where a choice takes its second reading in the tokens, it has to take the second
one in a copy as well, so the first reading has to fail there. `Parser.Shadows` says more, step by
step: whatever a parser reads in a copy it also reads in the tokens, and it does not meet the
nesting limit in the copy unless it meets it in the tokens. What the two sessions have ahead is
related by a link, which is weaker than what a mirrored reading knows, since the wordings ahead are
those of another reading.
-/

set_option autoImplicit false
set_option relaxedAutoImplicit false

namespace CorpusQuery

namespace Parser

variable {α β γ δ ε : Type}

/-! ### Overflows that stay -/

namespace Sticky

theorem pure (value : α) : Sticky (Pure.pure value : Parser α) := fun _ _ h ↦ h

theorem of_elementary {parser : Parser α} (h : Elementary parser) : Sticky parser := by
  intro session failure hoverflow
  obtain ⟨cursor, hleave⟩ := h.leave_eq session
  rw [hleave]
  exact hoverflow

theorem bind {parser : Parser α} {next : α → Parser β} (h : Sticky parser)
    (hnext : ∀ value, Sticky (next value)) : Sticky (parser >>= next) := by
  intro session failure hoverflow
  have hparser := h session failure hoverflow
  cases hrun : parser session with
  | ok value after =>
    rw [leave_of_ok hrun] at hparser
    rw [leave, bind_of_ok hrun]
    exact hnext value after failure hparser
  | error other after =>
    rw [leave_of_error hrun] at hparser
    rwa [leave_of_error (bind_of_error hrun next)]

end Sticky

/-! ### Shadows -/

/-- A link between sessions that only depends on where they are, and of which the second is a copy
that has not met the limit. -/
structure Tied (link : Session → Session → Prop) : Prop where
  overflow : ∀ {session copy}, link session copy → copy.overflow = none
  closing : ∀ {session copy}, link session copy → Closing session.rest ∧ Closing copy.rest
  still : ∀ {session copy session' copy'}, session.Still session' → copy.Still copy' →
    link session copy → link session' copy'

/-- From linked sessions on, a parser reads nothing in the second session that another one does not
read in the first, and meets the limit there only if the other one does. -/
structure Shadows (link link' : Session → Session → Prop) (view : α → δ)
    (parser parser' : Parser α) : Prop where
  sticky : Sticky parser
  follows : ∀ session copy, link session copy → (leave parser session).overflow = none →
    (leave parser' copy).overflow = none ∧ ∀ value' last', parser' copy = .ok value' last' →
      ∃ value last, parser session = .ok value last ∧ view value = view value' ∧ link' last last'

namespace Shadows

variable {link middle link' : Session → Session → Prop} {view : α → δ} {parser parser' : Parser α}

/-- Where the first parser fails, the second one fails as well. -/
theorem fails (h : Shadows link link' view parser parser') {session copy failed : Session}
    {failure : Failure} (hlink : link session copy) (hrun : parser session = .error failure failed)
    (hnone : failed.overflow = none) :
    ∃ failure' failed', parser' copy = .error failure' failed' ∧ failed'.overflow = none := by
  obtain ⟨hoverflow, hread⟩ :=
    h.follows session copy hlink ((congrArg Session.overflow (leave_of_error hrun)).trans hnone)
  cases hrun' : parser' copy with
  | ok value' last' =>
    obtain ⟨value, last, hread, -⟩ := hread value' last' hrun'
    cases hrun.symm.trans hread
  | error failure' failed' =>
    exact ⟨failure', failed', rfl, by rwa [leave_of_error hrun'] at hoverflow⟩

/-- A parser that fails in every copy. -/
theorem of_error (hsticky : Sticky parser)
    (h : ∀ session copy, link session copy →
      ∃ failure failed, parser' copy = .error failure failed ∧ failed.overflow = none) :
    Shadows link link' view parser parser' := by
  refine ⟨hsticky, fun session copy hlink _ ↦ ?_⟩
  obtain ⟨failure, failed, hrun, hnone⟩ := h session copy hlink
  refine ⟨by rwa [leave_of_error hrun], fun value' last' hrun' ↦ ?_⟩
  cases hrun.symm.trans hrun'

theorem of_not (hsticky : Sticky parser) (h : ∀ session copy, ¬ link session copy) :
    Shadows link link' view parser parser' :=
  ⟨hsticky, fun session copy hlink ↦ absurd hlink (h session copy)⟩

/-- What is read may depend on where the sessions are. -/
theorem of_branch (hsticky : Sticky parser)
    (h : ∀ session copy, link session copy → ∃ (branch branch' : Parser α)
      (link₁ : Session → Session → Prop), parser session = branch session ∧
        parser' copy = branch' copy ∧ link₁ session copy ∧
          Shadows link₁ link' view branch branch') :
    Shadows link link' view parser parser' := by
  refine ⟨hsticky, fun session copy hlink hnone ↦ ?_⟩
  obtain ⟨branch, branch', link₁, hrun, hrun', hlink₁, hbranch⟩ := h session copy hlink
  unfold leave at hnone ⊢
  rw [hrun] at hnone
  rw [hrun', hrun]
  exact hbranch.follows session copy hlink₁ hnone

theorem weaken {link₁ link₁' : Session → Session → Prop}
    (h : Shadows link link' view parser parser')
    (hlink : ∀ session copy, link₁ session copy → link session copy)
    (hlink' : ∀ session copy, link' session copy → link₁' session copy) :
    Shadows link₁ link₁' view parser parser' := by
  refine ⟨h.sticky, fun session copy hlinked hnone ↦ ?_⟩
  obtain ⟨hoverflow, hread⟩ := h.follows session copy (hlink session copy hlinked) hnone
  refine ⟨hoverflow, fun value' last' hrun' ↦ ?_⟩
  obtain ⟨value, last, hrun, hview, hlast⟩ := hread value' last' hrun'
  exact ⟨value, last, hrun, hview, hlink' last last' hlast⟩

theorem pure {value value' : α} (hview : view value = view value')
    (hlink : ∀ session copy, link session copy → copy.overflow = none ∧ link' session copy) :
    Shadows link link' view (Pure.pure value) (Pure.pure value') := by
  refine ⟨.pure value, fun session copy hlinked _ ↦ ⟨(hlink session copy hlinked).1, ?_⟩⟩
  intro _ _ hrun
  cases hrun
  exact ⟨value, session, rfl, hview, (hlink session copy hlinked).2⟩

theorem bind {next next' : α → Parser β} {view' : β → ε}
    (h : Shadows link middle view parser parser')
    (hnext : ∀ value value', view value = view value' →
      Shadows middle link' view' (next value) (next' value')) :
    Shadows link link' view' (parser >>= next) (parser' >>= next') := by
  refine ⟨h.sticky.bind fun value ↦ (hnext value value rfl).sticky,
    fun session copy hlink hnone ↦ ?_⟩
  have hfirst : (leave parser session).overflow = none := by
    cases hrun : parser session with
    | ok value between =>
      rw [leave, bind_of_ok hrun] at hnone
      rw [leave_of_ok hrun]
      exact (hnext value value rfl).sticky.overflow_eq_none hnone
    | error failure failed =>
      rw [leave_of_error (bind_of_error hrun next)] at hnone
      rwa [leave_of_error hrun]
  obtain ⟨hoverflow, hread⟩ := h.follows session copy hlink hfirst
  cases hrun' : parser' copy with
  | error failure' failed' =>
    rw [leave_of_error hrun'] at hoverflow
    refine ⟨by rwa [leave_of_error (bind_of_error hrun' next')], fun value' last' hresult ↦ ?_⟩
    rw [bind_of_error hrun'] at hresult
    cases hresult
  | ok value' between' =>
    obtain ⟨value, between, hrun, hview, hmiddle⟩ := hread value' between' hrun'
    rw [leave, bind_of_ok hrun] at hnone
    obtain ⟨hoverflow', hread'⟩ := (hnext value value' hview).follows between between' hmiddle hnone
    rw [leave, bind_of_ok hrun', bind_of_ok hrun]
    exact ⟨hoverflow', hread'⟩

theorem map (view : α → δ) {f : α → β} {view' : β → ε} (h : Shadows link link' view parser parser')
    (hlink : ∀ session copy, link' session copy → copy.overflow = none)
    (hview : ∀ value value', view value = view value' → view' (f value) = view' (f value')) :
    Shadows link link' view' (f <$> parser) (f <$> parser') := by
  rw [map_eq_pure_bind, map_eq_pure_bind]
  exact h.bind fun value value' hvalue ↦ pure (hview value value' hvalue)
    fun session copy hlinked ↦ ⟨hlink session copy hlinked, hlinked⟩

/-! ### Looking -/

/-- A question that leaves the session where it is. What is seen in the two sessions is known behind
it. -/
theorem ask (hlink : Tied link) {question : Parser β} (see : Place → β)
    {asked : Session → Session} (hquestion : Elementary question)
    (hrun : ∀ session, question session = .ok (see session.cursor.toPlace) (asked session))
    (hstill : ∀ session : Session, session.Still (asked session)) {next next' : β → Parser α}
    (agree : β → β → Prop) (hself : ∀ seen, agree seen seen)
    (hagree : ∀ session copy, link session copy →
      agree (see session.cursor.toPlace) (see copy.cursor.toPlace))
    (hnext : ∀ seen seen', agree seen seen' →
      Shadows (fun session copy ↦ link session copy ∧ see session.cursor.toPlace = seen ∧
        see copy.cursor.toPlace = seen') link' view (next seen) (next' seen')) :
    Shadows link link' view (question >>= next) (question >>= next') := by
  refine ⟨.bind (.of_elementary hquestion) fun seen ↦ (hnext seen seen (hself seen)).sticky,
    fun session copy hlinked hnone ↦ ?_⟩
  rw [leave, bind_of_ok (hrun session)] at hnone
  rw [leave, bind_of_ok (hrun copy), bind_of_ok (hrun session)]
  refine (hnext _ _ (hagree session copy hlinked)).follows (asked session) (asked copy) ⟨?_, ?_, ?_⟩
    hnone
  · exact hlink.still (hstill session) (hstill copy) hlinked
  · rw [(hstill session).place]
  · rw [(hstill copy).place]

theorem look (hlink : Tied link) {see : Place → β} {next next' : β → Parser α}
    (agree : β → β → Prop) (hself : ∀ seen, agree seen seen)
    (hagree : ∀ session copy, link session copy →
      agree (see session.cursor.toPlace) (see copy.cursor.toPlace))
    (hnext : ∀ seen seen', agree seen seen' →
      Shadows (fun session copy ↦ link session copy ∧ see session.cursor.toPlace = seen ∧
        see copy.cursor.toPlace = seen') link' view (next seen) (next' seen')) :
    Shadows link link' view (Parser.look see >>= next) (Parser.look see >>= next') :=
  ask hlink see (.look see) (fun _ ↦ rfl) (fun _ ↦ .refl _) agree hself hagree hnext

/-- A test for a kind that the two sessions have or do not have alike. -/
theorem check (hlink : Tied link) {kind : Kind} {next next' : Bool → Parser α}
    (hagree : ∀ session copy, link session copy →
      (session.cursor.kind = kind ↔ copy.cursor.kind = kind))
    (hyes : Shadows (fun session copy ↦ link session copy ∧ copy.cursor.kind = kind) link' view
      (next true) (next' true))
    (hno : Shadows link link' view (next false) (next' false)) :
    Shadows link link' view (Parser.check kind >>= next) (Parser.check kind >>= next') := by
  refine ask hlink (fun place ↦ place.kind == kind) (.check kind) (fun _ ↦ rfl)
    (fun _ ↦ .tested _ _) Eq (fun _ ↦ rfl) (fun session copy hlinked ↦ ?_) ?_
  · rw [Bool.eq_iff_iff, beq_iff_eq, beq_iff_eq]
    exact hagree session copy hlinked
  · rintro seen _ rfl
    cases seen with
    | true => exact hyes.weaken (fun _ _ h ↦ ⟨h.1, beq_iff_eq.mp h.2.2⟩) fun _ _ ↦ id
    | false => exact hno.weaken (fun _ _ h ↦ h.1) fun _ _ ↦ id

/-- A test for kinds that answers alike for the two sessions. -/
theorem checkAny (hlink : Tied link) {kinds : KindSet} {next next' : Bool → Parser α}
    (hagree : ∀ session copy, link session copy →
      kinds.contains session.cursor.kind = kinds.contains copy.cursor.kind)
    (hnext : ∀ found, Shadows link link' view (next found) (next' found)) :
    Shadows link link' view (Parser.checkAny kinds >>= next) (Parser.checkAny kinds >>= next') := by
  refine ask hlink (fun place ↦ kinds.contains place.kind) (.checkAny kinds) (fun _ ↦ rfl)
    (fun _ ↦ .tested _ _) Eq (fun _ ↦ rfl) hagree ?_
  rintro seen _ rfl
  exact (hnext seen).weaken (fun _ _ h ↦ h.1) fun _ _ ↦ id

/-! ### Passing tokens -/

theorem advance {view : Token → δ}
    (hpass : ∀ session copy, link session copy → copy.overflow = none ∧
      view session.cursor.here = view copy.cursor.here ∧ link' session.passed copy.passed) :
    Shadows link link' view Parser.advance Parser.advance := by
  refine ⟨.of_elementary .advance, fun session copy hlinked _ ↦ ?_⟩
  obtain ⟨hoverflow, hview, hlast⟩ := hpass session copy hlinked
  have hleave : (leave Parser.advance copy).overflow = none := hoverflow
  refine ⟨hleave, fun _ _ hrun ↦ ?_⟩
  cases hrun
  exact ⟨_, _, rfl, hview, hlast⟩

theorem expect (hlink : Tied link) {kind : Kind}
    (hpass : ∀ session copy, link session copy → copy.cursor.kind = kind →
      session.cursor.kind = kind ∧ link' session.passed copy.passed) :
    Shadows link link' (fun _ ↦ ()) (Parser.expect kind) (Parser.expect kind) := by
  refine ⟨.of_elementary (.expect kind), fun session copy hlinked _ ↦ ?_⟩
  have hoverflow := hlink.overflow hlinked
  by_cases hkind : copy.cursor.kind = kind
  · rw [leave_of_ok (expect_of_kind hkind), expect_of_kind hkind]
    refine ⟨hoverflow, fun _ _ hrun ↦ ?_⟩
    cases hrun
    have hstill :=
      hlink.still (.tested session (.single kind)) (.tested copy (.single kind)) hlinked
    obtain ⟨hsession, hlast⟩ := hpass _ _ hstill hkind
    exact ⟨_, _, expect_of_kind hsession, rfl, hlast⟩
  · rw [leave_of_error (expect_of_ne hkind), expect_of_ne hkind]
    exact ⟨hoverflow, fun _ _ hrun ↦ by cases hrun⟩

/-- A token that may be there, and what is read in either case. -/
theorem consume_then (hlink : Tied link) {kind : Kind} {next next' : Bool → Parser α}
    (hagree : ∀ session copy, link session copy →
      (session.cursor.kind = kind ↔ copy.cursor.kind = kind))
    (hpass : ∀ session copy, link session copy → copy.cursor.kind = kind →
      middle session.passed copy.passed)
    (hyes : Shadows middle link' view (next true) (next' true))
    (hno : Shadows link link' view (next false) (next' false)) :
    Shadows link link' view (Parser.consume kind >>= next) (Parser.consume kind >>= next') := by
  refine ⟨.bind (.of_elementary (.consume kind)) fun found ↦ ?_,
    fun session copy hlinked hnone ↦ ?_⟩
  · cases found with
    | true => exact hyes.sticky
    | false => exact hno.sticky
  have hstill := hlink.still (.tested session (.single kind)) (.tested copy (.single kind)) hlinked
  by_cases hkind : copy.cursor.kind = kind
  · have hsession := (hagree session copy hlinked).mpr hkind
    rw [leave, bind_of_ok (Parser.consume_of_kind hsession)] at hnone
    rw [leave, bind_of_ok (Parser.consume_of_kind hkind),
      bind_of_ok (Parser.consume_of_kind hsession)]
    exact hyes.follows _ _ (hpass _ _ hstill hkind) hnone
  · have hsession := fun h ↦ hkind ((hagree session copy hlinked).mp h)
    rw [leave, bind_of_ok (Parser.consume_of_ne hsession)] at hnone
    rw [leave, bind_of_ok (Parser.consume_of_ne hkind), bind_of_ok (Parser.consume_of_ne hsession)]
    exact hno.follows _ _ hstill hnone

/-! ### Repetition and phrases -/

theorem iterate (view : α → δ) (hlink : Tied link) {step : α → Parser (Option α)}
    (hcloser : ∀ {value next : α} {session after : Session}, session.cursor.Closed →
      step value session = .ok (some next) after → after.remaining < session.remaining)
    (hsticky : ∀ value, Sticky (Parser.iterate step value))
    (hstep : ∀ value value', view value = view value' →
      Shadows link link (Option.map view) (step value) (step value'))
    {value value' : α} (hview : view value = view value') :
    Shadows link link view (Parser.iterate step value) (Parser.iterate step value') := by
  refine ⟨hsticky value, fun session copy hlinked hnone ↦ ?_⟩
  induction value, session using iterate_induction step generalizing value' copy with
  | h value session ih =>
  have hround : (leave (step value) session).overflow = none := by
    cases hrun : step value session with
    | error failure failed =>
      rw [leave_of_error (iterate_of_error hrun)] at hnone
      rwa [leave_of_error hrun]
    | ok next? between =>
      cases next? with
      | none =>
        rw [leave_of_ok (iterate_of_none hrun)] at hnone
        rwa [leave_of_ok hrun]
      | some next =>
        have hclose := hcloser (hlink.closing hlinked).1.closed hrun
        rw [leave, iterate_of_closer hrun hclose] at hnone
        rw [leave_of_ok hrun]
        exact (hsticky next).overflow_eq_none hnone
  obtain ⟨hoverflow, hread⟩ := (hstep value value' hview).follows session copy hlinked hround
  cases hrun' : step value' copy with
  | error failure' failed' =>
    rw [leave_of_error hrun'] at hoverflow
    rw [leave_of_error (iterate_of_error hrun'), iterate_of_error hrun']
    exact ⟨hoverflow, fun _ _ hresult ↦ by cases hresult⟩
  | ok next?' between' =>
    obtain ⟨next?, between, hrun, hnext, hbetween⟩ := hread next?' between' hrun'
    cases next?' with
    | none =>
      rw [Option.map_none, Option.map_eq_none_iff] at hnext
      subst hnext
      rw [leave_of_ok hrun'] at hoverflow
      rw [leave_of_ok (iterate_of_none hrun'), iterate_of_none hrun', iterate_of_none hrun]
      refine ⟨hoverflow, fun _ _ hresult ↦ ?_⟩
      cases hresult
      exact ⟨_, _, rfl, hview, hbetween⟩
    | some next' =>
      rw [Option.map_some, Option.map_eq_some_iff] at hnext
      obtain ⟨next, rfl, hnext⟩ := hnext
      have hclose := hcloser (hlink.closing hlinked).1.closed hrun
      have hclose' := hcloser (hlink.closing hlinked).2.closed hrun'
      rw [leave, iterate_of_closer hrun hclose] at hnone
      rw [leave, iterate_of_closer hrun' hclose', iterate_of_closer hrun hclose]
      exact ih next between hrun hclose hnext between' hbetween hnone

theorem behind (hlink : Tied link) {kind : Kind}
    (hagree : ∀ session copy, link session copy →
      (session.cursor.kind = kind ↔ copy.cursor.kind = kind))
    (hpass : ∀ session copy, link session copy → copy.cursor.kind = kind →
      middle session.passed copy.passed)
    (h : Shadows middle link view parser parser') :
    Shadows link link (Option.map view) (Parser.behind kind parser)
      (Parser.behind kind parser') := by
  refine consume_then hlink hagree hpass ?_ ?_
  · exact map view h (fun _ _ ↦ hlink.overflow) fun _ _ hview ↦ congrArg some hview
  · exact pure rfl fun _ _ hlinked ↦ ⟨hlink.overflow hlinked, hlinked⟩

variable {scope : Scope}

theorem many (hlink : Tied link) (hscope : scope.Progressive)
    (hnested : ∀ rule, Sticky (scope.nested rule)) {item : Parser (Option α)}
    (hrepeated : Grammar.Repeated scope item) (halike : Alike scope scope item item)
    (hitem : Shadows link link (Option.map view) item item) :
    Shadows link link (List.map view) (Parser.many item) (Parser.many item) := by
  refine (iterate (List.map view) hlink (hscope.loops (.items hrepeated)) (fun values ↦ ?_)
    (fun values values' hvalues ↦ ?_) rfl).bind fun values values' hvalues ↦ ?_
  · exact (Alike.iterate (.items hrepeated) (fun _ ↦ halike.bind fun _ ↦ .pure _) values).sticky
      hnested
  · refine hitem.bind fun value? value?' hvalue ↦ ?_
    refine pure ?_ fun _ _ hlinked ↦ ⟨hlink.overflow hlinked, hlinked⟩
    cases value? <;> cases value?' <;> simp_all
  · exact pure (by simp [hvalues]) fun _ _ hlinked ↦ ⟨hlink.overflow hlinked, hlinked⟩

/-- One or more values with separators between them. -/
theorem separatedBy (hlink : Tied link') (hscope : scope.Progressive)
    (hnested : ∀ rule, Sticky (scope.nested rule)) {separator : Kind} {item : Parser α}
    (hseparated : Grammar.Separated scope separator item) (halike : Alike scope scope item item)
    (hitem : Shadows link link' view item item)
    (hbehind : Shadows link' link' (Option.map view) (Parser.behind separator item)
      (Parser.behind separator item)) :
    Shadows link link' (List.map view) (Parser.separatedBy separator item)
      (Parser.separatedBy separator item) := by
  refine hitem.bind fun first first' hfirst ↦
    (many hlink hscope hnested (.behind hseparated) (.behind _ halike) hbehind).bind
      fun others others' hothers ↦ ?_
  exact pure (by rw [List.map_cons, List.map_cons, hfirst, hothers])
    fun _ _ hlinked ↦ ⟨hlink.overflow hlinked, hlinked⟩

section Phrase

variable {category : Category} (blur : Draft category → δ) {blur' : Phrase category → ε}

theorem phraseFrom (hlink : Tied link') {start start' : Nat}
    (hblur : ∀ draft draft' : Draft category, ∀ span span', blur draft = blur draft' →
      blur' (.phrase draft.form span draft.parts) = blur' (.phrase draft'.form span' draft'.parts))
    {body body' : Parser (Draft category)} (h : Shadows link link' blur body body') :
    Shadows link link' blur' (Parser.phraseFrom start body) (Parser.phraseFrom start' body') := by
  refine h.bind fun draft draft' hdraft ↦ ?_
  refine look hlink (fun _ _ ↦ True) (fun _ ↦ trivial) (fun _ _ _ ↦ trivial) fun _ _ _ ↦ ?_
  exact pure (hblur _ _ _ _ hdraft) fun session copy hlinked ↦
    ⟨hlink.overflow hlinked.1, hlinked.1⟩

theorem phrase (hlink : Tied link) (hlink' : Tied link')
    (hblur : ∀ draft draft' : Draft category, ∀ span span', blur draft = blur draft' →
      blur' (.phrase draft.form span draft.parts) = blur' (.phrase draft'.form span' draft'.parts))
    {body body' : Parser (Draft category)} (h : Shadows link link' blur body body') :
    Shadows link link' blur' (Parser.phrase body) (Parser.phrase body') := by
  refine look hlink (fun _ _ ↦ True) (fun _ ↦ trivial) (fun _ _ _ ↦ trivial) fun _ _ _ ↦ ?_
  exact (phraseFrom blur hlink' hblur h).weaken (fun _ _ hlinked ↦ hlinked.1) fun _ _ ↦ id

end Phrase

theorem enter (hlink : Tied link) (hlink' : Tied link') {title : String} {depth : Nat}
    (hsticky : Sticky (Parser.enter title depth parser))
    (h : Shadows link link' view parser parser') :
    Shadows link link' view (Parser.enter title depth parser)
      (Parser.enter title depth parser') := by
  refine ⟨hsticky, fun session copy hlinked hnone ↦ ?_⟩
  have hstill (session : Session) : session.Still (entered title depth session) := ⟨rfl, rfl⟩
  have hleft (session : Session) : session.Still (left title depth none session) := ⟨rfl, rfl⟩
  have hentered := hlink.still (hstill session) (hstill copy) hlinked
  obtain ⟨failure?, hleave⟩ := leave_enter title depth parser session
  obtain ⟨failure?', hleave'⟩ := leave_enter title depth parser' copy
  rw [hleave] at hnone
  obtain ⟨hoverflow, hread⟩ := h.follows _ _ hentered hnone
  rw [hleave']
  refine ⟨hoverflow, fun value' last' hrun' ↦ ?_⟩
  cases hbody' : parser' (entered title depth copy) with
  | error failure' failed' =>
    rw [enter_of_error hbody'] at hrun'
    cases hrun'
  | ok result' between' =>
    rw [enter_of_ok hbody'] at hrun'
    cases hrun'
    obtain ⟨result, between, hbody, hview, hbetween⟩ := hread _ _ hbody'
    exact ⟨result, _, enter_of_ok hbody, hview, hlink'.still (hleft _) (hleft _) hbetween⟩

end Shadows

end Parser

/-! ### Sessions side by side -/

open CorpusQuery.Parser

/-- Two sessions side by side: the tokens ahead of the first one spell some wordings of which
something is known, and the second one is a copy. -/
def Abreast (region : List Wording → Prop) (session copy : Session) : Prop :=
  Closing session.rest ∧ ∃ ahead, region ahead ∧ Spells ahead session.rest ∧
    Ready session copy ahead

theorem Abreast.tied (region : List Wording → Prop) : Tied (Abreast region) where
  overflow := fun ⟨_, _, _, _, hready⟩ ↦ hready.overflow
  closing := fun ⟨hclosing, _, _, _, hready⟩ ↦ ⟨hclosing, hready.closing⟩
  still := fun hstill hstill' ⟨hclosing, ahead, hregion, hspells, hready⟩ ↦
    ⟨hstill.closing hclosing, ahead, hregion, hstill.rest.symm ▸ hspells,
      hstill.ready hstill' hready⟩

/-! ### Single tokens -/

namespace Wording

/-- Whether a wording is always one token. -/
def isSingle : Wording → Bool
  | .lexeme _ _ | .choice _ => true
  | _ => false

end Wording

/-- The kinds of token with which a wording of several tokens may begin. -/
def Kind.beginsSeveral : Kind → Bool
  | .pureDigits | .digits | .symbol .less | .symbol .minus => true
  | _ => false

theorem Numeral.beginsSeveral_lexemes (numeral : Numeral) :
    (numeral.lexemes.headD (.mark .endOfInput)).kind.beginsSeveral = true := by
  have hdigits (text : List Char) : (Lexeme.digits text).kind.beginsSeveral = true := by
    unfold Lexeme.digits
    split <;> rfl
  cases numeral <;> exact hdigits _

theorem Orderly.isSingle {wording : Wording} {later : List Wording}
    (h : Orderly (wording :: later)) (hkind : wording.kind.beginsSeveral = false) :
    wording.isSingle = true := by
  cases wording with
  | lexeme kind text => rfl
  | choice synonym => rfl
  | pair first second =>
    rcases Symbol.of_isEdgeEnd (h.pairs first second List.mem_cons_self) with rfl | rfl <;>
      cases hkind
  | number numeral => exact absurd (numeral.beginsSeveral_lexemes.symm.trans hkind) nofun
  | argument numeral =>
    simp only [Wording.kind, Wording.usual] at hkind
    split at hkind
    · cases hkind
    · exact absurd (numeral.beginsSeveral_lexemes.symm.trans hkind) nofun

theorem Spells.says {wording : Wording} {later : List Wording} {token : Token} {rest : List Token}
    (hsingle : wording.isSingle = true) (h : Spells (wording :: later) (token :: rest)) :
    wording.Says token ∧ Spells later rest := by
  cases wording with
  | lexeme kind text =>
    obtain ⟨_, _, heq, htoken, hrest⟩ := h.lexeme
    cases heq
    refine ⟨⟨List.mem_singleton.mpr (by rw [htoken]; rfl), _, rfl, ?_⟩, hrest⟩
    exact congrArg Kind.canonical (congrArg Lexeme.kind htoken).symm
  | choice synonym =>
    obtain ⟨_, _, heq, htoken, hrest⟩ := h.choice
    cases heq
    exact ⟨Wording.says_choice htoken, hrest⟩
  | pair first second => cases hsingle
  | number numeral => cases hsingle
  | argument numeral => cases hsingle

/-- Passing a wording of one token in a session and in a copy, whatever comes behind it. -/
theorem Ready.pass {session copy : Session} {wording : Wording} {later : List Wording}
    (hready : Ready session copy (wording :: later)) (hclosing : Closing session.rest)
    (hspells : Spells (wording :: later) session.rest) (hsingle : wording.isSingle = true)
    (hend : copy.cursor.kind ≠ .endOfInput) :
    Closing session.passed.rest ∧ Spells later session.passed.rest ∧
      Ready session.passed copy.passed later ∧ wording.Says session.cursor.here ∧
        wording.usual = [copy.cursor.here.lexeme] := by
  obtain ⟨hword, hlater⟩ := hspells.says hsingle
  obtain ⟨lexeme, husual, hcanonical⟩ := hword.usual
  obtain ⟨token, rest, heq, htoken, -⟩ := hready.printed.single husual
  obtain ⟨rfl, -⟩ := List.cons.inj heq
  have hkind : session.cursor.kind ≠ .endOfInput := by
    rw [← htoken] at hcanonical
    exact Kind.ne_endOfInput_of_canonical hcanonical.symm hend
  obtain ⟨-, hrest, -⟩ := Session.Passes.of_cons hclosing rfl hkind
  rw [← hrest] at hlater
  obtain ⟨hclosing', hpass⟩ := hword.pass hclosing hkind
  obtain ⟨husual', hready'⟩ := (hpass later hlater).2 copy hready
  exact ⟨hclosing', hlater, hready', hword, husual'⟩

end CorpusQuery
