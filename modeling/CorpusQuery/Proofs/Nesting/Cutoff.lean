import CorpusQuery.Proofs.Construction.Grammar
import CorpusQuery.Proofs.Construction.Run

/-!
The nesting limit only ever cuts a parse off. The first failure at the limit is kept to the end
(`Sticky`), so a parse that ends without one never met the limit, and the same parse under a higher
limit takes the same steps (`Refines`). A parse that did meet it reports the limit, whatever its
alternatives made of the failure, and a parse that did not reports something else (`Candid`).
-/

set_option autoImplicit false
set_option relaxedAutoImplicit false

namespace CorpusQuery

namespace Parser

variable {α β γ : Type} {scope other : Scope}

/-! ### What happens to the failure at the limit -/

/-- An elementary operation changes nothing but the cursor. -/
theorem Elementary.leave_eq {parser : Parser α} (h : Elementary parser) (session : Session) :
    ∃ cursor, leave parser session = { session with cursor := cursor } := by
  cases h with
  | expect kind =>
    unfold leave Parser.expect orFail
    split <;> rename_i heq <;> split at heq <;> cases heq <;> exact ⟨_, rfl⟩
  | _ => exact ⟨_, rfl⟩

/-- A relation between the session before and the session behind holds of a parser if it holds of
the nested rules, composes, and ignores moves of the cursor and notes of rewinding. -/
theorem Alike.leave_related (relation : Session → Session → Prop)
    (htrans : ∀ {first second third}, relation first second → relation second third →
      relation first third)
    (hcursor : ∀ session cursor, relation session { session with cursor := cursor })
    (hrewound : ∀ title session after, relation session after →
      relation session (rewound title scope.depth session after))
    (hnested : ∀ rule session, relation session (leave (scope.nested rule) session))
    {parser parser' : Parser α} (h : Alike scope other parser parser') (session : Session) :
    relation session (leave parser session) := by
  have hrefl (session : Session) : relation session session := hcursor session session.cursor
  induction h generalizing session with
  | elementary h =>
    obtain ⟨cursor, hleave⟩ := h.leave_eq session
    rw [hleave]
    exact hcursor session cursor
  | pure value => exact hrefl session
  | @bind _ _ parser _ next _ _ _ ih ihnext =>
    have hparser := ih session
    cases hrun : parser session with
    | error failure after =>
      rw [leave_of_error hrun] at hparser
      rwa [leave_of_error (bind_of_error hrun next)]
    | ok value after =>
      rw [leave_of_ok hrun] at hparser
      rw [leave, bind_of_ok hrun next]
      exact htrans hparser (ihnext value after)
  | @iterate _ step _ _ _ value ih =>
    induction value, session using iterate_induction step with
    | h value session ihrounds =>
    have hstep := ih value session
    cases hrun : step value session with
    | error failure after =>
      rw [leave_of_error hrun] at hstep
      rwa [leave_of_error (iterate_of_error hrun)]
    | ok next? after =>
      rw [leave_of_ok hrun] at hstep
      cases next? with
      | none => rwa [leave_of_ok (iterate_of_none hrun)]
      | some next =>
        by_cases hcloser : after.remaining < session.remaining
        · rw [leave, iterate_of_closer hrun hcloser]
          exact htrans hstep (ihrounds next after hrun hcloser)
        · rwa [leave_of_ok (iterate_of_not_closer hrun hcloser)]
  | @attempt _ title parser _ _ ih =>
    have hparser := ih session
    cases hrun : parser session with
    | error failure after =>
      rw [leave_of_error hrun] at hparser
      rw [leave_of_error (attempt_of_error hrun title _)]
      exact hrewound title session after hparser
    | ok value after =>
      rw [leave_of_ok hrun] at hparser
      rwa [leave_of_ok (attempt_of_ok hrun title _)]
  | @lookahead question _ _ ih =>
    have hquestion := ih session
    cases hrun : question session with
    | error failure after =>
      rw [leave_of_error hrun] at hquestion
      rw [leave_of_ok (lookahead_of_error hrun)]
      exact htrans hquestion (hcursor after _)
    | ok answer after =>
      rw [leave_of_ok hrun] at hquestion
      rw [leave_of_ok (lookahead_of_ok hrun)]
      exact htrans hquestion (hcursor after _)
  | @either _ _ _ title first _ next _ second _ rest _ _ _ _ _ ih ihnext ihsecond ihrest =>
    have hfirst := ih session
    cases hrun : first session with
    | ok value after =>
      rw [leave_of_ok hrun] at hfirst
      rw [leave, either_of_ok hrun]
      exact htrans hfirst (ihnext value after)
    | error failure after =>
      rw [leave_of_error hrun] at hfirst
      have hback := hrewound title session after hfirst
      have hsecond := ihsecond (rewound title scope.depth session after)
      cases hagain : second (rewound title scope.depth session after) with
      | ok value last =>
        rw [leave_of_ok hagain] at hsecond
        rw [leave, either_of_error_ok hrun hagain]
        exact htrans hback (htrans hsecond (ihrest value last))
      | error other last =>
        rw [leave_of_error hagain] at hsecond
        rw [leave_of_error (either_of_error_error hrun hagain)]
        exact htrans hback hsecond
  | nested rule => exact hnested rule session

/-- A parser keeps the failure at the limit once there is one. -/
def Sticky (parser : Parser α) : Prop :=
  ∀ session failure, session.overflow = some failure →
    (leave parser session).overflow = some failure

theorem Alike.sticky (hscope : ∀ rule, Sticky (scope.nested rule)) {parser parser' : Parser α}
    (h : Alike scope other parser parser') : Sticky parser := by
  intro session failure hoverflow
  refine h.leave_related
    (fun before after ↦
      ∀ failure, before.overflow = some failure → after.overflow = some failure)
    (fun h h' failure hfailure ↦ h' failure (h failure hfailure)) (fun _ _ _ h ↦ h)
    (fun _ _ _ h ↦ h) (fun rule session failure ↦ hscope rule session failure) session failure
    hoverflow

/-- A scope whose rules fail at once, without meeting a limit. -/
def idle : Scope := ⟨0, fun _ ↦ fail .unexpected⟩

/-- A parser that reads in every scope nests no rules, so it never meets the limit. -/
theorem Alike.overflow_eq {parser parser' : Parser α} (h : Alike idle idle parser parser')
    (session : Session) : (leave parser session).overflow = session.overflow :=
  h.leave_related (fun before after ↦ after.overflow = before.overflow)
    (fun h h' ↦ h'.trans h) (fun _ _ ↦ rfl) (fun _ _ _ h ↦ h) (fun _ _ ↦ rfl) session

theorem Sticky.overflow_eq_none {parser : Parser α} (h : Sticky parser) {session : Session}
    (hleave : (leave parser session).overflow = none) : session.overflow = none := by
  cases hoverflow : session.overflow with
  | none => rfl
  | some failure =>
    rw [h session failure hoverflow] at hleave
    cases hleave

/-- Whatever failure at the limit a parser adds is about the given limit. -/
def Blames (limit : Nat) (parser : Parser α) : Prop :=
  ∀ session failure, (leave parser session).overflow = some failure →
    session.overflow = some failure ∨ failure.cause = .nestingLimit limit

theorem Alike.blames {limit : Nat} (hscope : ∀ rule, Blames limit (scope.nested rule))
    {parser parser' : Parser α} (h : Alike scope other parser parser') :
    Blames limit parser := by
  intro session
  refine h.leave_related
    (fun before after ↦ ∀ failure, after.overflow = some failure →
      before.overflow = some failure ∨ failure.cause = .nestingLimit limit)
    (fun h h' failure hfailure ↦ ?_) (fun _ _ _ h ↦ .inl h)
    (fun _ _ _ h ↦ h) (fun rule session ↦ hscope rule session) session
  rcases h' failure hfailure with hsecond | hcause
  · exact h failure hsecond
  · exact .inr hcause

/-! ### Failures elsewhere -/

/-- A parser that fails without having met the limit fails for a reason in the tokens. -/
def Candid (parser : Parser α) : Prop :=
  ∀ session failure after, parser session = .error failure after → after.overflow = none →
    failure.cause.isSyntactic = true

theorem Elementary.candid {parser : Parser α} (h : Elementary parser) : Candid parser := by
  intro session failure after hrun _
  cases h with
  | expect kind =>
    unfold Parser.expect orFail at hrun
    split at hrun
    · cases hrun
    · rename_i heq
      cases hrun
      simp only [Cursor.expect] at heq
      split at heq <;> cases heq
      rfl
  | fail cause h =>
    cases hrun
    exact h
  | failMissing what kinds =>
    cases hrun
    rfl
  | _ => cases hrun

theorem isSyntactic_exhausted {failure other : Failure} (h : failure.cause.isSyntactic = true)
    (hother : other.cause.isSyntactic = true) :
    (other.exhausted [failure]).cause.isSyntactic = true := by
  simp only [Failure.exhausted, List.foldl_cons, List.foldl_nil, Failure.further]
  split
  · exact h
  · split
    · rfl
    · exact hother

theorem Alike.candid (hsticky : ∀ rule, Sticky (scope.nested rule))
    (hscope : ∀ rule, Candid (scope.nested rule)) {parser parser' : Parser α}
    (h : Alike scope other parser parser') : Candid parser := by
  induction h with
  | elementary h => exact h.candid
  | pure value =>
    intro session failure after hrun
    cases hrun
  | @bind _ _ parser _ next _ _ _ ih ihnext =>
    intro session failure after hrun hnone
    cases hfirst : parser session with
    | error failure' after' =>
      rw [bind_of_error hfirst] at hrun
      cases hrun
      exact ih session failure after hfirst hnone
    | ok value after' =>
      rw [bind_of_ok hfirst] at hrun
      exact ihnext value after' failure after hrun hnone
  | @iterate _ step _ _ _ value ih =>
    intro session
    induction value, session using iterate_induction step with
    | h value session ihrounds =>
    intro failure after hrun hnone
    cases hstep : step value session with
    | error failure' after' =>
      rw [iterate_of_error hstep] at hrun
      cases hrun
      exact ih value session failure after hstep hnone
    | ok next? after' =>
      cases next? with
      | none =>
        rw [iterate_of_none hstep] at hrun
        cases hrun
      | some next =>
        by_cases hcloser : after'.remaining < session.remaining
        · rw [iterate_of_closer hstep hcloser] at hrun
          exact ihrounds next after' hstep hcloser failure after hrun hnone
        · rw [iterate_of_not_closer hstep hcloser] at hrun
          cases hrun
  | @attempt _ title parser _ _ ih =>
    intro session failure after hrun hnone
    cases hbody : parser session with
    | error failure' after' =>
      rw [attempt_of_error hbody] at hrun
      cases hrun
      exact ih session failure after' hbody hnone
    | ok value after' =>
      rw [attempt_of_ok hbody] at hrun
      cases hrun
  | @lookahead question _ _ ih =>
    intro session failure after hrun
    cases hbody : question session with
    | error failure' after' =>
      rw [lookahead_of_error hbody] at hrun
      cases hrun
    | ok answer after' =>
      rw [lookahead_of_ok hbody] at hrun
      cases hrun
  | @either _ _ _ title first _ next _ second _ rest _ hfirst _ hsecond _ ih ihnext ihsecond
      ihrest =>
    intro session failure after hrun hnone
    cases hbody : first session with
    | ok value after' =>
      rw [either_of_ok hbody] at hrun
      exact ihnext value after' failure after hrun hnone
    | error failure' after' =>
      cases hagain : second (rewound title scope.depth session after') with
      | ok value last =>
        rw [either_of_error_ok hbody hagain] at hrun
        exact ihrest value last failure after hrun hnone
      | error other last =>
        rw [either_of_error_error hbody hagain] at hrun
        cases hrun
        have hstart := (hsecond.sticky hsticky).overflow_eq_none
          ((leave_of_error hagain).symm ▸ hnone)
        exact isSyntactic_exhausted (ih session failure' after' hbody hstart)
          (ihsecond _ other after hagain hnone)
  | nested rule => exact hscope rule

/-! ### Under a higher limit -/

/-- Where a parser does not meet the limit, another one does the same. -/
def Refines (parser parser' : Parser α) : Prop :=
  ∀ session, (leave parser session).overflow = none → parser' session = parser session

theorem Alike.refines (hdepth : other.depth = scope.depth)
    (hsticky : ∀ rule, Sticky (scope.nested rule))
    (hscope : ∀ rule, Refines (scope.nested rule) (other.nested rule))
    {parser parser' : Parser α} (h : Alike scope other parser parser') :
    Refines parser parser' := by
  induction h with
  | elementary _ => exact fun _ _ ↦ rfl
  | pure value => exact fun _ _ ↦ rfl
  | @bind _ _ parser parser' next next' _ hnext ih ihnext =>
    intro session hnone
    cases hfirst : parser session with
    | error failure after =>
      rw [leave_of_error (bind_of_error hfirst next)] at hnone
      have hsame := ih session ((leave_of_error hfirst).symm ▸ hnone)
      rw [bind_of_error hfirst, bind_of_error (hsame.trans hfirst)]
    | ok value after =>
      rw [leave, bind_of_ok hfirst] at hnone
      have hbetween := ((hnext value).sticky hsticky).overflow_eq_none hnone
      have hsame := ih session ((leave_of_ok hfirst).symm ▸ hbetween)
      rw [bind_of_ok hfirst, bind_of_ok (hsame.trans hfirst)]
      exact ihnext value after hnone
  | @iterate _ step step' hloop h value ih =>
    intro session
    induction value, session using iterate_induction step with
    | h value session ihrounds =>
    intro hnone
    cases hstep : step value session with
    | error failure after =>
      rw [leave_of_error (iterate_of_error hstep)] at hnone
      have hsame := ih value session ((leave_of_error hstep).symm ▸ hnone)
      rw [iterate_of_error hstep, iterate_of_error (hsame.trans hstep)]
    | ok next? after =>
      cases next? with
      | none =>
        rw [leave_of_ok (iterate_of_none hstep)] at hnone
        have hsame := ih value session ((leave_of_ok hstep).symm ▸ hnone)
        rw [iterate_of_none hstep, iterate_of_none (hsame.trans hstep)]
      | some next =>
        by_cases hcloser : after.remaining < session.remaining
        · rw [leave, iterate_of_closer hstep hcloser] at hnone
          have hrounds := (Alike.iterate hloop h next).sticky hsticky
          have hsame := ih value session
            ((leave_of_ok hstep).symm ▸ hrounds.overflow_eq_none hnone)
          rw [iterate_of_closer hstep hcloser, iterate_of_closer (hsame.trans hstep) hcloser]
          exact ihrounds next after hstep hcloser hnone
        · rw [leave_of_ok (iterate_of_not_closer hstep hcloser)] at hnone
          have hsame := ih value session ((leave_of_ok hstep).symm ▸ hnone)
          rw [iterate_of_not_closer hstep hcloser,
            iterate_of_not_closer (hsame.trans hstep) hcloser]
  | @attempt _ title parser parser' _ ih =>
    intro session hnone
    cases hbody : parser session with
    | error failure after =>
      rw [leave_of_error (attempt_of_error hbody _ _)] at hnone
      have hsame := ih session ((leave_of_error hbody).symm ▸ hnone)
      rw [attempt_of_error hbody, attempt_of_error (hsame.trans hbody), hdepth]
    | ok value after =>
      rw [leave_of_ok (attempt_of_ok hbody _ _)] at hnone
      have hsame := ih session ((leave_of_ok hbody).symm ▸ hnone)
      rw [attempt_of_ok hbody, attempt_of_ok (hsame.trans hbody)]
  | @lookahead question question' _ ih =>
    intro session hnone
    cases hbody : question session with
    | error failure after =>
      rw [leave_of_ok (lookahead_of_error hbody)] at hnone
      have hsame := ih session ((leave_of_error hbody).symm ▸ hnone)
      rw [lookahead_of_error hbody, lookahead_of_error (hsame.trans hbody)]
    | ok answer after =>
      rw [leave_of_ok (lookahead_of_ok hbody)] at hnone
      have hsame := ih session ((leave_of_ok hbody).symm ▸ hnone)
      rw [lookahead_of_ok hbody, lookahead_of_ok (hsame.trans hbody)]
  | @either _ _ _ title first first' next next' second second' rest rest' hfirst hnext hsecond hrest
      ih ihnext ihsecond ihrest =>
    intro session hnone
    cases hbody : first session with
    | ok value after =>
      rw [leave, either_of_ok hbody] at hnone
      have hbetween := ((hnext value).sticky hsticky).overflow_eq_none hnone
      have hsame := ih session ((leave_of_ok hbody).symm ▸ hbetween)
      rw [either_of_ok hbody, either_of_ok (hsame.trans hbody)]
      exact ihnext value after hnone
    | error failure after =>
      cases hagain : second (rewound title scope.depth session after) with
      | ok value last =>
        rw [leave, either_of_error_ok hbody hagain] at hnone
        have hlast := ((hrest value).sticky hsticky).overflow_eq_none hnone
        have hleave : (leave second (rewound title scope.depth session after)).overflow = none :=
          (leave_of_ok hagain).symm ▸ hlast
        have hstart := (hsecond.sticky hsticky).overflow_eq_none hleave
        have hsame := ih session ((leave_of_error hbody).symm ▸ hstart)
        have hsameSecond := ihsecond _ hleave
        rw [either_of_error_ok hbody hagain, hdepth,
          either_of_error_ok (hsame.trans hbody) (hsameSecond.trans hagain)]
        exact ihrest value last hnone
      | error other last =>
        rw [leave_of_error (either_of_error_error hbody hagain)] at hnone
        have hleave : (leave second (rewound title scope.depth session after)).overflow = none :=
          (leave_of_error hagain).symm ▸ hnone
        have hstart := (hsecond.sticky hsticky).overflow_eq_none hleave
        have hsame := ih session ((leave_of_error hbody).symm ▸ hstart)
        have hsameSecond := ihsecond _ hleave
        rw [either_of_error_error hbody hagain, hdepth,
          either_of_error_error (hsame.trans hbody) (hsameSecond.trans hagain)]
  | nested rule => exact hscope rule

theorem leave_enter (title : String) (depth : Nat) (body : Parser α) (session : Session) :
    ∃ failure?, leave (enter title depth body) session =
      left title depth failure? (leave body (entered title depth session)) := by
  cases hbody : body (entered title depth session) with
  | ok value after =>
    rw [leave_of_ok (enter_of_ok hbody), leave_of_ok hbody]
    exact ⟨_, rfl⟩
  | error failure after =>
    rw [leave_of_error (enter_of_error hbody), leave_of_error hbody]
    exact ⟨_, rfl⟩

end Parser

/-! ### Rules -/

namespace Rule

open CorpusQuery.Parser

variable (limit : Nat)

/-- The scope in which the body of a rule is read that was entered with so much room left behind
it. -/
def inside (room : Nat) : Scope := ⟨limit - room, run limit room⟩

theorem run_succ (room : Nat) (rule : Rule) :
    rule.run limit (room + 1) = enter rule.title (limit - room) (rule.body (inside limit room)) :=
  rfl

theorem alike_inside (room : Nat) (rule : Rule) :
    Alike (inside limit room) (inside limit room) (rule.body (inside limit room))
      (rule.body (inside limit room)) :=
  rule.alike_body

theorem sticky_run (room : Nat) (rule : Rule) : Sticky (rule.run limit room) := by
  induction room generalizing rule with
  | zero =>
    intro session failure hoverflow
    simp only [run, leave, exceed, hoverflow]
    rfl
  | succ room ih =>
    intro session failure hoverflow
    obtain ⟨failure?, hleave⟩ := leave_enter rule.title (limit - room)
      (rule.body (inside limit room)) session
    rw [run_succ, hleave]
    exact (alike_inside limit room rule).sticky ih _ failure hoverflow

theorem blames_run (room : Nat) (rule : Rule) : Blames limit (rule.run limit room) := by
  induction room generalizing rule with
  | zero =>
    intro session failure hfailure
    simp only [run, leave, exceed] at hfailure
    cases hoverflow : session.overflow with
    | some earlier =>
      rw [hoverflow] at hfailure
      exact .inl hfailure
    | none =>
      rw [hoverflow] at hfailure
      cases hfailure
      exact .inr rfl
  | succ room ih =>
    intro session failure hfailure
    obtain ⟨failure?, hleave⟩ := leave_enter rule.title (limit - room)
      (rule.body (inside limit room)) session
    rw [run_succ, hleave] at hfailure
    exact (alike_inside limit room rule).blames ih (entered rule.title (limit - room) session)
      failure hfailure

theorem candid_run (room : Nat) (rule : Rule) : Candid (rule.run limit room) := by
  induction room generalizing rule with
  | zero =>
    intro session failure after hrun hnone
    cases hrun
    cases hoverflow : session.overflow <;> simp [hoverflow] at hnone
  | succ room ih =>
    intro session failure after hrun hnone
    rw [run_succ] at hrun
    cases hbody : rule.body (inside limit room) (entered rule.title (limit - room) session) with
    | ok value last =>
      rw [enter_of_ok hbody] at hrun
      cases hrun
    | error failure' last =>
      rw [enter_of_error hbody] at hrun
      cases hrun
      exact (alike_inside limit room rule).candid (sticky_run limit room) ih _ failure last hbody
        hnone

/-- A rule does the same under a higher limit unless it meets the lower one. -/
theorem refines_run (more room : Nat) (rule : Rule) :
    Refines (rule.run limit room) (rule.run (limit + more) (room + more)) := by
  induction room generalizing rule with
  | zero =>
    intro session hnone
    cases hoverflow : session.overflow <;> simp [run, leave, exceed, hoverflow] at hnone
  | succ room ih =>
    intro session hnone
    have hdepth : limit + more - (room + more) = limit - room := Nat.add_sub_add_right _ _ _
    have halike : Alike (inside limit room) (inside (limit + more) (room + more))
        (rule.body (inside limit room)) (rule.body (inside (limit + more) (room + more))) :=
      rule.alike_body
    obtain ⟨failure?, hleave⟩ := leave_enter rule.title (limit - room)
      (rule.body (inside limit room)) session
    rw [run_succ, hleave] at hnone
    have hsame := halike.refines hdepth (sticky_run limit room) ih _ hnone
    rw [Nat.add_right_comm, run_succ, run_succ, hdepth]
    cases hbody : rule.body (inside limit room) (entered rule.title (limit - room) session) with
    | ok value after => rw [enter_of_ok hbody, enter_of_ok (hsame.trans hbody)]
    | error failure after => rw [enter_of_error hbody, enter_of_error (hsame.trans hbody)]

end Rule

/-! ### Whole parses -/

namespace Entry

open CorpusQuery.Parser

variable (entry : Entry) (tokens : List Token)

/-- The failure at the nesting limit that a parse ends with, if it met the limit. -/
def overflow? (limit : Nat) : Option Failure :=
  (leave (entry.complete (.top limit)) (.ofTokens tokens)).overflow

theorem alike_top (limit : Nat) :
    Alike (.top limit) (.top limit) (entry.complete (.top limit)) (entry.complete (.top limit)) :=
  entry.alike_complete

variable {entry tokens}

/-- A parse that met the limit fails with the message of the limit. -/
theorem outcome_of_overflow {limit : Nat} {failure : Failure}
    (h : entry.overflow? tokens limit = some failure) :
    (entry.parse limit tokens).outcome = .error failure ∧
      failure.cause = .nestingLimit limit := by
  have hcause := (entry.alike_top limit).blames (Rule.blames_run limit limit)
    (.ofTokens tokens) failure h
  refine ⟨?_, hcause.resolve_left nofun⟩
  unfold overflow? leave at h
  unfold parse
  split <;> rename_i heq <;> rw [heq] at h <;> simp only at h <;> simp only [h]
  · rfl
  · rfl

/-- A parse that did not meet the limit fails, if it fails, for a reason in the tokens. -/
theorem isSyntactic_of_overflow_none {limit : Nat} {failure : Failure}
    (h : entry.overflow? tokens limit = none)
    (hfailure : (entry.parse limit tokens).outcome = .error failure) :
    failure.cause.isSyntactic = true := by
  unfold overflow? leave at h
  unfold parse at hfailure
  split at hfailure <;> rename_i heq <;> rw [heq] at h <;> simp only at h <;>
    simp only [h] at hfailure <;> cases hfailure
  have hcandid := (entry.alike_top limit).candid (Rule.sticky_run limit limit)
    (Rule.candid_run limit limit)
  exact hcandid (.ofTokens tokens) _ _ heq h

/-- A parse that did not meet the limit is the same parse under every higher limit. -/
theorem parse_of_overflow_none {limit : Nat} (h : entry.overflow? tokens limit = none)
    (more : Nat) :
    entry.overflow? tokens (limit + more) = none ∧
      entry.parse (limit + more) tokens = entry.parse limit tokens := by
  have halike : Alike (.top limit) (.top (limit + more)) (entry.complete (.top limit))
      (entry.complete (.top (limit + more))) := entry.alike_complete
  have hdepth : (Scope.top (limit + more)).depth = (Scope.top limit).depth := rfl
  have hsame := halike.refines hdepth (Rule.sticky_run limit limit)
    (Rule.refines_run limit more limit) (.ofTokens tokens) h
  constructor
  · rw [overflow?, leave, hsame]
    exact h
  · rw [parse, parse, hsame]

end Entry

end CorpusQuery
