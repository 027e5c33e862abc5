import CorpusQuery.Proofs.Coupling.Basic

/-!
Repetition and choice in coupled parses. Loops go on alike because each of their rounds does, and a
round that goes on has come closer to the end in both parses. A choice is where a coupling can
break: its first reading may fail behind the horizon in the one parse and go on in the other. The
parse as a whole has then escaped, provided that the second reading, where it succeeds, comes as far
as the first one did (`Coupling.Drops`).
-/

set_option autoImplicit false
set_option relaxedAutoImplicit false

namespace CorpusQuery

open CorpusQuery.Grammar

/-- If the first reading of a choice fails behind the horizon and the second one succeeds, the
second one ends behind the horizon as well. -/
def Coupling.Drops {α β : Type} (c : Coupling) (first : Parser α) (second : Parser β) : Prop :=
  ∀ title depth session copy failure after value last, c.sessions session copy →
    first session = .error failure after → c.beyond failure →
      second (Parser.rewound title depth session after) = .ok value last →
        c.past last.cursor.toPlace

namespace Parser.Coupled

variable {α β γ δ ε ζ : Type} {c : Coupling} {given : Place → Prop} {view : α → δ} {view' : β → ε}

/-! ### Phrases -/

section Phrases

variable (hc : c.Lawful) {category : Category} {body body' : Parser (Draft category)}

include hc

theorem phraseFrom {start start' : Nat} (hstart : c.blur start = c.blur start')
    (h : Coupled c given (Draft.blurred c.blur) body body') :
    Coupled c given (Tree.blurred c.blur) (Parser.phraseFrom start body)
      (Parser.phraseFrom start' body') := by
  refine h.bind fun draft draft' hdraft ↦ ?_
  refine (look hc c.blur fun _ _ _ hsees ↦ hsees.stop).bind fun stop stop' hstop ↦ .pure ?_
  obtain ⟨form, parts⟩ := draft
  obtain ⟨form', parts'⟩ := draft'
  rw [Draft.blurred, Draft.blurred, Draft.mk.injEq] at hdraft
  obtain ⟨rfl, hparts⟩ := hdraft
  rw [Tree.blurred, Tree.blurred, eq_of_heq hparts, Span.blurred, Span.blurred, hstart, hstop]

theorem phrase (h : Coupled c given (Draft.blurred c.blur) body body') :
    Coupled c given (Tree.blurred c.blur) (Parser.phrase body) (Parser.phrase body') := by
  refine (look hc c.blur fun _ _ _ hsees ↦ hsees.start).bind_given
    (fun _ ↦ given) ?_ fun start start' hstart ↦ phraseFrom hc hstart h
  intro session copy start after _ hplace hrun
  cases hrun
  exact hplace

theorem behind {kind : Kind} {parser parser' : Parser α}
    (h : Coupled c Anywhere view parser parser') :
    Coupled c given (Option.map view) (Parser.behind kind parser) (Parser.behind kind parser') := by
  refine (consume hc).bind_same fun found ↦ .ite (h.map view fun _ _ hvalue ↦ ?_) (.pure rfl)
  rw [Option.map_some, Option.map_some, hvalue]

end Phrases

/-! ### Repetition -/

section Repetition

variable {step step' : α → Parser (Option α)} {item item' : Parser (Option α)}

/-- A loop none of whose rounds ever stands still. -/
def Advancing (step : α → Parser (Option α)) : Prop :=
  ∀ value next session after, session.cursor.Closed → step value session = .ok (some next) after →
    after.remaining < session.remaining

theorem iterate_keeps (kept : Session → Prop) (kept' : EStateM.Result Failure Session α → Prop)
    (hstep : ∀ value session, kept session → match step value session with
      | .ok none after => kept' (.ok value after)
      | .ok (some next) after => kept after ∧ kept' (.ok next after)
      | .error failure after => kept' (.error failure after))
    (value : α) (session : Session) (hkept : kept session) :
    kept' (Parser.iterate step value session) := by
  induction value, session using iterate_induction step with
  | h value session ih =>
  have hround := hstep value session hkept
  cases hrun : step value session with
  | error failure after =>
    rw [hrun] at hround
    rwa [iterate_of_error hrun]
  | ok next? after =>
    cases next? with
    | none =>
      rw [hrun] at hround
      rwa [iterate_of_none hrun]
    | some next =>
      rw [hrun] at hround
      by_cases hcloser : after.remaining < session.remaining
      · rw [iterate_of_closer hrun hcloser]
        exact ih next after hrun hcloser hround.1
      · rw [iterate_of_not_closer hrun hcloser]
        exact hround.2

theorem iterate_sticky
    (hstep : ∀ value session, c.spent session.overflow →
      c.spent (Coupling.final (step value session)).overflow)
    (value : α) (session : Session) (hspent : c.spent session.overflow) :
    c.spent (Coupling.final (Parser.iterate step value session)).overflow := by
  refine iterate_keeps (fun after ↦ c.spent after.overflow)
    (fun result ↦ c.spent (Coupling.final result).overflow) (fun value session hspent ↦ ?_)
    value session hspent
  have hsticky := hstep value session hspent
  split <;> rename_i hrun <;> rw [hrun] at hsticky
  · exact hsticky
  · exact ⟨hsticky, hsticky⟩
  · exact hsticky

theorem iterate_forward
    (hstep : ∀ value session, c.past session.cursor.toPlace → c.Ahead (step value session))
    (value : α) (session : Session) (hpast : c.past session.cursor.toPlace) :
    c.Ahead (Parser.iterate step value session) := by
  refine iterate_keeps (fun after ↦ c.past after.cursor.toPlace) c.Ahead
    (fun value session hpast ↦ ?_) value session hpast
  have hforward := hstep value session hpast
  split <;> rename_i hrun <;> rw [hrun] at hforward
  · exact hforward
  · exact ⟨hforward, hforward⟩
  · exact hforward

theorem iterate (hc : c.Lawful) (hcloser : Advancing step) (hcloser' : Advancing step')
    (hstep : ∀ value value', view value = view value' →
      Coupled c Anywhere (Option.map view) (step value) (step' value'))
    {value value' : α} (hvalue : view value = view value') :
    Coupled c given view (Parser.iterate step value) (Parser.iterate step' value') := by
  have hsticky := iterate_sticky fun value ↦ (hstep value value rfl).sticky
  have hforward := iterate_forward fun value ↦ (hstep value value rfl).forward
  refine ⟨hsticky value, hforward value, fun session copy hsessions hplace ↦ ?_⟩
  clear hplace
  induction value, session using iterate_induction step generalizing value' copy with
  | h value session ih =>
  obtain ⟨hclosed, hclosed'⟩ := hc.closed hsessions
  have hround := (hstep value value' hvalue).follows session copy hsessions trivial
  cases hrun : step value session with
  | error failure after =>
    rw [hrun] at hround
    rw [iterate_of_error hrun]
    refine hround.imp_right fun hagrees ↦ ?_
    generalize hrun' : step' value' copy = result' at hagrees
    cases hagrees with
    | error hfailure hafter =>
      rw [iterate_of_error hrun']
      exact .error hfailure hafter
  | ok next? after =>
    rw [hrun] at hround
    cases next? with
    | none =>
      rw [iterate_of_none hrun]
      refine hround.imp_right fun hagrees ↦ ?_
      generalize hrun' : step' value' copy = result' at hagrees
      cases hagrees with
      | @ok _ next?' _ _ hnext hafter =>
        obtain rfl : next?' = none := Option.map_eq_none_iff.mp hnext.symm
        rw [iterate_of_none hrun']
        exact .ok hvalue hafter
    | some next =>
      have hclose := hcloser _ _ _ _ hclosed hrun
      rw [iterate_of_closer hrun hclose]
      rcases hround with hescapes | hagrees
      · exact .inl (hescapes.imp (hsticky next after) (hforward next after))
      · generalize hrun' : step' value' copy = result' at hagrees
        cases hagrees with
        | @ok _ next?' _ after' hnext hafter =>
          obtain ⟨next', rfl, hview⟩ := Option.map_eq_some_iff.mp hnext.symm
          rw [iterate_of_closer hrun' (hcloser' _ _ _ _ hclosed' hrun')]
          exact ih next after hrun hclose hview.symm after' hafter

variable {scope other : Scope}

theorem many (hc : c.Lawful) (hscope : scope.Progressive) (hother : other.Progressive)
    (hitem : Repeated scope item) (hitem' : Repeated other item')
    (h : Coupled c Anywhere (Option.map view) item item') :
    Coupled c given (List.map view) (Parser.many item) (Parser.many item') := by
  have hloop : Coupled c given (List.map view)
      (Parser.iterate (fun items ↦ do return (← item).map (· :: items)) [])
      (Parser.iterate (fun items ↦ do return (← item').map (· :: items)) []) := by
    refine iterate hc (fun _ _ _ _ ↦ hscope.loops (.items hitem))
      (fun _ _ _ _ ↦ hother.loops (.items hitem')) (fun values values' hvalues ↦ ?_) rfl
    refine h.bind fun value? value?' hvalue ↦ .pure ?_
    cases value? <;> cases value?' <;> simp_all
  refine hloop.bind fun values values' hvalues ↦ .pure ?_
  rw [List.map_reverse, List.map_reverse, hvalues]

theorem separatedBy (hc : c.Lawful) (hscope : scope.Progressive) (hother : other.Progressive)
    {separator : Kind} {parser parser' : Parser α} (hparser : Separated scope separator parser)
    (hparser' : Separated other separator parser') (h : Coupled c Anywhere view parser parser') :
    Coupled c given (List.map view) (Parser.separatedBy separator parser)
      (Parser.separatedBy separator parser') := by
  refine h.anywhere.bind fun first first' hfirst ↦
    (many hc hscope hother (.behind hparser) (.behind hparser') (behind hc h)).bind
      fun others others' hothers ↦ .pure ?_
  rw [List.map_cons, List.map_cons, hfirst, hothers]

end Repetition

/-! ### Choice -/

theorem attempt (hc : c.Lawful) (title : String) (depth depth' : Nat) {parser parser' : Parser α}
    (h : Coupled c given view parser parser') :
    Coupled c given view (Parser.attempt title depth parser)
      (Parser.attempt title depth' parser') where
  sticky session hspent := by
    have hsticky := h.sticky session hspent
    cases hrun : parser session with
    | ok value after =>
      rw [hrun] at hsticky
      rwa [attempt_of_ok hrun]
    | error failure after =>
      rw [hrun] at hsticky
      rwa [attempt_of_error hrun]
  forward session hpast := by
    have hforward := h.forward session hpast
    cases hrun : parser session with
    | ok value after =>
      rw [hrun] at hforward
      rwa [attempt_of_ok hrun]
    | error failure after =>
      rw [hrun] at hforward
      rwa [attempt_of_error hrun]
  follows session copy hsessions hplace := by
    have hfollows := h.follows session copy hsessions hplace
    cases hrun : parser session with
    | ok value after =>
      rw [hrun] at hfollows
      rw [attempt_of_ok hrun]
      refine hfollows.imp_right fun hagrees ↦ ?_
      generalize hrun' : parser' copy = result' at hagrees
      cases hagrees with
      | ok hvalue hafter =>
        rw [attempt_of_ok hrun']
        exact .ok hvalue hafter
    | error failure after =>
      rw [hrun] at hfollows
      rw [attempt_of_error hrun]
      refine hfollows.imp_right fun hagrees ↦ ?_
      generalize hrun' : parser' copy = result' at hagrees
      cases hagrees with
      | error hfailure hafter =>
        rw [attempt_of_error hrun']
        exact .error hfailure (hc.rewound title depth depth' hsessions hafter)

section Either

variable {title : String} {depth depth' : Nat} {first first' : Parser α}
  {next next' : α → Parser γ} {second second' : Parser β} {rest rest' : β → Parser γ}
  {view₁ : α → δ} {view₂ : β → ε} {view₃ : γ → ζ}

theorem either_keeps (kept : Session → Prop) (kept' : EStateM.Result Failure Session γ → Prop)
    {session : Session}
    (hfirst : ∀ value after, first session = .ok value after → kept after)
    (hnext : ∀ value after, kept after → kept' (next value after))
    (hsecond : ∀ failure after, first session = .error failure after →
      match second (rewound title depth session after) with
      | .ok _ last => kept last
      | .error other last => kept' (.error (other.exhausted [failure]) last))
    (hrest : ∀ value last, kept last → kept' (rest value last)) :
    kept' (Parser.either title depth first next second rest session) := by
  cases hrun : first session with
  | ok value after =>
    rw [either_of_ok hrun]
    exact hnext value after (hfirst value after hrun)
  | error failure after =>
    have hagain := hsecond failure after hrun
    cases hrun' : second (rewound title depth session after) with
    | ok value last =>
      rw [hrun'] at hagain
      rw [either_of_error_ok hrun hrun']
      exact hrest value last hagain
    | error other last =>
      rw [hrun'] at hagain
      rw [either_of_error_error hrun hrun']
      exact hagain

theorem either (hc : c.Lawful) (hdrops : c.Drops first second)
    (hfirst : Coupled c given view₁ first first')
    (hnext : ∀ value value', view₁ value = view₁ value' →
      Coupled c Anywhere view₃ (next value) (next' value'))
    (hsecond : Coupled c given view₂ second second')
    (hrest : ∀ value value', view₂ value = view₂ value' →
      Coupled c Anywhere view₃ (rest value) (rest' value')) :
    Coupled c given view₃ (Parser.either title depth first next second rest)
      (Parser.either title depth' first' next' second' rest') where
  sticky session hspent := by
    have hsticky := hfirst.sticky session hspent
    refine either_keeps (fun after ↦ c.spent after.overflow)
      (fun result ↦ c.spent (Coupling.final result).overflow) (fun value after hrun ↦ ?_)
      (fun value ↦ (hnext value value rfl).sticky) (fun failure after hrun ↦ ?_)
      fun value ↦ (hrest value value rfl).sticky
    · rwa [hrun] at hsticky
    · rw [hrun] at hsticky
      have hagain := hsecond.sticky (rewound title depth session after) hsticky
      split <;> rename_i hrun' <;> rwa [hrun'] at hagain
  forward session hpast := by
    have hforward := hfirst.forward session hpast
    refine either_keeps (fun after ↦ c.past after.cursor.toPlace) c.Ahead
      (fun value after hrun ↦ ?_) (fun value ↦ (hnext value value rfl).forward)
      (fun failure after hrun ↦ ?_) fun value ↦ (hrest value value rfl).forward
    · rwa [hrun] at hforward
    · have hagain := hsecond.forward (rewound title depth session after) hpast
      split <;> rename_i hrun' <;> rw [hrun'] at hagain
      · exact hagain
      · exact hc.beyond_exhausted (.inr hagain)
  follows session copy hsessions hplace := by
    have hfollows := hfirst.follows session copy hsessions hplace
    cases hrun : first session with
    | ok value after =>
      rw [hrun] at hfollows
      rw [either_of_ok hrun]
      rcases hfollows with hescapes | hagrees
      · exact .inl ((hnext value value rfl).escapes hescapes)
      · generalize hrun' : first' copy = result' at hagrees
        cases hagrees with
        | ok hvalue hafter =>
          rw [either_of_ok hrun']
          exact (hnext _ _ hvalue).follows _ _ hafter trivial
    | error failure after =>
      rw [hrun] at hfollows
      rcases hfollows with (hspent | hbeyond) | hagrees
      · refine .inl (.inl ?_)
        have hagain := hsecond.sticky (rewound title depth session after) hspent
        cases hrun' : second (rewound title depth session after) with
        | ok value last =>
          rw [hrun'] at hagain
          rw [either_of_error_ok hrun hrun']
          exact (hrest value value rfl).sticky last hagain
        | error other last =>
          rw [hrun'] at hagain
          rw [either_of_error_error hrun hrun']
          exact hagain
      · refine .inl (.inr ?_)
        cases hrun' : second (rewound title depth session after) with
        | ok value last =>
          rw [either_of_error_ok hrun hrun']
          exact (hrest value value rfl).forward last
            (hdrops title depth session copy failure after value last hsessions hrun hbeyond hrun')
        | error other last =>
          rw [either_of_error_error hrun hrun']
          exact hc.beyond_exhausted (.inl hbeyond)
      · generalize hrun' : first' copy = result' at hagrees
        cases hagrees with
        | @error _ failure' _ after' hfailure hafter =>
        have hback := hc.rewound title depth depth' hsessions hafter
        have hagain := hsecond.follows _ _ hback hplace
        cases hagain' : second (rewound title depth session after) with
        | ok value last =>
          rw [hagain'] at hagain
          rw [either_of_error_ok hrun hagain']
          rcases hagain with hescapes | hagrees
          · exact .inl ((hrest value value rfl).escapes hescapes)
          · generalize hsecond' : second' (rewound title depth' copy after') = result' at hagrees
            cases hagrees with
            | ok hvalue hlast =>
              rw [either_of_error_ok hrun' hsecond']
              exact (hrest _ _ hvalue).follows _ _ hlast trivial
        | error other last =>
          rw [hagain'] at hagain
          rw [either_of_error_error hrun hagain']
          rcases hagain with (hspent | hbeyond) | hagrees
          · exact .inl (.inl hspent)
          · exact .inl (.inr (hc.beyond_exhausted (.inr hbeyond)))
          · generalize hsecond' : second' (rewound title depth' copy after') = result' at hagrees
            cases hagrees with
            | error hother hlast =>
              rw [either_of_error_error hrun' hsecond']
              exact .inr (.error (hc.exhausted hfailure hother) hlast)

end Either

/-! ### Questions and rules -/

/-- A question that is answered by a reading, and what follows it. If the reading escapes, what
follows has to escape as well, since the question itself goes back. -/
theorem lookahead_then (hc : c.Lawful) {question question' : Parser Bool}
    {next next' : Bool → Parser β} (h : Coupled c given id question question')
    (hnext : ∀ answer, Coupled c given view' (next answer) (next' answer))
    (hescapes : ∀ session copy, c.sessions session copy → given session.cursor.toPlace →
      c.Ahead (question session) → c.Escapes ((Parser.lookahead question >>= next) session)) :
    Coupled c given view' (Parser.lookahead question >>= next)
      (Parser.lookahead question' >>= next') := by
  refine ⟨fun session hspent ↦ ?_, fun session hpast ↦ ?_, fun session copy hsessions hplace ↦ ?_⟩
  · have hsticky := h.sticky session hspent
    cases hrun : question session with
    | ok answer after =>
      rw [hrun] at hsticky
      rw [bind_of_ok (lookahead_of_ok hrun)]
      exact (hnext answer).sticky (answered session after) hsticky
    | error failure after =>
      rw [hrun] at hsticky
      rw [bind_of_ok (lookahead_of_error hrun)]
      exact (hnext false).sticky (answered session after) hsticky
  · cases hrun : question session with
    | ok answer after =>
      rw [bind_of_ok (lookahead_of_ok hrun)]
      exact (hnext answer).forward (answered session after) hpast
    | error failure after =>
      rw [bind_of_ok (lookahead_of_error hrun)]
      exact (hnext false).forward (answered session after) hpast
  · rcases h.follows session copy hsessions hplace with (hspent | hahead) | hagrees
    · refine .inl (.inl ?_)
      cases hrun : question session with
      | ok answer after =>
        rw [hrun] at hspent
        rw [bind_of_ok (lookahead_of_ok hrun)]
        exact (hnext answer).sticky (answered session after) hspent
      | error failure after =>
        rw [hrun] at hspent
        rw [bind_of_ok (lookahead_of_error hrun)]
        exact (hnext false).sticky (answered session after) hspent
    · exact .inl (hescapes session copy hsessions hplace hahead)
    · generalize hrun : question session = result, hrun' : question' copy = result' at hagrees
      cases hagrees with
      | @ok answer answer' after after' hanswer hafter =>
        obtain rfl : answer = answer' := hanswer
        rw [bind_of_ok (lookahead_of_ok hrun), bind_of_ok (lookahead_of_ok hrun')]
        exact (hnext answer).follows _ _ (hc.answered hsessions hafter) hplace
      | error hfailure hafter =>
        rw [bind_of_ok (lookahead_of_error hrun), bind_of_ok (lookahead_of_error hrun')]
        exact (hnext false).follows _ _ (hc.answered hsessions hafter) hplace

/-- A rule is left as it was entered. -/
theorem enter (hc : c.Lawful) {title : String} {depth depth' : Nat} {body body' : Parser α}
    (h : Coupled c given view body body') :
    Coupled c given view (Parser.enter title depth body) (Parser.enter title depth' body') where
  sticky session hspent := by
    have hsticky := h.sticky (entered title depth session) hspent
    cases hrun : body (entered title depth session) with
    | ok value after =>
      rw [hrun] at hsticky
      rwa [enter_of_ok hrun]
    | error failure after =>
      rw [hrun] at hsticky
      rwa [enter_of_error hrun]
  forward session hpast := by
    have hforward := h.forward (entered title depth session) hpast
    cases hrun : body (entered title depth session) with
    | ok value after =>
      rw [hrun] at hforward
      rwa [enter_of_ok hrun]
    | error failure after =>
      rw [hrun] at hforward
      rwa [enter_of_error hrun]
  follows session copy hsessions hplace := by
    have hentered : c.sessions (entered title depth session) (entered title depth' copy) :=
      hc.traced _ _ hsessions
    have hfollows := h.follows _ _ hentered hplace
    cases hrun : body (entered title depth session) with
    | ok value after =>
      rw [hrun] at hfollows
      rw [enter_of_ok hrun]
      refine hfollows.imp_right fun hagrees ↦ ?_
      generalize hrun' : body' (entered title depth' copy) = result' at hagrees
      cases hagrees with
      | ok hvalue hafter =>
        rw [enter_of_ok hrun']
        exact .ok hvalue (hc.traced _ _ hafter)
    | error failure after =>
      rw [hrun] at hfollows
      rw [enter_of_error hrun]
      refine hfollows.imp_right fun hagrees ↦ ?_
      generalize hrun' : body' (entered title depth' copy) = result' at hagrees
      cases hagrees with
      | error hfailure hafter =>
        rw [enter_of_error hrun']
        exact .error hfailure (hc.traced _ _ hafter)

end Parser.Coupled

end CorpusQuery
