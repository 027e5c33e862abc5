import CorpusQuery.Proofs.Coupling.Aligned

/-!
What stays away. A parse escapes when it meets the nesting limit or goes past a horizon, and every
parser of the grammar keeps it so (`Parser.Aloof`): this is what a coupling asks of the first parse
alone, so it composes without a second one. A question goes back to where it was asked, and a group
that was asked for beyond the horizon is found there again when it is read
(`Coupling.escapes_grouping`).
-/

set_option autoImplicit false
set_option relaxedAutoImplicit false

namespace CorpusQuery

open CorpusQuery.Grammar

/-- What holds of every token ahead holds of those that are left when one is passed. -/
theorem Session.forall_passed {holds : Token → Prop} {session : Session}
    (h : ∀ token ∈ session.cursor.here :: session.cursor.ahead, holds token) :
    ∀ token ∈ session.passed.cursor.here :: session.passed.cursor.ahead, holds token := by
  change ∀ token ∈ session.cursor.advance.here :: session.cursor.advance.ahead, holds token
  cases hahead : session.cursor.ahead with
  | nil => rwa [Cursor.advance_of_nil hahead]
  | cons next rest =>
    rw [Cursor.advance_of_cons hahead]
    exact fun token htoken ↦ h token (List.mem_cons_of_mem _ (hahead ▸ htoken))

/-- Of two failures the further one is reported, so it starts no earlier than either. -/
theorem Failure.le_start_exhausted {failure other : Failure} {bound : Nat}
    (h : bound ≤ failure.token.span.start ∨ bound ≤ other.token.span.start) :
    bound ≤ (other.exhausted [failure]).token.span.start := by
  simp only [Failure.exhausted, List.foldl_cons, List.foldl_nil, Failure.further, Failure.merge]
  split
  · omega
  · split
    · split <;> dsimp only <;> omega
    · omega

namespace Coupling

open CorpusQuery.Parser

variable {c : Coupling} {α β : Type}

/-- A run that ends behind the horizon stays there. -/
theorem Ahead.bind {parser : Parser α} {next : α → Parser β} {session : Session}
    (h : c.Ahead (parser session))
    (hnext : ∀ value after, c.past after.cursor.toPlace → c.Ahead (next value after)) :
    c.Ahead ((parser >>= next) session) := by
  refine Coupled.bind_keeps (fun after ↦ c.past after.cursor.toPlace) c.Ahead
    (fun value after hrun ↦ ?_)
    (fun failure after hrun ↦ ?_) hnext
  all_goals
    rw [hrun] at h
    exact h

theorem Ahead.enter {title : String} {depth : Nat} {body : Parser α} {session : Session}
    (h : c.Ahead (body (entered title depth session))) :
    c.Ahead (enter title depth body session) := by
  cases hrun : body (entered title depth session) with
  | ok value after =>
    rw [hrun] at h
    rwa [enter_of_ok hrun]
  | error failure after =>
    rw [hrun] at h
    rwa [enter_of_error hrun]

end Coupling

namespace Parser

variable {α β γ : Type} {c : Coupling}

/-- What has escaped before the parser is run has escaped behind it. -/
structure Aloof (c : Coupling) (parser : Parser α) : Prop where
  sticky : ∀ session, c.spent session.overflow → c.spent (Coupling.final (parser session)).overflow
  forward : ∀ session, c.past session.cursor.toPlace → c.Ahead (parser session)

namespace Aloof

variable {parser : Parser α} {next : α → Parser β}

theorem escapes (h : Aloof c parser) {session : Session}
    (hescaped : c.spent session.overflow ∨ c.past session.cursor.toPlace) :
    c.Escapes (parser session) :=
  hescaped.imp (h.sticky session) (h.forward session)

theorem of_coupled {δ : Type} {given : Place → Prop} {view : α → δ} {parser' : Parser α}
    (h : Coupled c given view parser parser') : Aloof c parser :=
  ⟨h.sticky, h.forward⟩

theorem pure (value : α) : Aloof c (pure value) := ⟨fun _ h ↦ h, fun _ h ↦ h⟩

theorem of_elementary (hc : c.Lawful) (h : Elementary parser) : Aloof c parser := by
  cases h with
  | look view => exact ⟨fun _ h ↦ h, fun _ h ↦ h⟩
  | check kind => exact ⟨fun _ h ↦ h, fun _ h ↦ h⟩
  | checkAny kinds => exact ⟨fun _ h ↦ h, fun _ h ↦ h⟩
  | expecting kinds => exact ⟨fun _ h ↦ h, fun _ h ↦ h⟩
  | advance => exact ⟨fun _ h ↦ h, hc.past_passed⟩
  | consume kind => exact .of_coupled (Coupled.consume hc : Coupled c Anywhere _ _ _)
  | expect kind => exact .of_coupled (Coupled.expect hc : Coupled c Anywhere _ _ _)
  | fail cause => exact ⟨fun _ h ↦ h, fun session ↦ hc.beyond_fail session cause⟩
  | failMissing what kinds =>
    exact ⟨fun _ h ↦ h, fun session ↦ hc.beyond_fail (session.tested kinds) _⟩
  | consumeAny kinds =>
    refine ⟨fun session h ↦ ?_, fun session h ↦ ?_⟩
    · cases hkind : kinds.contains session.cursor.kind with
      | true => rwa [consumeAny_of_contains hkind]
      | false => rwa [consumeAny_of_not_contains hkind]
    · cases hkind : kinds.contains session.cursor.kind with
      | true =>
        rw [consumeAny_of_contains hkind]
        exact hc.past_passed (session.tested kinds) h
      | false => rwa [consumeAny_of_not_contains hkind]

theorem bind (h : Aloof c parser) (hnext : ∀ value, Aloof c (next value)) :
    Aloof c (parser >>= next) where
  sticky session hspent := by
    have hsticky := h.sticky session hspent
    refine Coupled.bind_keeps (fun after ↦ c.spent after.overflow)
      (fun result ↦ c.spent (Coupling.final result).overflow) (fun value after hrun ↦ ?_)
      (fun failure after hrun ↦ ?_) fun value ↦ (hnext value).sticky
    all_goals rwa [hrun] at hsticky
  forward session hpast := Coupling.Ahead.bind (h.forward session hpast) fun value ↦
    (hnext value).forward

theorem map (f : α → β) (h : Aloof c parser) : Aloof c (f <$> parser) := by
  rw [map_eq_pure_bind]
  exact h.bind fun _ ↦ .pure _

theorem ite {condition : Prop} [Decidable condition] {yes no : Parser α} (hyes : Aloof c yes)
    (hno : Aloof c no) : Aloof c (if condition then yes else no) := by
  split
  · exact hyes
  · exact hno

theorem iterate {step : α → Parser (Option α)} (h : ∀ value, Aloof c (step value)) (value : α) :
    Aloof c (iterate step value) :=
  ⟨Coupled.iterate_sticky (fun value ↦ (h value).sticky) value,
    Coupled.iterate_forward (fun value ↦ (h value).forward) value⟩

theorem attempt {title : String} {depth : Nat} (h : Aloof c parser) :
    Aloof c (attempt title depth parser) := by
  constructor
  all_goals intro session hescaped
  · have hrun := h.sticky session hescaped
    cases hresult : parser session with
    | ok value after => rwa [attempt_of_ok hresult, ← hresult]
    | error failure after =>
      rw [hresult] at hrun
      rwa [attempt_of_error hresult]
  · have hrun := h.forward session hescaped
    cases hresult : parser session with
    | ok value after => rwa [attempt_of_ok hresult, ← hresult]
    | error failure after =>
      rw [hresult] at hrun
      rwa [attempt_of_error hresult]

theorem lookahead {question : Parser Bool} (h : Aloof c question) :
    Aloof c (lookahead question) := by
  constructor
  all_goals intro session hescaped
  · have hrun := h.sticky session hescaped
    cases hresult : question session with
    | ok answer after =>
      rw [hresult] at hrun
      rwa [lookahead_of_ok hresult]
    | error failure after =>
      rw [hresult] at hrun
      rwa [lookahead_of_error hresult]
  · cases hresult : question session with
    | ok answer after => rwa [lookahead_of_ok hresult]
    | error failure after => rwa [lookahead_of_error hresult]

theorem either (hc : c.Lawful) {title : String} {depth : Nat} {first : Parser α}
    {next : α → Parser γ} {second : Parser β} {rest : β → Parser γ} (hfirst : Aloof c first)
    (hnext : ∀ value, Aloof c (next value)) (hsecond : Aloof c second)
    (hrest : ∀ value, Aloof c (rest value)) :
    Aloof c (either title depth first next second rest) where
  sticky session hspent := by
    have hsticky := hfirst.sticky session hspent
    refine Coupled.either_keeps (fun after ↦ c.spent after.overflow)
      (fun result ↦ c.spent (Coupling.final result).overflow) (fun value after hrun ↦ ?_)
      (fun value ↦ (hnext value).sticky) (fun failure after hrun ↦ ?_)
      fun value ↦ (hrest value).sticky
    · rwa [hrun] at hsticky
    · rw [hrun] at hsticky
      have hagain := hsecond.sticky (rewound title depth session after) hsticky
      split <;> rename_i hrun' <;> rwa [hrun'] at hagain
  forward session hpast := by
    have hforward := hfirst.forward session hpast
    refine Coupled.either_keeps (fun after ↦ c.past after.cursor.toPlace) c.Ahead
      (fun value after hrun ↦ ?_) (fun value ↦ (hnext value).forward)
      (fun failure after hrun ↦ ?_) fun value ↦ (hrest value).forward
    · rwa [hrun] at hforward
    · have hagain := hsecond.forward (rewound title depth session after) hpast
      split <;> rename_i hrun' <;> rw [hrun'] at hagain
      · exact hagain
      · exact hc.beyond_exhausted (.inr hagain)

theorem enter {title : String} {depth : Nat} (h : Aloof c parser) :
    Aloof c (enter title depth parser) where
  sticky session hspent := by
    have hrun := h.sticky (entered title depth session) hspent
    cases hresult : parser (entered title depth session) with
    | ok value after => rw [hresult] at hrun; rwa [enter_of_ok hresult]
    | error failure after => rw [hresult] at hrun; rwa [enter_of_error hresult]
  forward session hpast := Coupling.Ahead.enter (h.forward (entered title depth session) hpast)

end Aloof

/-- A construction over rules that stay away stays away. -/
theorem Alike.aloof (hc : c.Lawful) {scope other : Scope} {parser parser' : Parser α}
    (h : Alike scope other parser parser') (hs : ∀ rule, Aloof c (scope.nested rule)) :
    Aloof c parser := by
  induction h with
  | elementary h => exact .of_elementary hc h
  | pure value => exact .pure value
  | bind _ _ ih ihnext => exact ih.bind ihnext
  | iterate _ _ value ih => exact .iterate ih value
  | attempt _ _ ih => exact ih.attempt
  | lookahead _ ih => exact ih.lookahead
  | either _ _ _ _ _ ih ihnext ihsecond ihrest => exact .either hc ih ihnext ihsecond ihrest
  | nested rule => exact hs rule

end Parser

open CorpusQuery.Parser

theorem Rule.aloof_run {c : Coupling} (hc : c.Lawful)
    (hspent : ∀ overflow, c.spent overflow ↔ overflow ≠ none) (limit room : Nat) (rule : Rule) :
    Aloof c (rule.run limit room) := by
  induction room generalizing rule with
  | zero => exact .of_coupled (Coupling.cutoff_of_spent hc hspent limit limit 0 rule)
  | succ room ih => exact .enter ((Rule.alike_inside limit room rule).aloof hc ih)

theorem Rule.aloof_inside {c : Coupling} (hc : c.Lawful)
    (hspent : ∀ overflow, c.spent overflow ↔ overflow ≠ none) {limit room : Nat} {α : Type}
    {parser : Parser α}
    (h : Alike (inside limit room) (inside limit room) parser parser) : Aloof c parser :=
  h.aloof hc (aloof_run hc hspent limit room)

namespace Coupling

variable {c : Coupling} {α β : Type} {parser : Parser α} {next : α → Parser β} {session : Session}

/-- What escapes in the first part of a sequence has escaped. -/
theorem Escapes.bind (h : c.Escapes (parser session)) (hnext : ∀ value, Aloof c (next value)) :
    c.Escapes ((parser >>= next) session) := by
  cases hrun : parser session with
  | ok value after =>
    rw [hrun] at h
    rw [bind_of_ok hrun]
    exact (hnext value).escapes h
  | error failure after =>
    rw [hrun] at h
    rw [bind_of_error hrun]
    exact h

theorem Escapes.map {f : α → β} (h : c.Escapes (parser session)) :
    c.Escapes ((f <$> parser) session) := by
  rw [map_eq_pure_bind]
  exact h.bind fun _ ↦ .pure _

theorem Escapes.phraseFrom {category : Category} {start : Nat} {body : Parser (Draft category)}
    (h : c.Escapes (body session)) : c.Escapes (phraseFrom start body session) :=
  h.bind fun _ ↦ .bind ⟨fun _ h ↦ h, fun _ h ↦ h⟩ fun _ ↦ .pure _

theorem Escapes.enter {title : String} {depth : Nat}
    (h : c.Escapes (parser (entered title depth session))) :
    c.Escapes (enter title depth parser session) := by
  cases hrun : parser (entered title depth session) with
  | ok value after =>
    rw [hrun] at h
    rwa [enter_of_ok hrun]
  | error failure after =>
    rw [hrun] at h
    rwa [enter_of_error hrun]

theorem Escapes.attempt {title : String} {depth : Nat} (h : c.Escapes (parser session)) :
    c.Escapes (attempt title depth parser session) := by
  cases hrun : parser session with
  | ok value after =>
    rw [hrun] at h
    rwa [attempt_of_ok hrun]
  | error failure after =>
    rw [hrun] at h
    rwa [attempt_of_error hrun]

/-- A loop whose first round escapes has escaped. -/
theorem Escapes.iterate {step : α → Parser (Option α)} {value : α}
    (h : c.Escapes (step value session)) (hstep : ∀ value, Aloof c (step value)) :
    c.Escapes (iterate step value session) := by
  cases hrun : step value session with
  | error failure after =>
    rw [hrun] at h
    rwa [iterate_of_error hrun]
  | ok next? after =>
    rw [hrun] at h
    cases next? with
    | none => rwa [iterate_of_none hrun]
    | some next =>
      by_cases hcloser : after.remaining < session.remaining
      · rw [iterate_of_closer hrun hcloser]
        exact (Aloof.iterate hstep next).escapes h
      · rwa [iterate_of_not_closer hrun hcloser]

theorem escapes_exceed (hspent : ∀ overflow, c.spent overflow ↔ overflow ≠ none) (limit : Nat) :
    c.Escapes ((exceed limit : Parser α) session) := by
  refine .inl ((hspent _).mpr ?_)
  change (session.overflow <|> some _) ≠ none
  cases session.overflow <;> exact Option.some_ne_none _

end Coupling

/-! ### Groups -/

namespace Grammar

variable {scope other : Scope}

theorem alike_nodesBehind (node : Phrase .node) :
    Alike scope other (nodesBehind scope node) (nodesBehind other node) := by
  refine .bind alike_atEdge fun _ ↦
    .ite (.bind (.pure _) fun _ ↦ ?_) (.bind (.elementary (.check _)) fun _ ↦ ?_)
  all_goals
    refine .ite ?_ (.pure _)
    refine .bind (alike_elementFrom node) fun _ ↦
      .bind (.many (.behind .element) (.behind _ ?_)) fun _ ↦ .pure _
    exact .bind (.nested _) fun source ↦ alike_elementFrom source

theorem alike_nodeBody (quantifier : Option (Phrase .quantifier)) :
    Alike scope other (nodeBody scope quantifier) (nodeBody other quantifier) :=
  .bind (.elementary (.expect _)) fun _ ↦ .bind alike_label? fun _ ↦
    .bind alike_markedContent fun _ ↦ .pure _

theorem alike_groupBody (quantifier : Option (Phrase .quantifier)) :
    Alike scope other (groupBody scope quantifier) (groupBody other quantifier) :=
  .bind (.elementary (.expect _)) fun _ ↦ .bind alike_nodeStatements fun _ ↦
    .bind (.elementary (.expect _)) fun _ ↦ .pure _

end Grammar

namespace Coupling

variable {c : Coupling} {session : Session}

/-- A quantifier is read again as the question for a group has read it. -/
theorem escapes_quantifier? {start : Place} {session copy : Session} (hclosed : start.Closed)
    (hbegins : start.Begins session.cursor.toPlace)
    (hplace : copy.cursor.toPlace = session.cursor.toPlace)
    (hkind : quantifierStart.contains session.cursor.kind = true)
    (hsame : ∀ failure failure' : Failure, failure'.token = failure.token → c.beyond failure →
      c.beyond failure')
    (h : c.Ahead (groupQuestion session)) : c.Escapes (quantifier? copy) := by
  have hfound : quantifierStart.contains copy.cursor.kind = true := by
    rw [show copy.cursor.kind = session.cursor.kind from congrArg Place.kind hplace]
    exact hkind
  have hchecked : checkAny quantifierStart copy = .ok true (copy.tested quantifierStart) := by
    rw [← hfound]
    rfl
  rw [quantifier?, bind_of_ok hchecked, if_pos rfl]
  have htested : (copy.tested quantifierStart).cursor.toPlace = session.cursor.toPlace := hplace
  refine .map (.inr ?_)
  rcases quantifier_reread hclosed hbegins htested with
    ⟨value, after, value', after', hrun, hrun', hafter⟩ |
      ⟨failure, after, failure', after', hrun, hrun', htoken⟩
  · rw [groupQuestion, bind_of_ok hrun] at h
    rw [hrun']
    change c.past after'.cursor.toPlace
    rw [hafter]
    exact h
  · rw [groupQuestion, bind_of_error hrun] at h
    rw [hrun']
    exact hsame failure failure' htoken h

/-- Nodes that begin with a quantifier that escapes escape with it. -/
theorem escapes_nodes (hc : c.Lawful) (hspent : ∀ overflow, c.spent overflow ↔ overflow ≠ none)
    (limit room : Nat) {session : Session}
    (hkind : quantifierStart.contains session.cursor.kind = true)
    (h : ∀ copy : Session, copy.cursor.toPlace = session.cursor.toPlace →
      c.Escapes (quantifier? copy)) :
    c.Escapes (nodes (Rule.inside limit room) session) := by
  refine Escapes.bind ?_ fun node ↦
    Rule.aloof_inside hc hspent (alike_nodesBehind node)
  cases room with
  | zero => exact escapes_exceed hspent limit
  | succ room =>
    refine .enter (.phraseFrom ?_)
    have hdummy : dummyAt? (entered Rule.node.title (limit - room) session).cursor.toPlace =
        none := by
      rw [dummyAt?, if_neg]
      rintro ⟨hbracket, -⟩
      rw [show session.cursor.kind = _ from hbracket] at hkind
      cases hkind
    rw [bind_look, hdummy]
    exact (h (entered Rule.node.title (limit - room) session) rfl).bind fun quantifier ↦
      Rule.aloof_inside hc hspent (alike_nodeBody quantifier)

/-- Whatever the question for a group has escaped in, what follows the answer escapes in. -/
theorem escapes_grouping (hc : c.Lawful)
    (hspent : ∀ overflow, c.spent overflow ↔ overflow ≠ none)
    (hsame : ∀ failure failure' : Failure, failure'.token = failure.token → c.beyond failure →
      c.beyond failure')
    (limit room : Nat) {start : Place} (hclosed : start.Closed)
    (hbegins : start.Begins session.cursor.toPlace)
    (hkind : quantifierStart.contains session.cursor.kind = true)
    (h : c.Escapes (groupQuestion session)) :
    c.Escapes ((lookahead groupQuestion >>= groupedOrNot (Rule.inside limit room)) session) := by
  have hgrouped (answer : Bool) :
      Aloof c (groupedOrNot (Rule.inside limit room) answer) :=
    Rule.aloof_inside hc hspent (.ite alike_grouping alike_nodes)
  rcases h with hover | hahead
  · cases hrun : groupQuestion session with
    | error failure after =>
      rw [hrun] at hover
      rw [bind_of_ok (lookahead_of_error hrun)]
      exact (hgrouped false).escapes (.inl hover)
    | ok answer after =>
      rw [hrun] at hover
      rw [bind_of_ok (lookahead_of_ok hrun)]
      exact (hgrouped answer).escapes (.inl hover)
  have hquantifier (copy : Session) (hplace : copy.cursor.toPlace = session.cursor.toPlace) :
      c.Escapes (quantifier? copy) :=
    escapes_quantifier? hclosed hbegins hplace hkind hsame hahead
  have hnext (answer : Bool) (after : Session) :
      c.Escapes (groupedOrNot (Rule.inside limit room) answer (answered session after)) := by
    cases answer with
    | false => exact escapes_nodes hc hspent limit room hkind fun copy ↦ hquantifier copy
    | true =>
      exact (hquantifier (answered session after) rfl).bind fun quantifier ↦
        Rule.aloof_inside hc hspent (alike_groupBody quantifier)
  cases hrun : groupQuestion session with
  | error failure after =>
    rw [bind_of_ok (lookahead_of_error hrun)]
    exact hnext false after
  | ok answer after =>
    rw [bind_of_ok (lookahead_of_ok hrun)]
    exact hnext answer after

end Coupling

end CorpusQuery
