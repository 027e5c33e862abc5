import CorpusQuery.Proofs.Nesting.Limit
import CorpusQuery.Proofs.Spelling.Ready

/-!
A parse and its copy. `Parser.Mirrors` relates two runs of a parser: one over the tokens of a query,
and one over printed tokens that spell the same wordings. If the first run returns a value, then the
tokens it passed spell what the value adds to the wordings, and the second run returns a value that
differs at most in its spans. What follows behind the value is left open: whatever wordings the rest
of the tokens spells, the copy spells them as well.
-/

set_option autoImplicit false
set_option relaxedAutoImplicit false

namespace CorpusQuery

namespace Draft

variable {category : Category}

/-- What a draft says, wherever it stands in the text. -/
def bare (draft : Draft category) : Phrase category := .phrase draft.form .zero draft.parts.bare

def wordings (draft : Draft category) : List Wording :=
  draft.form.layout.opening ++ draft.parts.write draft.form.layout.frames

end Draft

namespace Parser

variable {α β γ δ ε : Type}

/-- From a session on, a parser adds to the wordings read so far what the tokens it passes spell,
and another parser does the same on every copy, with a value that looks alike. The wordings behind
are such that `after` holds of them; then `before` holds of the wordings from the session on. -/
def Mirrors (session : Session) (before after : List Wording → Prop) (sofar : List Wording)
    (view : α → δ) (parser parser' : Parser α) (wordings : α → List Wording) : Prop :=
  Closing session.rest → ∀ value last, parser session = .ok value last →
    Closing last.rest ∧ (last.overflow = none → session.overflow = none ∧
      ∃ added, wordings value = sofar ++ added ∧
        ∀ later, Spells later last.rest → Spells (added ++ later) session.rest ∧
          (after later → before (added ++ later) ∧
            ∀ copy, Ready session copy (added ++ later) → ∃ value' last',
              parser' copy = .ok value' last' ∧ view value = view value' ∧
                Ready last last' later))

namespace Mirrors

variable {session : Session} {before middle after hold : List Wording → Prop}
  {sofar : List Wording} {view : α → δ} {parser parser' : Parser α} {wordings : α → List Wording}

/-! ### Sequence -/

theorem of_error (h : ∀ value last, parser session ≠ .ok value last) :
    Mirrors session before after sofar view parser parser' wordings :=
  fun _ value last hrun ↦ absurd hrun (h value last)

/-- What there is to show may depend on the run. -/
theorem of_run (h : Closing session.rest → ∀ value last, parser session = .ok value last →
    Mirrors session before after sofar view parser parser' wordings) :
    Mirrors session before after sofar view parser parser' wordings :=
  fun hclosing value last hrun ↦ h hclosing value last hrun hclosing value last hrun

theorem pure {value value' : α} (hwordings : wordings value = sofar)
    (hview : view value = view value') (hafter : ∀ later, after later → before later) :
    Mirrors session before after sofar view (pure value) (pure value') wordings := by
  intro hclosing _ _ hrun
  cases hrun
  refine ⟨hclosing, fun hnone ↦ ⟨hnone, [], by rw [hwordings, List.append_nil], ?_⟩⟩
  intro later hlater
  exact ⟨hlater, fun h ↦ ⟨hafter later h, fun copy hcopy ↦ ⟨value', copy, rfl, hview, hcopy⟩⟩⟩

/-- A value at the end of a construction. -/
theorem done {value value' : α} (hwordings : wordings value = sofar)
    (hview : view value = view value') :
    Mirrors session hold hold sofar view (Pure.pure value) (Pure.pure value') wordings :=
  pure hwordings hview fun _ ↦ id

/-- A run goes on behind the value of its first part, and its copies behind any value that looks
alike. -/
theorem bind_onto {next next' : α → Parser β} {view' : β → ε} {wordings' : β → List Wording}
    {ahead start : List Wording} (hsofar : sofar = ahead ++ start)
    (h : Mirrors session before middle start view parser parser' wordings)
    (hnext : ∀ value value' last, parser session = .ok value last → view value = view value' →
      Mirrors last middle after (ahead ++ wordings value) view' (next value) (next' value')
        wordings') :
    Mirrors session before after sofar view' (parser >>= next) (parser' >>= next')
      wordings' := by
  intro hclosing result last hrun
  cases hfirst : parser session with
  | error failure between =>
    rw [bind_of_error hfirst] at hrun
    cases hrun
  | ok value between =>
    rw [bind_of_ok hfirst] at hrun
    obtain ⟨hbetween, hadded⟩ := h hclosing value between hfirst
    obtain ⟨hlast, hadded'⟩ := hnext value value between hfirst rfl hbetween result last hrun
    refine ⟨hlast, fun hnone ↦ ?_⟩
    obtain ⟨hnone', added', hwordings', hrest'⟩ := hadded' hnone
    obtain ⟨hstart, added, hwordings, hrest⟩ := hadded hnone'
    refine ⟨hstart, added ++ added', ?_, fun later hlater ↦ ?_⟩
    · rw [hwordings', hwordings, hsofar, List.append_assoc, List.append_assoc, List.append_assoc]
    obtain ⟨hspells', hcopies'⟩ := hrest' later hlater
    obtain ⟨hspells, hcopies⟩ := hrest (added' ++ later) hspells'
    rw [List.append_assoc]
    refine ⟨hspells, fun hafter ↦ ?_⟩
    obtain ⟨hmiddle, -⟩ := hcopies' hafter
    obtain ⟨hbefore, hcopy⟩ := hcopies hmiddle
    refine ⟨hbefore, fun copy hready ↦ ?_⟩
    obtain ⟨value', between', hrun', hview, hready'⟩ := hcopy copy hready
    obtain ⟨-, hagain⟩ := hnext value value' between hfirst hview hbetween result last hrun
    obtain ⟨-, added'', hwordings'', hrest''⟩ := hagain hnone
    rw [hwordings', List.append_cancel_left_eq] at hwordings''
    subst hwordings''
    obtain ⟨result', last', hrun'', hresult⟩ :=
      ((hrest'' later hlater).2 hafter).2 between' hready'
    exact ⟨result', last', (bind_of_ok hrun' next').trans hrun'', hresult⟩

theorem bind_of_run {next next' : α → Parser β} {view' : β → ε} {wordings' : β → List Wording}
    (h : Mirrors session before middle [] view parser parser' wordings)
    (hnext : ∀ value value' last, parser session = .ok value last → view value = view value' →
      Mirrors last middle after (sofar ++ wordings value) view' (next value) (next' value')
        wordings') :
    Mirrors session before after sofar view' (parser >>= next) (parser' >>= next')
      wordings' :=
  bind_onto (List.append_nil sofar).symm h hnext

theorem bind {next next' : α → Parser β} {view' : β → ε} {wordings' : β → List Wording}
    (h : Mirrors session before middle [] view parser parser' wordings)
    (hnext : ∀ value value' last, view value = view value' →
      Mirrors last middle after (sofar ++ wordings value) view' (next value) (next' value')
        wordings') :
    Mirrors session before after sofar view' (parser >>= next) (parser' >>= next')
      wordings' :=
  h.bind_of_run fun value value' last _ ↦ hnext value value' last

/-- A value that is the same for the copies. -/
theorem bind_same {next next' : α → Parser β} {view' : β → ε} {wordings' : β → List Wording}
    (h : Mirrors session before middle [] id parser parser' wordings)
    (hnext : ∀ value last, Mirrors last middle after (sofar ++ wordings value) view' (next value)
      (next' value) wordings') :
    Mirrors session before after sofar view' (parser >>= next) (parser' >>= next')
      wordings' := by
  refine h.bind fun value value' last hvalue ↦ ?_
  obtain rfl : value = value' := hvalue
  exact hnext value last

theorem weaken {before' after' : List Wording → Prop}
    (h : Mirrors session before after sofar view parser parser' wordings)
    (hbefore : ∀ later, before later → before' later)
    (hafter : ∀ later, after' later → after later) :
    Mirrors session before' after' sofar view parser parser' wordings := by
  intro hclosing value last hrun
  obtain ⟨hlast, hadded⟩ := h hclosing value last hrun
  refine ⟨hlast, fun hnone ↦ ?_⟩
  obtain ⟨hstart, added, hwordings, hrest⟩ := hadded hnone
  refine ⟨hstart, added, hwordings, fun later hlater ↦ ?_⟩
  obtain ⟨hspells, hcopies⟩ := hrest later hlater
  exact ⟨hspells, fun h ↦ (hcopies (hafter later h)).imp_left (hbefore _)⟩

/-- What is known of the wordings from the session on also tells that the tokens spell them and that
the copies are read. -/
theorem reads (h : Mirrors session before after [] view parser parser' wordings) :
    Mirrors session
      (fun ahead ↦ before ahead ∧ Spells ahead session.rest ∧
        ∀ copy, Ready session copy ahead → ∃ value' last' later,
          parser' copy = .ok value' last' ∧ after later ∧ Printed later last'.rest)
      after [] view parser parser' wordings := by
  intro hclosing value last hrun
  obtain ⟨hlast, hadded⟩ := h hclosing value last hrun
  refine ⟨hlast, fun hnone ↦ ?_⟩
  obtain ⟨hstart, added, hwordings, hrest⟩ := hadded hnone
  refine ⟨hstart, added, hwordings, fun later hlater ↦ ?_⟩
  obtain ⟨hspells, hcopies⟩ := hrest later hlater
  refine ⟨hspells, fun hafter ↦ ?_⟩
  obtain ⟨hbefore, hcopy⟩ := hcopies hafter
  refine ⟨⟨hbefore, hspells, fun copy hready ↦ ?_⟩, hcopy⟩
  obtain ⟨value', last', hrun', -, hready'⟩ := hcopy copy hready
  exact ⟨value', last', later, hrun', hafter, hready'.printed⟩

/-- A value may be seen and worded in another way, as long as the wordings stay the same. -/
theorem map {f : α → β} {view' : β → ε} {wordings' : β → List Wording}
    (h : Mirrors session before after sofar view parser parser' wordings)
    (hwordings : ∀ value, wordings' (f value) = wordings value)
    (hview : ∀ value value', view value = view value' → view' (f value) = view' (f value')) :
    Mirrors session before after sofar view' (f <$> parser) (f <$> parser') wordings' := by
  rw [map_eq_pure_bind, map_eq_pure_bind]
  exact bind_onto (List.nil_append sofar).symm h fun value value' _ _ hvalue ↦
    pure (hwordings value) (hview value value' hvalue) fun _ ↦ id

/-- A value may be seen in another way that tells no more apart. -/
theorem see {view' : α → ε} {wordings' : α → List Wording}
    (h : Mirrors session before after sofar view parser parser' wordings)
    (hwordings : ∀ value, wordings' value = wordings value)
    (hview : ∀ value value', view value = view value' → view' value = view' value') :
    Mirrors session before after sofar view' parser parser' wordings' := by
  have hseen := h.map (f := id) hwordings hview
  rwa [id_map, id_map] at hseen

/-- A value that comes behind the wordings read so far. -/
theorem onto {wordings' : α → List Wording}
    (h : Mirrors session before after [] view parser parser' wordings)
    (hwordings : ∀ value, wordings' value = sofar ++ wordings value) :
    Mirrors session before after sofar view parser parser' wordings' := by
  intro hclosing value last hrun
  obtain ⟨hlast, hadded⟩ := h hclosing value last hrun
  refine ⟨hlast, fun hnone ↦ ?_⟩
  obtain ⟨hstart, added, hadded, hrest⟩ := hadded hnone
  exact ⟨hstart, added, by rw [hwordings, hadded, List.nil_append], hrest⟩

theorem map_onto {f : α → β} {view' : β → ε} {wordings' : β → List Wording}
    (h : Mirrors session before after [] view parser parser' wordings)
    (hwordings : ∀ value, wordings' (f value) = sofar ++ wordings value)
    (hview : ∀ value value', view value = view value' → view' (f value) = view' (f value')) :
    Mirrors session before after sofar view' (f <$> parser) (f <$> parser') wordings' :=
  map (onto h hwordings) (fun _ ↦ rfl) hview

/-! ### Looking -/

/-- A question that leaves the session where it is has answers for the session and for its copies
that agree. -/
theorem inquire {question : Parser β} {answer : β} {asked : Session} {next next' : β → Parser α}
    (agree : β → β → Prop) (hrun : question session = .ok answer asked)
    (hstill : session.Still asked) (hself : agree answer answer)
    (hcopy : ∀ copy later, Closing session.rest → Spells later session.rest → before later →
      Ready session copy later → ∃ answer' asked', question copy = .ok answer' asked' ∧
        copy.Still asked' ∧ agree answer answer')
    (hnext : ∀ seen, agree answer seen →
      Mirrors asked before after sofar view (next answer) (next' seen) wordings) :
    Mirrors session before after sofar view (question >>= next) (question >>= next') wordings := by
  intro hclosing value last hresult
  rw [bind_of_ok hrun] at hresult
  obtain ⟨hlast, hadded⟩ := hnext answer hself (hstill.closing hclosing) value last hresult
  refine ⟨hlast, fun hnone ↦ ?_⟩
  obtain ⟨hstart, added, hwordings, hcopies⟩ := hadded hnone
  rw [hstill.overflow] at hstart
  refine ⟨hstart, added, hwordings, fun later hlater ↦ ?_⟩
  obtain ⟨hspells, hcopies⟩ := hcopies later hlater
  rw [hstill.rest] at hspells
  refine ⟨hspells, fun hafter ↦ ?_⟩
  obtain ⟨hbefore, -⟩ := hcopies hafter
  refine ⟨hbefore, fun copy hready ↦ ?_⟩
  obtain ⟨answer', asked', hrun', hstill', hagree⟩ := hcopy copy _ hclosing hspells hbefore hready
  obtain ⟨-, hagain⟩ := hnext answer' hagree (hstill.closing hclosing) value last hresult
  obtain ⟨-, added', hwordings', hcopies'⟩ := hagain hnone
  rw [hwordings, List.append_cancel_left_eq] at hwordings'
  subst hwordings'
  obtain ⟨value', last', hresult', hvalue⟩ :=
    ((hcopies' later hlater).2 hafter).2 asked' (hstill.ready hstill' hready)
  exact ⟨value', last', (bind_of_ok hrun' next').trans hresult', hvalue⟩

theorem look {see : Place → β} {next next' : β → Parser α} (agree : β → β → Prop)
    (hself : agree (see session.cursor.toPlace) (see session.cursor.toPlace))
    (hagree : ∀ copy later, Closing session.rest → Spells later session.rest → before later →
      Ready session copy later → agree (see session.cursor.toPlace) (see copy.cursor.toPlace))
    (hnext : ∀ seen, agree (see session.cursor.toPlace) seen →
      Mirrors session before after sofar view (next (see session.cursor.toPlace)) (next' seen)
        wordings) :
    Mirrors session before after sofar view (Parser.look see >>= next) (Parser.look see >>= next')
      wordings :=
  inquire agree rfl (.refl _) hself
    (fun copy later hclosing hspells hbefore hready ↦
      ⟨_, copy, rfl, .refl _, hagree copy later hclosing hspells hbefore hready⟩) hnext

/-- Something seen at the place is the same for the copies. -/
theorem look_same {see : Place → β} {next next' : β → Parser α}
    (hsame : ∀ copy later, Closing session.rest → Spells later session.rest → before later →
      Ready session copy later → see session.cursor.toPlace = see copy.cursor.toPlace)
    (hnext : Mirrors session before after sofar view (next (see session.cursor.toPlace))
      (next' (see session.cursor.toPlace)) wordings) :
    Mirrors session before after sofar view (Parser.look see >>= next) (Parser.look see >>= next')
      wordings :=
  look Eq rfl hsame fun _ hseen ↦ hseen ▸ hnext

/-- A test for a kind without synonyms answers the same for a copy. -/
theorem check {kind : Kind} {next next' : Bool → Parser α} (hkind : kind.isSynonym = false)
    (hbefore : ∀ later, before later → Settled later)
    (hnext : Mirrors (session.tested (.single kind)) before after sofar view
      (next (session.cursor.kind == kind)) (next' (session.cursor.kind == kind)) wordings) :
    Mirrors session before after sofar view (Parser.check kind >>= next)
      (Parser.check kind >>= next') wordings := by
  refine inquire Eq rfl (.tested _ _) rfl (fun copy later _ hspells h hready ↦ ?_)
    fun _ hseen ↦ hseen ▸ hnext
  refine ⟨_, _, rfl, .tested _ _, ?_⟩
  refine (hbefore later h).kind_eq (· == kind) (fun synonym ↦ ?_) hspells hready.printed
  obtain ⟨hother, husual⟩ := Kind.ne_of_isSynonym hkind synonym
  rw [beq_false_of_ne hother, beq_false_of_ne husual]

/-- A test for two kinds in a row answers the same for a copy. -/
theorem check_two {first second : Kind} {yes yes' no no' : Parser α}
    (hfirst : first.isSynonym = false) (hsecond : second.isSynonym = false)
    (hend : second ≠ .endOfInput)
    (hargument : first.leadsArgument = true → second.beginsArgument = false)
    (hbefore : ∀ later, before later → Settled later)
    (hyes : session.cursor.kind = first → session.cursor.peekKind 1 = second →
      Mirrors (session.tested (.single first)) before after sofar view yes yes' wordings)
    (hno : Mirrors (session.tested (.single first)) before after sofar view no no' wordings) :
    Mirrors session before after sofar view
      (do
        let isFirst ← Parser.check first
        let isSecond ← Parser.look (·.peekKind 1 == second)
        if isFirst && isSecond then yes else no)
      (do
        let isFirst ← Parser.check first
        let isSecond ← Parser.look (·.peekKind 1 == second)
        if isFirst && isSecond then yes' else no') wordings := by
  let question : Parser Bool := do
    let isFirst ← Parser.check first
    let isSecond ← Parser.look (·.peekKind 1 == second)
    Pure.pure (isFirst && isSecond)
  have hquestion (yes no : Parser α) :
      (do
        let isFirst ← Parser.check first
        let isSecond ← Parser.look (·.peekKind 1 == second)
        if isFirst && isSecond then yes else no) =
        question >>= fun found ↦ if found then yes else no := by
    simp only [question, bind_assoc, pure_bind]
  have hrun (session : Session) : question session =
      .ok (session.cursor.kind == first && session.cursor.peekKind 1 == second)
        (session.tested (.single first)) := rfl
  rw [hquestion, hquestion]
  refine inquire Eq (hrun session) (.tested _ _) rfl
    (fun copy later hclosing hspells h hready ↦ ?_) ?_
  · refine ⟨_, _, hrun copy, .tested _ _, ?_⟩
    rw [Bool.eq_iff_iff, Bool.and_eq_true, Bool.and_eq_true, beq_iff_eq, beq_iff_eq, beq_iff_eq,
      beq_iff_eq]
    exact hready.two_kinds (hbefore later h) hspells hclosing hfirst hsecond hend hargument
  · rintro _ rfl
    cases hfound : session.cursor.kind == first && session.cursor.peekKind 1 == second with
    | false => exact hno
    | true =>
      rw [Bool.and_eq_true, beq_iff_eq, beq_iff_eq] at hfound
      exact hyes hfound.1 hfound.2

/-- A test for kinds that does not tell synonyms apart answers the same for a copy. -/
theorem checkAny {kinds : KindSet} {next next' : Bool → Parser α} (hkinds : kinds.isFair = true)
    (hbefore : ∀ later, before later → Plain later)
    (hnext : Mirrors (session.tested kinds) before after sofar view
      (next (kinds.contains session.cursor.kind)) (next' (kinds.contains session.cursor.kind))
      wordings) :
    Mirrors session before after sofar view (Parser.checkAny kinds >>= next)
      (Parser.checkAny kinds >>= next') wordings := by
  refine inquire Eq rfl (.tested _ _) rfl (fun copy later _ hspells h hready ↦ ?_)
    fun _ hseen ↦ hseen ▸ hnext
  exact ⟨_, _, rfl, .tested _ _, (hbefore later h).contains_eq hkinds hspells hready.printed⟩

/-! ### Passing tokens -/

/-- A parser that stays where it is. -/
theorem of_still {noted : Session} {value : α} (hstill : session.Still noted)
    (hrun : parser session = .ok value noted) (hwordings : wordings value = [])
    (hcopy : ∀ copy later, after later → Spells later session.rest → Ready session copy later →
      ∃ value' noted', parser' copy = .ok value' noted' ∧ copy.Still noted' ∧
        view value = view value')
    (hbefore : ∀ later, after later → before later) :
    Mirrors session before after [] view parser parser' wordings := by
  intro hclosing result last hresult
  rw [hrun] at hresult
  cases hresult
  refine ⟨hstill.closing hclosing, fun hnone ↦ ⟨hstill.overflow ▸ hnone, [], hwordings, ?_⟩⟩
  intro later hlater
  rw [hstill.rest] at hlater
  refine ⟨hlater, fun hafter ↦ ⟨hbefore later hafter, fun copy hready ↦ ?_⟩⟩
  obtain ⟨value', noted', hrun', hstill', hview⟩ := hcopy copy later hafter hlater hready
  exact ⟨value', noted', hrun', hview, hstill.ready hstill' hready⟩

/-- A parser that passes one token, which is a wording on its own. -/
theorem of_pass {noted : Session} {wording : Wording} {value : α} (hstill : session.Still noted)
    (hrun : parser session = .ok value noted.passed) (hword : wording.Says session.cursor.here)
    (hkind : session.cursor.kind ≠ .endOfInput) (hwordings : wordings value = [wording])
    (hcopy : ∀ copy : Session, wording.usual = [copy.cursor.here.lexeme] → ∃ value' noted',
      parser' copy = .ok value' noted'.passed ∧ copy.Still noted' ∧ view value = view value')
    (hbefore : ∀ later, after later → before (wording :: later)) :
    Mirrors session before after [] view parser parser' wordings := by
  intro hclosing result last hresult
  rw [hrun] at hresult
  cases hresult
  have hword' : wording.Says noted.cursor.here := by
    rw [hstill.place]
    exact hword
  have hkind' : noted.cursor.kind ≠ .endOfInput := by
    rw [hstill.place]
    exact hkind
  obtain ⟨hlast, hpass⟩ := hword'.pass (hstill.closing hclosing) hkind'
  refine ⟨hlast, fun hnone ↦ ⟨hstill.overflow ▸ hnone, [wording], hwordings, ?_⟩⟩
  intro later hlater
  obtain ⟨hspells, hcopies⟩ := hpass later hlater
  rw [hstill.rest] at hspells
  refine ⟨hspells, fun hafter ↦ ⟨hbefore later hafter, fun copy hready ↦ ?_⟩⟩
  obtain ⟨husual, -⟩ := hcopies copy (hstill.ready (.refl _) hready)
  obtain ⟨value', noted', hrun', hstill', hview⟩ := hcopy copy husual
  exact ⟨value', _, hrun', hview, (hcopies noted' (hstill.ready hstill' hready)).2⟩

/-- A parser that passes the tokens of one wording. -/
theorem of_chunk {wording : Wording} {way : List Lexeme} {chunk : List Token} {value : α}
    {last : Session} (hrun : parser session = .ok value last) (hpasses : session.Passes chunk last)
    (hway : way ∈ wording.ways) (hchunk : Written way chunk)
    (hkind : way.getLast?.map (·.kind.canonical) =
      wording.usual.getLast?.map (·.kind.canonical))
    (hwordings : wordings value = [wording])
    (hcopy : ∀ copy chunk' rest, copy.rest = chunk' ++ rest → Closing copy.rest →
      Written wording.usual chunk' → Apart chunk' rest → ∃ value' last',
        parser' copy = .ok value' last' ∧ copy.Passes chunk' last' ∧ view value = view value')
    (hbefore : ∀ later, after later → before (wording :: later)) :
    Mirrors session before after [] view parser parser' wordings := by
  intro hclosing _ _ hresult
  rw [hrun] at hresult
  cases hresult
  refine ⟨hpasses.closing hclosing,
    fun hnone ↦ ⟨hpasses.overflow ▸ hnone, [wording], hwordings, ?_⟩⟩
  intro later hlater
  refine ⟨hpasses.rest ▸ .cons hway hchunk hlater, fun hafter ↦ ⟨hbefore later hafter, ?_⟩⟩
  intro copy hready
  obtain ⟨chunk', rest, hrest, hchunk', hgap, hprinted⟩ := hready.printed.uncons
  obtain ⟨value', last', hrun', hpasses', hview⟩ :=
    hcopy copy chunk' rest hrest hready.closing hchunk' hgap
  have hsame : last'.rest = rest := by
    rw [hpasses'.rest, List.append_cancel_left_eq] at hrest
    exact hrest
  refine ⟨value', last', hrun', hview, hpasses'.overflow.trans hready.overflow, ?_,
    hpasses'.closing hready.closing, hsame.symm ▸ hprinted⟩
  have hne : way ≠ [] := by
    rintro rfl
    rw [List.getLast?_nil, Option.map_none, eq_comm, Option.map_eq_none_iff,
      List.getLast?_eq_none_iff] at hkind
    exact wording.usual_ne_nil hkind
  rw [hpasses'.previous_eq hchunk' wording.usual_ne_nil, hpasses.previous_eq hchunk hne, hkind]

theorem advance {wording : Wording} (hword : wording.Says session.cursor.here)
    (hkind : session.cursor.kind ≠ .endOfInput)
    (hbefore : ∀ later, after later → before (wording :: later)) :
    Mirrors session before after [] (fun _ ↦ ()) Parser.advance Parser.advance
      fun _ ↦ [wording] :=
  of_pass (.refl _) rfl hword hkind rfl (fun copy _ ↦ ⟨_, copy, rfl, .refl _, rfl⟩) hbefore

/-- A token without a text of its own that has been seen. -/
theorem advance_mark {kind : Kind} (h : session.cursor.kind = kind)
    (hkind : kind ≠ .endOfInput) (htext : kind.hasText = false)
    (hbefore : ∀ later, after later → before (.lexeme kind "" :: later)) :
    Mirrors session before after [] (fun _ ↦ ()) Parser.advance Parser.advance
      fun _ ↦ [.lexeme kind ""] :=
  advance (Wording.says_mark h htext) (h ▸ hkind) hbefore

/-- A token with a text of its own that has been seen. -/
theorem advance_text {kind : Kind} (h : session.cursor.kind = kind) (htext : kind.hasText = true)
    (hbefore : ∀ text later, after later → before (.lexeme kind text :: later)) :
    Mirrors session before after [] Token.text Parser.advance Parser.advance
      fun token ↦ [.lexeme kind token.text] := by
  refine of_pass (.refl _) rfl (Token.wording_of_hasText h htext ▸ Token.says_wording _) ?_ rfl
    (fun copy husual ↦ ?_) (hbefore _)
  · rw [h]
    rintro rfl
    cases htext
  · obtain ⟨-, htext'⟩ := Token.of_lexeme_eq htext (List.singleton_inj.mp husual).symm
    exact ⟨_, copy, rfl, .refl _, htext'.symm⟩

/-- A token without a text of its own that has to be of a kind. -/
theorem expect_mark {kind : Kind} (hkind : kind ≠ .endOfInput) (htext : kind.hasText = false)
    (hbefore : ∀ later, after later → before (.lexeme kind "" :: later)) :
    Mirrors session before after [] (fun _ ↦ ()) (Parser.expect kind) (Parser.expect kind)
      fun _ ↦ [.lexeme kind ""] := by
  by_cases h : session.cursor.kind = kind
  · refine of_pass (.tested _ _) (expect_of_kind h) (Wording.says_mark h htext) (h ▸ hkind) rfl
      (fun copy husual ↦ ?_) hbefore
    have hcopy : copy.cursor.kind = kind :=
      (congrArg Lexeme.kind (List.singleton_inj.mp husual)).symm
    exact ⟨_, _, expect_of_kind hcopy, .tested _ _, rfl⟩
  · refine of_error fun value last ↦ ?_
    rw [expect_of_ne h]
    nofun

/-- A token with a text of its own that has to be of a kind. -/
theorem expect_text {kind : Kind} (htext : kind.hasText = true)
    (hbefore : ∀ text later, after later → before (.lexeme kind text :: later)) :
    Mirrors session before after [] Token.text (Parser.expect kind) (Parser.expect kind)
      fun token ↦ [.lexeme kind token.text] := by
  by_cases h : session.cursor.kind = kind
  · have hwording := Token.wording_of_hasText h htext
    refine of_pass (.tested _ _) (expect_of_kind h) (hwording ▸ Token.says_wording _) ?_ rfl
      (fun copy husual ↦ ?_) (hbefore _)
    · rw [h]
      rintro rfl
      cases htext
    · obtain ⟨hcopy, htext'⟩ := Token.of_lexeme_eq htext (List.singleton_inj.mp husual).symm
      exact ⟨_, _, expect_of_kind hcopy, .tested _ _, htext'.symm⟩
  · refine of_error fun value last ↦ ?_
    rw [expect_of_ne h]
    nofun

/-- The end of the input adds nothing to the wordings. -/
theorem expect_end (hsettled : ∀ later, after later → Settled later)
    (hbefore : ∀ later, after later → before later) :
    Mirrors session before after [] (fun _ ↦ ()) (Parser.expect .endOfInput)
      (Parser.expect .endOfInput) fun _ ↦ [] := by
  have hend {session : Session} (hclosing : Closing session.rest)
      (h : session.cursor.kind = .endOfInput) :
      Parser.expect .endOfInput session =
        .ok session.cursor.here (session.tested (.single .endOfInput)) := by
    rw [expect_of_kind h, ((Session.Still.tested session _).closing hclosing).passed_eq h]
  intro hclosing
  by_cases h : session.cursor.kind = .endOfInput
  · refine of_still (.tested _ _) (hend hclosing h) rfl
      (fun copy later hafter hlater hready ↦ ?_) hbefore hclosing
    have hcopy : copy.cursor.kind = .endOfInput := by
      rcases (hsettled later hafter).alias_head hlater hready.printed
        with heq | ⟨synonym, -, heq, -⟩
      · exact heq.symm.trans h
      · exact absurd (heq.symm.trans h) (by cases synonym <;> nofun)
    exact ⟨_, _, hend hready.closing hcopy, .tested _ _, rfl⟩
  · refine of_error (fun value last ↦ ?_) hclosing
    rw [expect_of_ne h]
    nofun

theorem consume_of_kind {kind : Kind} (h : session.cursor.kind = kind)
    (hkind : kind ≠ .endOfInput) (htext : kind.hasText = false)
    (hbefore : ∀ later, after later → before (.lexeme kind "" :: later)) :
    Mirrors session before after [] id (Parser.consume kind) (Parser.consume kind)
      fun found ↦ Wording.when found (.lexeme kind "") := by
  refine of_pass (.tested _ _) (Parser.consume_of_kind h) (Wording.says_mark h htext) (h ▸ hkind)
    rfl (fun copy husual ↦ ?_) hbefore
  have hcopy : copy.cursor.kind = kind :=
    (congrArg Lexeme.kind (List.singleton_inj.mp husual)).symm
  exact ⟨_, _, Parser.consume_of_kind hcopy, .tested _ _, rfl⟩

theorem consume_of_ne {kind : Kind} (h : session.cursor.kind ≠ kind)
    (hreads : ∀ later, after later → Echoes kind later)
    (hbefore : ∀ later, after later → before later) :
    Mirrors session before after [] id (Parser.consume kind) (Parser.consume kind)
      fun found ↦ Wording.when found (.lexeme kind "") := by
  refine of_still (.tested _ _) (Parser.consume_of_ne h) rfl
    (fun copy later hafter hlater hready ↦ ?_) hbefore
  have hcopy : copy.cursor.kind ≠ kind :=
    fun heq ↦ h (hreads later hafter _ _ _ _ hlater hready.printed heq)
  exact ⟨_, _, Parser.consume_of_ne hcopy, .tested _ _, rfl⟩

/-- A token without a text of its own that may be there. -/
theorem consume {kind : Kind} (hkind : kind ≠ .endOfInput) (htext : kind.hasText = false)
    (hreads : ∀ later, after later → Echoes kind later)
    (hyes : ∀ later, after later → before (.lexeme kind "" :: later))
    (hno : ∀ later, after later → before later) :
    Mirrors session before after [] id (Parser.consume kind) (Parser.consume kind)
      fun found ↦ Wording.when found (.lexeme kind "") := by
  by_cases h : session.cursor.kind = kind
  · exact consume_of_kind h hkind htext hyes
  · exact consume_of_ne h hreads hno

/-- A token that may be there, and what is read in either case. -/
theorem consume_then {kind : Kind} {next next' : Bool → Parser α} (hkind : kind ≠ .endOfInput)
    (htext : kind.hasText = false) (hreads : ∀ later, before later → Echoes kind later)
    (hbefore : ∀ later, middle later → before (.lexeme kind "" :: later))
    (hyes : ∀ last, Mirrors last middle after (sofar ++ [.lexeme kind ""]) view (next true)
      (next' true) wordings)
    (hno : ∀ last, Mirrors last before after sofar view (next false) (next' false) wordings) :
    Mirrors session before after sofar view (Parser.consume kind >>= next)
      (Parser.consume kind >>= next') wordings := by
  by_cases h : session.cursor.kind = kind
  · refine bind_of_run (consume_of_kind h hkind htext hbefore) fun found found' last hrun hview ↦ ?_
    rw [Parser.consume_of_kind h] at hrun
    cases hrun
    cases hview
    exact hyes _
  · refine bind_of_run (consume_of_ne h hreads fun _ ↦ id) fun found found' last hrun hview ↦ ?_
    rw [Parser.consume_of_ne h] at hrun
    cases hrun
    cases hview
    rw [show Wording.when false (.lexeme kind "") = [] from rfl, List.append_nil]
    exact hno _

/-- One of two tokens that say the same, if one of them is there. -/
theorem consumeEither {synonym : Synonym} (hsettled : ∀ later, after later → Settled later)
    (hyes : ∀ later, after later → before (.choice synonym :: later))
    (hno : ∀ later, after later → before later) :
    Mirrors session before after [] id (Grammar.consumeEither synonym.usual synonym.other)
      (Grammar.consumeEither synonym.usual synonym.other)
      fun found ↦ Wording.when found (.choice synonym) := by
  have hfound {session : Session} (h : session.cursor.kind = synonym.usual) :
      Grammar.consumeEither synonym.usual synonym.other session =
        .ok true (session.tested (.single synonym.usual)).passed := by
    rw [Grammar.consumeEither, bind_of_ok (Parser.consume_of_kind h)]
    rfl
  have htried {session : Session} (h : session.cursor.kind ≠ synonym.usual) :
      Grammar.consumeEither synonym.usual synonym.other session =
        Parser.consume synonym.other (session.tested (.single synonym.usual)) := by
    rw [Grammar.consumeEither, bind_of_ok (Parser.consume_of_ne h)]
    rfl
  have hcopied {copy : Session} (h : (Wording.choice synonym).usual = [copy.cursor.here.lexeme]) :
      copy.cursor.kind = synonym.usual :=
    (congrArg Lexeme.kind (List.singleton_inj.mp h)).symm
  by_cases husual : session.cursor.kind = synonym.usual
  · refine of_pass (.tested _ _) (hfound husual) (Wording.says_choice (.inl husual)) ?_ rfl
      (fun copy h ↦ ⟨_, _, hfound (hcopied h), .tested _ _, rfl⟩) hyes
    rw [husual]
    cases synonym <;> nofun
  by_cases hother : session.cursor.kind = synonym.other
  · refine of_pass ((Session.Still.tested _ _).trans (.tested _ _))
      ((htried husual).trans (Parser.consume_of_kind hother)) (Wording.says_choice (.inr hother))
      ?_ rfl (fun copy h ↦ ⟨_, _, hfound (hcopied h), .tested _ _, rfl⟩) hyes
    rw [hother]
    cases synonym <;> nofun
  · refine of_still ((Session.Still.tested _ _).trans (.tested _ _))
      ((htried husual).trans (Parser.consume_of_ne hother)) rfl
      (fun copy later hafter hlater hready ↦ ?_)
      hno
    have hsession : (session.cursor.kind == synonym.usual ||
        session.cursor.kind == synonym.other) = false :=
      Bool.or_eq_false_iff.mpr ⟨beq_false_of_ne husual, beq_false_of_ne hother⟩
    have hview : (copy.cursor.kind == synonym.usual ||
        copy.cursor.kind == synonym.other) = false :=
      ((hsettled later hafter).kind_eq (fun kind ↦ kind == synonym.usual || kind == synonym.other)
        (fun synonym' ↦ by cases synonym <;> cases synonym' <;> rfl) hlater
        hready.printed).symm.trans hsession
    rw [Bool.or_eq_false_iff, beq_eq_false_iff_ne, beq_eq_false_iff_ne] at hview
    exact ⟨_, _, (htried hview.1).trans (Parser.consume_of_ne hview.2),
      (Session.Still.tested _ _).trans (.tested _ _), rfl⟩

section Table

variable {table : List (Kind × β)} {write : β → Wording}

/-- A table whose values are written with their keys, which are marks without synonyms. -/
def Writes (table : List (Kind × β)) (write : β → Wording) : Prop :=
  ∀ row ∈ table, write row.2 = .lexeme row.1 "" ∧ row.1.hasText = false ∧
    row.1.isSynonym = false ∧ row.1 ≠ .endOfInput

theorem mem_of_lookup {kind : Kind} {value : β} (h : table.lookup kind = some value) :
    (kind, value) ∈ table := by
  obtain ⟨first, second, heq, -⟩ := List.lookup_eq_some_iff.mp h
  rw [heq]
  exact List.mem_append_right _ List.mem_cons_self

theorem oneOf_of_some (htable : Writes table write) {value : β}
    (h : table.lookup session.cursor.kind = some value)
    (hyes : ∀ row ∈ table, ∀ later, after later → before (write row.2 :: later)) :
    Mirrors session before after [] id (Parser.oneOf table) (Parser.oneOf table)
      fun value? ↦ value?.toList.map write := by
  obtain ⟨hwrite, htext, -, hend⟩ := htable _ (mem_of_lookup h)
  refine of_pass (.tested _ _) (oneOf_of_lookup h) (hwrite ▸ Wording.says_mark rfl htext) hend
    rfl (fun copy husual ↦ ?_) (hyes _ (mem_of_lookup h))
  rw [hwrite] at husual
  have hcopy : copy.cursor.kind = session.cursor.kind :=
    (congrArg Lexeme.kind (List.singleton_inj.mp husual)).symm
  exact ⟨_, _, oneOf_of_lookup (hcopy ▸ h), .tested _ _, rfl⟩

theorem oneOf_of_none (htable : Writes table write)
    (h : table.lookup session.cursor.kind = none)
    (hsettled : ∀ later, after later → Settled later)
    (hno : ∀ later, after later → before later) :
    Mirrors session before after [] id (Parser.oneOf table) (Parser.oneOf table)
      fun value? ↦ value?.toList.map write := by
  have hsynonym (synonym : Synonym) :
      table.lookup synonym.other = none ∧ table.lookup synonym.usual = none := by
    refine ⟨?_, ?_⟩
    all_goals
      refine Option.eq_none_iff_forall_ne_some.mpr fun value h ↦ ?_
      have hfalse := (htable _ (mem_of_lookup h)).2.2.1
      cases synonym <;> cases hfalse
  refine of_still (.tested _ _) (oneOf_of_lookup_none h) rfl
    (fun copy later hafter hlater hready ↦ ?_) hno
  have hcopy : table.lookup copy.cursor.kind = none := by
    rw [← h]
    refine ((hsettled later hafter).kind_eq (fun kind ↦ table.lookup kind) (fun synonym ↦ ?_)
      hlater hready.printed).symm
    rw [(hsynonym synonym).1, (hsynonym synonym).2]
  exact ⟨_, _, oneOf_of_lookup_none hcopy, .tested _ _, rfl⟩

/-- An entry of a table, if the token at hand is a key. -/
theorem oneOf (htable : Writes table write)
    (hsettled : ∀ later, after later → Settled later)
    (hyes : ∀ row ∈ table, ∀ later, after later → before (write row.2 :: later))
    (hno : ∀ later, after later → before later) :
    Mirrors session before after [] id (Parser.oneOf table) (Parser.oneOf table)
      fun value? ↦ value?.toList.map write := by
  cases h : table.lookup session.cursor.kind with
  | some value => exact oneOf_of_some htable h hyes
  | none => exact oneOf_of_none htable h hsettled hno

/-- An entry of a table, and what is read if there is one or if there is none. -/
theorem oneOf_then {next next' : Option β → Parser α} (htable : Writes table write)
    (hsettled : ∀ later, before later → Settled later)
    (hbefore : ∀ row ∈ table, ∀ later, middle later → before (write row.2 :: later))
    (hyes : ∀ value last, Mirrors last middle after (sofar ++ [write value]) view
      (next (some value)) (next' (some value)) wordings)
    (hno : ∀ last, Mirrors last before after sofar view (next none) (next' none) wordings) :
    Mirrors session before after sofar view (Parser.oneOf table >>= next)
      (Parser.oneOf table >>= next') wordings := by
  cases h : table.lookup session.cursor.kind with
  | some value =>
    refine bind_of_run (oneOf_of_some htable h hbefore) fun value? value?' last hrun hview ↦ ?_
    rw [oneOf_of_lookup h] at hrun
    cases hrun
    cases hview
    exact hyes value _
  | none =>
    refine bind_of_run (oneOf_of_none htable h hsettled fun _ ↦ id)
      fun value? value?' last hrun hview ↦ ?_
    rw [oneOf_of_lookup_none h] at hrun
    cases hrun
    cases hview
    rw [Option.toList_none, List.map_nil, List.append_nil]
    exact hno _

end Table

/-! ### Parts that may be missing or repeated -/

/-- What stands behind a token, if the token is there. -/
theorem behind {kind : Kind} (hkind : kind ≠ .endOfInput) (htext : kind.hasText = false)
    (hreads : ∀ later, hold later → Echoes kind later)
    (hyes : ∀ later, middle later → hold (.lexeme kind "" :: later))
    (h : ∀ session, Mirrors session middle hold [] view parser parser' wordings) :
    Mirrors session hold hold [] (Option.map view) (Parser.behind kind parser)
      (Parser.behind kind parser') fun value? ↦
        value?.elim [] fun value ↦ .lexeme kind "" :: wordings value := by
  refine consume_then hkind htext hreads hyes (fun last ↦ ?_) fun last ↦ ?_
  · exact (h last).map_onto (fun _ ↦ rfl) fun _ _ hview ↦ congrArg some hview
  · exact done rfl rfl

/-- A loop whose rounds add to the wordings of the value, each of them closer to the end. -/
theorem iterate (view : α → δ) (wordings : α → List Wording) {step : α → Parser (Option α)}
    (hcloser : ∀ {value next : α} {session after : Session}, session.cursor.Closed →
      step value session = .ok (some next) after → after.remaining < session.remaining)
    (hstep : ∀ value value' session, view value = view value' →
      Mirrors session hold hold (wordings value) (Option.map view) (step value) (step value')
        fun next? ↦ wordings (next?.getD value))
    {value value' : α} (hview : view value = view value') :
    Mirrors session hold hold (wordings value) view (Parser.iterate step value)
      (Parser.iterate step value') wordings := by
  induction value, session using iterate_induction step generalizing value' with
  | h value session ih =>
  intro hclosing result last hrun
  cases hround : step value session with
  | error failure between =>
    rw [iterate_of_error hround] at hrun
    cases hrun
  | ok next? between =>
    obtain ⟨hbetween, hadded⟩ := hstep value value' session hview hclosing next? between hround
    cases next? with
    | none =>
      rw [iterate_of_none hround] at hrun
      cases hrun
      refine ⟨hbetween, fun hnone ↦ ?_⟩
      obtain ⟨hstart, added, hwordings, hrest⟩ := hadded hnone
      refine ⟨hstart, added, hwordings, fun later hlater ↦ ?_⟩
      obtain ⟨hspells, hcopies⟩ := hrest later hlater
      refine ⟨hspells, fun hhold ↦ (hcopies hhold).imp_right fun hcopy copy hready ↦ ?_⟩
      obtain ⟨next?', last', hrun', hnext, hready'⟩ := hcopy copy hready
      rw [Option.map_none, eq_comm, Option.map_eq_none_iff] at hnext
      subst hnext
      exact ⟨value', last', iterate_of_none hrun', hview, hready'⟩
    | some next =>
      have hclose := hcloser hclosing.closed hround
      rw [iterate_of_closer hround hclose] at hrun
      obtain ⟨hlast, hmore⟩ := ih next between hround hclose rfl hbetween result last hrun
      refine ⟨hlast, fun hnone ↦ ?_⟩
      obtain ⟨hnone', added', hwordings', hrest'⟩ := hmore hnone
      obtain ⟨hstart, added, hwordings, hrest⟩ := hadded hnone'
      refine ⟨hstart, added ++ added', ?_, fun later hlater ↦ ?_⟩
      · rw [hwordings', ← List.append_assoc]
        exact congrArg (· ++ added') hwordings
      obtain ⟨hspells', hcopies'⟩ := hrest' later hlater
      obtain ⟨hspells, hcopies⟩ := hrest (added' ++ later) hspells'
      rw [List.append_assoc]
      refine ⟨hspells, fun hhold ↦ ?_⟩
      obtain ⟨hbefore, hcopy⟩ := hcopies (hcopies' hhold).1
      refine ⟨hbefore, fun copy hready ↦ ?_⟩
      obtain ⟨next?', between', hround', hnext, hready'⟩ := hcopy copy hready
      rw [Option.map_some, eq_comm, Option.map_eq_some_iff] at hnext
      obtain ⟨next', rfl, hnext⟩ := hnext
      have hclose' := hcloser hready.closing.closed hround'
      obtain ⟨-, hagain⟩ := ih next between hround hclose hnext.symm hbetween result last hrun
      obtain ⟨-, added'', hwordings'', hrest''⟩ := hagain hnone
      rw [hwordings', List.append_cancel_left_eq] at hwordings''
      subst hwordings''
      obtain ⟨result', last', hrun'', hresult⟩ :=
        ((hrest'' later hlater).2 hhold).2 between' hready'
      exact ⟨result', last', (iterate_of_closer hround' hclose').trans hrun'', hresult⟩

/-- Items as long as there are any. -/
theorem many {scope : Scope} (hscope : scope.Progressive) {item : Parser (Option α)}
    (hrepeated : Grammar.Repeated scope item)
    (hitem : ∀ session, Mirrors session hold hold [] (Option.map view) item item
      fun value? ↦ value?.elim [] wordings) :
    Mirrors session hold hold [] (List.map view) (Parser.many item) (Parser.many item)
      (List.flatMap wordings) := by
  refine bind (iterate (List.map view) (fun items ↦ items.reverse.flatMap wordings)
    (hscope.loops (.items hrepeated)) ?_ rfl) ?_
  · intro items items' session hitems
    refine (hitem session).bind fun value? value?' last hvalue ↦ pure ?_ ?_ fun _ ↦ id
    · cases value? <;> simp
    · cases value? <;> cases value?' <;> simp_all
  · intro items items' last hitems
    exact pure (by simp) (by simp [hitems]) fun _ ↦ id

/-- One or more values with separators between them, behind what has been read so far. -/
theorem separatedBy_onto {scope : Scope} (hscope : scope.Progressive) {separator : Kind}
    {item : Parser α} {wordings' : List α → List Wording}
    (hseparated : Grammar.Separated scope separator item)
    (hkind : separator ≠ .endOfInput) (htext : separator.hasText = false)
    (hreads : ∀ later, hold later → Echoes separator later)
    (hyes : ∀ later, before later → hold (.lexeme separator "" :: later))
    (hitem : ∀ session, Mirrors session before hold [] view item item wordings)
    (hwordings : ∀ first others, wordings' (first :: others) =
      sofar ++ listed [.lexeme separator ""] wordings (first :: others)) :
    Mirrors session before hold sofar (List.map view) (Parser.separatedBy separator item)
      (Parser.separatedBy separator item) wordings' := by
  refine (hitem session).bind fun first first' last hfirst ↦
    bind (many hscope (.behind hseparated) fun _ ↦ behind hkind htext hreads hyes hitem) ?_
  intro others others' _ hothers
  refine pure ?_ (by rw [List.map_cons, List.map_cons, hfirst, hothers]) fun _ ↦ id
  rw [hwordings, List.append_assoc]
  rfl

/-- One or more values with separators between them. -/
theorem separatedBy {scope : Scope} (hscope : scope.Progressive) {separator : Kind}
    {item : Parser α} (hseparated : Grammar.Separated scope separator item)
    (hkind : separator ≠ .endOfInput) (htext : separator.hasText = false)
    (hreads : ∀ later, hold later → Echoes separator later)
    (hyes : ∀ later, before later → hold (.lexeme separator "" :: later))
    (hitem : ∀ session, Mirrors session before hold [] view item item wordings) :
    Mirrors session before hold [] (List.map view) (Parser.separatedBy separator item)
      (Parser.separatedBy separator item) (listed [.lexeme separator ""] wordings) :=
  separatedBy_onto hscope hseparated hkind htext hreads hyes hitem fun _ _ ↦ rfl

/-! ### Phrases and choices -/

theorem phraseFrom {category : Category} {start start' : Nat}
    {body body' : Parser (Draft category)}
    (h : Mirrors session before after sofar Draft.bare body body' Draft.wordings) :
    Mirrors session before after sofar Tree.bare (Parser.phraseFrom start body)
      (Parser.phraseFrom start' body') Phrase.wordings := by
  refine bind_onto (List.nil_append sofar).symm h fun draft draft' last _ hdraft ↦ ?_
  exact look (fun _ _ ↦ True) trivial (fun _ _ _ _ _ _ ↦ trivial) fun _ _ ↦
    pure rfl hdraft fun _ ↦ id

theorem phrase {category : Category} {body body' : Parser (Draft category)}
    (h : Mirrors session before after [] Draft.bare body body' Draft.wordings) :
    Mirrors session before after [] Tree.bare (Parser.phrase body) (Parser.phrase body')
      Phrase.wordings :=
  look (fun _ _ ↦ True) trivial (fun _ _ _ _ _ _ ↦ trivial) fun _ _ ↦ phraseFrom h

/-- A choice, if the first reading fails on the copies where it fails on the session. What stands
ahead where the second reading is taken may be known better. -/
theorem either {title : String} {depth : Nat} {first first' : Parser α} {next next' : α → Parser γ}
    {second second' : Parser β} {rest rest' : β → Parser γ} {view : γ → δ}
    {wordings : γ → List Wording} (hsticky : Sticky first)
    (hfirst : Mirrors session before after sofar view (first >>= next) (first' >>= next') wordings)
    (hfail : ∀ failure failed, first session = .error failure failed → failed.overflow = none →
      ∀ copy later, Closing session.rest → Spells later session.rest → middle later →
        Ready session copy later →
          ∃ failure' failed', first' copy = .error failure' failed' ∧ failed'.overflow = none)
    (hbefore : ∀ later, middle later → before later)
    (hsecond : ∀ other : Session, other.cursor.toPlace = session.cursor.toPlace →
      Mirrors other middle after sofar view (second >>= rest) (second' >>= rest') wordings) :
    Mirrors session before after sofar view (Parser.either title depth first next second rest)
      (Parser.either title depth first' next' second' rest') wordings := by
  intro hclosing value last hrun
  cases htried : first session with
  | ok found between =>
    rw [either_of_ok htried, ← bind_of_ok htried next] at hrun
    obtain ⟨hlast, hadded⟩ := hfirst hclosing value last hrun
    refine ⟨hlast, fun hnone ↦ ?_⟩
    obtain ⟨hstart, added, hwordings, hrest⟩ := hadded hnone
    refine ⟨hstart, added, hwordings, fun later hlater ↦ ?_⟩
    obtain ⟨hspells, hcopies⟩ := hrest later hlater
    refine ⟨hspells, fun hafter ↦ (hcopies hafter).imp_right fun hcopy copy hready ↦ ?_⟩
    obtain ⟨value', last', hrun', hresult⟩ := hcopy copy hready
    refine ⟨value', last', ?_, hresult⟩
    cases htried' : first' copy with
    | ok found' between' =>
      rw [bind_of_ok htried'] at hrun'
      rw [either_of_ok htried', hrun']
    | error failure' failed' =>
      rw [bind_of_error htried'] at hrun'
      cases hrun'
  | error failure failed =>
    -- The second reading starts where the first one did.
    have hsame := hsecond (rewound title depth session failed) rfl
    cases hagain : second (rewound title depth session failed) with
    | error failure' failed' =>
      rw [either_of_error_error htried hagain] at hrun
      cases hrun
    | ok found between =>
      rw [either_of_error_ok htried hagain, ← bind_of_ok hagain rest] at hrun
      obtain ⟨hlast, hadded⟩ := hsame hclosing value last hrun
      refine ⟨hlast, fun hnone ↦ ?_⟩
      obtain ⟨hfailed, added, hwordings, hrest⟩ := hadded hnone
      have hstart : session.overflow = none :=
        hsticky.overflow_eq_none ((congrArg Session.overflow (leave_of_error htried)).trans hfailed)
      refine ⟨hstart, added, hwordings, fun later hlater ↦ ?_⟩
      obtain ⟨hspells, hcopies⟩ := hrest later hlater
      refine ⟨hspells, fun hafter ↦ (hcopies hafter).imp (hbefore _) fun hcopy copy hready ↦ ?_⟩
      obtain ⟨failure', failed', htried', hfailed'⟩ := hfail failure failed htried hfailed copy _
        hclosing hspells (hcopies hafter).1 hready
      have hstill : session.Still (rewound title depth session failed) :=
        ⟨rfl, hfailed.trans hstart.symm⟩
      have hstill' : copy.Still (rewound title depth copy failed') :=
        ⟨rfl, hfailed'.trans hready.overflow.symm⟩
      obtain ⟨value', last', hrun', hresult⟩ := hcopy _ (hstill.ready hstill' hready)
      refine ⟨value', last', ?_, hresult⟩
      cases hagain' : second' (rewound title depth copy failed') with
      | ok found' between' =>
        rw [bind_of_ok hagain'] at hrun'
        rw [either_of_error_ok htried' hagain', hrun']
      | error failure' failed' =>
        rw [bind_of_error hagain'] at hrun'
        cases hrun'

/-- The second reading of a choice may be an attempt itself. -/
theorem attempt {title : String} {depth : Nat}
    (h : Mirrors session before after sofar view parser parser' wordings) :
    Mirrors session before after sofar view (Parser.attempt title depth parser)
      (Parser.attempt title depth parser') wordings := by
  intro hclosing value last hrun
  cases htried : parser session with
  | error failure failed =>
    rw [attempt_of_error htried] at hrun
    cases hrun
  | ok value between =>
    rw [attempt_of_ok htried] at hrun
    cases hrun
    obtain ⟨hlast, hadded⟩ := h hclosing value last htried
    refine ⟨hlast, fun hnone ↦ ?_⟩
    obtain ⟨hstart, added, hwordings, hrest⟩ := hadded hnone
    refine ⟨hstart, added, hwordings, fun later hlater ↦ ?_⟩
    obtain ⟨hspells, hcopies⟩ := hrest later hlater
    refine ⟨hspells, fun hafter ↦ (hcopies hafter).imp_right fun hcopy copy hready ↦ ?_⟩
    obtain ⟨value', last', hrun', hresult⟩ := hcopy copy hready
    exact ⟨value', last', attempt_of_ok hrun' title depth, hresult⟩

/-- Entering and leaving a rule only adds events. -/
theorem enter {title : String} {depth : Nat}
    (h : Mirrors (entered title depth session) before after sofar view parser parser' wordings) :
    Mirrors session before after sofar view (Parser.enter title depth parser)
      (Parser.enter title depth parser') wordings := by
  intro hclosing value last hrun
  cases htried : parser (entered title depth session) with
  | error failure failed =>
    rw [enter_of_error htried] at hrun
    cases hrun
  | ok value between =>
    rw [enter_of_ok htried] at hrun
    cases hrun
    obtain ⟨hlast, hadded⟩ := h hclosing value between htried
    refine ⟨hlast, fun hnone ↦ ?_⟩
    obtain ⟨hstart, added, hwordings, hrest⟩ := hadded hnone
    refine ⟨hstart, added, hwordings, fun later hlater ↦ ?_⟩
    obtain ⟨hspells, hcopies⟩ := hrest later hlater
    refine ⟨hspells, fun hafter ↦ (hcopies hafter).imp_right fun hcopy copy hready ↦ ?_⟩
    have hstill : session.Still (entered title depth session) := ⟨rfl, rfl⟩
    have hstill' : copy.Still (entered title depth copy) := ⟨rfl, rfl⟩
    obtain ⟨value', last', hrun', hview, hready'⟩ := hcopy _ (hstill.ready hstill' hready)
    have hleft : between.Still (left title depth none between) := ⟨rfl, rfl⟩
    have hleft' : last'.Still (left title depth none last') := ⟨rfl, rfl⟩
    exact ⟨value', _, enter_of_ok hrun', hview, hleft.ready hleft' hready'⟩

/-! ### Plain wordings -/

section Plain

variable {kind : Kind}

theorem plain_expect (hkind : kind.isMark = true) :
    Mirrors session Plain Plain [] (fun _ ↦ ()) (Parser.expect kind) (Parser.expect kind)
      fun _ ↦ [.lexeme kind ""] := by
  obtain ⟨htext, hend, -⟩ := Kind.isMark_iff.mp hkind
  exact expect_mark hend htext fun _ hlater ↦ hlater.mark hkind

theorem plain_text (htext : kind.hasText = true) :
    Mirrors session Plain Plain [] Token.text (Parser.expect kind) (Parser.expect kind)
      fun token ↦ [.lexeme kind token.text] := by
  refine expect_text htext fun _ _ hlater ↦ .lexeme hlater.toSettled ?_
  rintro rfl
  cases htext

theorem plain_advance (h : session.cursor.kind = kind) (hkind : kind.isMark = true) :
    Mirrors session Plain Plain [] (fun _ ↦ ()) Parser.advance Parser.advance
      fun _ ↦ [.lexeme kind ""] := by
  obtain ⟨htext, hend, -⟩ := Kind.isMark_iff.mp hkind
  exact advance_mark h hend htext fun _ hlater ↦ hlater.mark hkind

theorem plain_advance_text (h : session.cursor.kind = kind) (htext : kind.hasText = true) :
    Mirrors session Plain Plain [] Token.text Parser.advance Parser.advance
      fun token ↦ [.lexeme kind token.text] := by
  refine advance_text h htext fun _ _ hlater ↦ .lexeme hlater.toSettled ?_
  rintro rfl
  cases htext

theorem plain_consume (hkind : kind.isMark = true) :
    Mirrors session Plain Plain [] id (Parser.consume kind) (Parser.consume kind)
      fun found ↦ Wording.when found (.lexeme kind "") := by
  obtain ⟨htext, hend, -⟩ := Kind.isMark_iff.mp hkind
  exact consume hend htext (fun _ hlater ↦ hlater.reads hkind) (fun _ hlater ↦ hlater.mark hkind)
    fun _ ↦ id

theorem plain_consume_then {next next' : Bool → Parser α} (hkind : kind.isMark = true)
    (hyes : ∀ last, Mirrors last Plain Plain (sofar ++ [.lexeme kind ""]) view (next true)
      (next' true) wordings)
    (hno : ∀ last, Mirrors last Plain Plain sofar view (next false) (next' false) wordings) :
    Mirrors session Plain Plain sofar view (Parser.consume kind >>= next)
      (Parser.consume kind >>= next') wordings := by
  obtain ⟨htext, hend, -⟩ := Kind.isMark_iff.mp hkind
  exact consume_then hend htext (fun _ hlater ↦ hlater.reads hkind)
    (fun _ hlater ↦ hlater.mark hkind) hyes hno

theorem plain_check {next next' : Bool → Parser α} (hkind : kind.isMark = true)
    (hyes : session.cursor.kind = kind → Mirrors (session.tested (.single kind)) Plain Plain sofar
      view (next true) (next' true) wordings)
    (hno : Mirrors (session.tested (.single kind)) Plain Plain sofar view (next false)
      (next' false) wordings) :
    Mirrors session Plain Plain sofar view (Parser.check kind >>= next)
      (Parser.check kind >>= next') wordings := by
  refine check (Kind.isMark_iff.mp hkind).2.2.2 (fun _ hlater ↦ hlater.toSettled) ?_
  cases hfound : session.cursor.kind == kind with
  | true => exact hyes (beq_iff_eq.mp hfound)
  | false => exact hno

theorem plain_behind (hkind : kind.isMark = true)
    (h : ∀ session, Mirrors session Plain Plain [] view parser parser' wordings) :
    Mirrors session Plain Plain [] (Option.map view) (Parser.behind kind parser)
      (Parser.behind kind parser') fun value? ↦
        value?.elim [] fun value ↦ .lexeme kind "" :: wordings value := by
  obtain ⟨htext, hend, -⟩ := Kind.isMark_iff.mp hkind
  exact behind hend htext (fun _ hlater ↦ hlater.reads hkind) (fun _ hlater ↦ hlater.mark hkind) h

theorem plain_separatedBy {scope : Scope} (hscope : scope.Progressive) {item : Parser α}
    (hseparated : Grammar.Separated scope kind item) (hkind : kind.isMark = true)
    (hitem : ∀ session, Mirrors session Plain Plain [] view item item wordings) :
    Mirrors session Plain Plain [] (List.map view) (Parser.separatedBy kind item)
      (Parser.separatedBy kind item) (listed [.lexeme kind ""] wordings) := by
  obtain ⟨htext, hend, -⟩ := Kind.isMark_iff.mp hkind
  exact separatedBy hscope hseparated hend htext (fun _ hlater ↦ hlater.reads hkind)
    (fun _ hlater ↦ hlater.mark hkind) hitem

/-- Values with separators between them behind a lead that has been read. -/
theorem plain_led {scope : Scope} (hscope : scope.Progressive) {item : Parser α}
    {lead : List Wording} (hseparated : Grammar.Separated scope kind item)
    (hkind : kind.isMark = true)
    (hitem : ∀ session, Mirrors session Plain Plain [] view item item wordings) :
    Mirrors session Plain Plain lead (List.map view) (Parser.separatedBy kind item)
      (Parser.separatedBy kind item) (led lead [.lexeme kind ""] wordings) := by
  obtain ⟨htext, hend, -⟩ := Kind.isMark_iff.mp hkind
  exact separatedBy_onto hscope hseparated hend htext (fun _ hlater ↦ hlater.reads hkind)
    (fun _ hlater ↦ hlater.mark hkind) hitem fun _ _ ↦ rfl

end Plain

end Mirrors

end Parser

end CorpusQuery
