import CorpusQuery.Proofs.Choice.Overtake
import CorpusQuery.Proofs.Choice.Returns
import CorpusQuery.Proofs.Coupling.Aligned

/-!
The entries agree. No token list is both an expression and a structural constraint, whatever the
limits, and what an entry reads is read alike inside the entries around it, as long as there is room
for it (`Entry.selection_unambiguous`): a node statement inside a structural constraint, that one or
an expression inside a selection, and a selection behind its keyword inside a payload. So it cannot
matter in which order a selection tries its alternatives.
-/

set_option autoImplicit false
set_option relaxedAutoImplicit false

namespace CorpusQuery

open CorpusQuery.Parser CorpusQuery.Place CorpusQuery.Grammar

/-! ### What begins a pattern -/

section Beginnings

variable {tokens : List Token} {limit room : Nat}

theorem Place.leading_ofTokens (tokens : List Token) (kinds : KindSet) :
    Leading (ofTokens tokens) kinds 0 (ofTokens tokens) := by
  refine ⟨begins_ofTokens tokens, Nat.zero_le _, fun index _ hlt ↦ ?_⟩
  rw [position, (begins_ofTokens tokens).behind_eq] at hlt
  exact absurd hlt (Nat.not_lt_zero _)

/-- Where a structural constraint can be read, expressions halt, and no lane begins. -/
theorem Grammar.exists_halting {constraint : Phrase .structuralConstraint} {session after : Session}
    (hplace : session.cursor.toPlace = .ofTokens tokens)
    (hrun : Rule.structuralConstraint.run limit room session = .ok constraint after) :
    (∃ last, Halting (.ofTokens tokens) 0 last) ∧ (ofTokens tokens).kind ≠ .keyword .lane := by
  have hclosed : session.cursor.Closed := hplace ▸ ofTokens_closed tokens
  have hleading : Leading (.ofTokens tokens) opening 0 session.cursor.toPlace :=
    hplace ▸ leading_ofTokens tokens opening
  obtain ⟨first, -, -, hkind, hbefore⟩ := ((opens_run_structuralConstraint limit room).ok
    ⟨hclosed, rfl, trivial⟩ hleading hrun).2.first
  refine ⟨⟨first, ofTokens_closed tokens, hkind ▸ rfl, hbefore⟩, fun hlane ↦ ?_⟩
  have hhere : ((ofTokens tokens).peek 0).kind = .keyword .lane :=
    (congrArg Token.kind (along_zero _ _)).trans hlane
  rcases Nat.eq_zero_or_pos first with rfl | hpos
  · rw [hhere] at hkind
    cases hkind
  · have hopening := hbefore 0 (Nat.le_refl _) hpos
    rw [hhere] at hopening
    cases hopening

/-- Where expressions halt, none reaches the end of the input. -/
theorem Grammar.fails_of_halting (limit room : Nat) (h : Token.Ended tokens) {last : Nat}
    (hhalting : Halting (.ofTokens tokens) 0 last) {α : Type}
    (next : Phrase .expression → Token → Parser α) :
    Fails (.ofTokens tokens) ((Rule.inside limit room).expression 0 >>= fun expression ↦
      expect .endOfInput >>= next expression) := by
  intro session hplace
  have hposition : session.cursor.position ≤ last := by
    change session.cursor.behind.length ≤ last
    rw [show session.cursor.behind = [] from
      (congrArg Place.behind hplace).trans (begins_ofTokens tokens).behind_eq]
    exact Nat.zero_le _
  cases hrun : (Rule.inside limit room).expression 0 session with
  | error failure after => exact ⟨failure, after, by rw [bind_of_error hrun]⟩
  | ok expression after =>
    have hwithin := ((stays_run_expression hhalting limit room 0).ok
      ⟨hplace ▸ begins_ofTokens tokens, Nat.zero_le _, hposition⟩ trivial hrun).1
    have hkind : after.cursor.kind ≠ .endOfInput := by
      intro hend
      have hlength := hwithin.le_last
      rw [show after.cursor.kind = after.cursor.here.kind from rfl, hwithin.begins.here_eq,
        h.kind_peek_iff] at hend
      have hlast := h.kind_peek_iff.mpr (Nat.le_trans hend hlength)
      have hhalts := hhalting.halts
      rw [hlast] at hhalts
      cases hhalts
    exact ⟨_, _, by rw [bind_of_ok hrun, bind_of_error (expect_of_ne hkind)]⟩

/-- Where a node statement can be read, no limit and no flags of a structural constraint stand. -/
theorem Grammar.kinds_of_nodeStatement {least : Nat} {statement : Phrase .nodeStatement}
    {session after : Session} (hplace : session.cursor.toPlace = .ofTokens tokens)
    (hrun : (Rule.nodeStatement least).run limit room session = .ok statement after) :
    (ofTokens tokens).kind ≠ .keyword .first ∧
      ((ofTokens tokens).kind = .pureDigits → (ofTokens tokens).peekKind 1 ≠ .keyword .hits) ∧
      (KindSet.ofKeys matchFlags).contains (ofTokens tokens).kind = false := by
  have hclosed : session.cursor.Closed := hplace ▸ ofTokens_closed tokens
  have hleading : Leading (.ofTokens tokens) statementOpening 0 session.cursor.toPlace :=
    hplace ▸ leading_ofTokens tokens statementOpening
  obtain ⟨first, -, -, hkind, hbefore⟩ :=
    (((opens_inside (fun _ h ↦ h) limit room).nodeStatement least).ok ⟨hclosed, rfl, trivial⟩
      hleading hrun).2.first
  -- The first token and the one behind it may stand before a bracket or are one.
  have hkinds (index : Nat) (hle : index ≤ first) :
      ((ofTokens tokens).peek index).kind = .symbol .leftBracket ∨
        statementOpening.contains ((ofTokens tokens).peek index).kind = true := by
    rcases Nat.eq_or_lt_of_le hle with rfl | hlt
    · exact .inl hkind
    · exact .inr (hbefore index (Nat.zero_le _) hlt)
  have hhere : ((ofTokens tokens).peek 0).kind = (ofTokens tokens).kind :=
    congrArg Token.kind (along_zero _ _)
  have hzero := hkinds 0 (Nat.zero_le _)
  rw [hhere] at hzero
  refine ⟨fun heq ↦ ?_, fun hdigits hhits ↦ ?_, Bool.eq_false_iff.mpr fun hflag ↦ ?_⟩
  · rw [heq] at hzero
    exact hzero.elim nofun nofun
  · rcases Nat.eq_zero_or_pos first with rfl | hpos
    · rw [hhere, hdigits] at hkind
      cases hkind
    · have hone := hkinds 1 hpos
      rw [show ((ofTokens tokens).peek 1).kind = _ from hhits] at hone
      exact hone.elim nofun nofun
  · have hflags : ∀ kind ∈ matchFlags.map Prod.fst, kind ≠ .symbol .leftBracket ∧
        statementOpening.contains kind = false := by decide
    rw [KindSet.ofKeys, KindSet.contains_ofList] at hflag
    obtain ⟨hbracket, hopening⟩ := hflags _ (List.contains_iff_mem.mp hflag)
    rcases hzero with h | h
    · exact hbracket h
    · rw [hopening] at h
      cases h

end Beginnings

/-! ### Behind a keyword -/

theorem Place.ofTokens_of_closed {first : Token} {rest : List Token}
    (h : Token.Closed (first :: rest)) : Place.ofTokens (first :: rest) = ⟨[], first, rest⟩ := by
  rw [Token.Closed, List.getLast?_cons, Option.map_some, Option.some.injEq,
    ← List.getLastD_eq_getLast?] at h
  simp only [Place.ofTokens, h, if_pos]

/-- A keyword before a token list leaves all else as it is. -/
theorem Token.Ended.behind_find {tokens : List Token} (h : Token.Ended tokens) {find : Token}
    (hfind : find.kind = .keyword .find) :
    Token.Ended (find :: tokens) ∧
      Place.Aligned (fun _ ↦ 0) (.ofTokens tokens) (.ofTokens (find :: tokens)) 1 ∧
      ∃ next, (Place.ofTokens (find :: tokens)).next? = some next ∧
        (Place.ofTokens (find :: tokens)).Begins next ∧ next.position = 1 := by
  obtain ⟨hclosed, hsingle⟩ := h
  cases tokens with
  | nil => cases hclosed
  | cons first rest =>
    have hcons : Token.Closed (find :: first :: rest) := hclosed
    have hplace := Place.ofTokens_of_closed hclosed
    have hplace' := Place.ofTokens_of_closed hcons
    refine ⟨⟨hcons, ?_⟩, ?_, ?_⟩
    · rw [List.dropLast_cons_of_ne_nil (List.cons_ne_nil _ _)]
      intro token htoken
      rcases List.mem_cons.mp htoken with rfl | htoken
      · exact hfind ▸ nofun
      · exact hsingle token htoken
    · refine ⟨Place.ofTokens_closed _, Place.ofTokens_closed _, ?_, fun index ↦ ?_,
        fun index hlt ↦ ?_⟩
      · rw [hplace, hplace']
        rfl
      · rw [hplace, hplace']
        rfl
      · obtain rfl : index = 0 := Nat.lt_one_iff.mp hlt
        rw [hplace']
        exact ⟨hfind, rfl⟩
    · rw [hplace']
      exact ⟨_, rfl, ⟨rfl, rfl⟩, rfl⟩

/-! ### Reading again -/

namespace Entry

variable {entry : Entry} {limit limit' shift : Nat} {tokens tokens' : List Token} {place : Place}

/-- What an entry reads of a token list without meeting its limit, it reads again wherever the same
tokens follow up to the end and there is as much room. -/
theorem reread (limit' : Nat) (hoverflow : entry.overflow? tokens limit = none)
    (haligned : Place.Aligned (fun _ ↦ 0) (.ofTokens tokens) (.ofTokens tokens') shift)
    (hbegins : (Place.ofTokens tokens').Begins place) (hposition : place.position = shift)
    {session : Session} (hplace : session.cursor.toPlace = place) :
    (Coupling.aligned (fun _ ↦ 0) (· ≠ none) (.ofTokens tokens) (.ofTokens tokens') shift).Agrees
      (Tree.blurred fun _ ↦ 0) (entry.complete (.top limit) (.ofTokens tokens))
      (entry.complete (Rule.inside limit' limit) session) := by
  have hlawful : (Coupling.aligned (fun _ ↦ 0) (· ≠ none) (.ofTokens tokens) (.ofTokens tokens')
      shift).Lawful := Coupling.lawful_aligned (fun _ _ ↦ rfl) haligned
  have hscopes := Coupling.scopes_inside hlawful (fun _ ↦ .of_never (fun _ h ↦ h) (fun _ h ↦ h) _)
    (Coupling.cutoff_of_spent hlawful (fun _ ↦ .rfl) limit limit' 0) limit
  rw [Nat.add_zero, ← Scope.top_eq_inside] at hscopes
  have hstart : (Place.ofTokens tokens).behind.length = 0 := by
    rw [(Place.begins_ofTokens tokens).behind_eq]
    rfl
  have hsessions : Place.Abreast (.ofTokens tokens) (.ofTokens tokens') shift
      (Session.ofTokens tokens).cursor.toPlace session.cursor.toPlace := by
    refine ⟨Place.begins_ofTokens tokens, hplace ▸ hbegins, ?_⟩
    rw [hplace, hposition]
    change shift = (Place.ofTokens tokens).behind.length + shift
    rw [hstart, Nat.zero_add]
  have hfollows := (entry.coupled_complete hlawful hscopes).follows _ _ hsessions trivial
  refine hfollows.resolve_left ?_
  rintro (hspent | hahead)
  · exact hspent hoverflow
  · revert hahead
    cases entry.complete (.top limit) (.ofTokens tokens) <;> exact id

theorem complete_of_outcome {phrase : Phrase entry.category}
    (h : (entry.parse limit tokens).outcome = .ok phrase) :
    ∃ after, entry.complete (.top limit) (.ofTokens tokens) = .ok phrase after := by
  rw [parse] at h
  cases hrun : entry.complete (.top limit) (.ofTokens tokens) with
  | ok read after =>
    simp only [hrun] at h
    cases hoverflow : after.overflow with
    | none =>
      rw [hoverflow, Option.elim_none, Except.ok.injEq] at h
      exact ⟨after, by rw [h]⟩
    | some failure =>
      rw [hoverflow] at h
      cases h
  | error failure after =>
    simp only [hrun] at h
    cases h

/-- An entry that reads up to the end reads a phrase before it. -/
theorem body_of_complete {scope : Scope} {session after : Session} {phrase : Phrase entry.category}
    (h : entry.complete scope session = .ok phrase after) :
    ∃ between, entry.body scope session = .ok phrase between ∧
      between.cursor.kind = .endOfInput ∧
      after = (between.tested (.single .endOfInput)).passed := by
  cases hrun : entry.body scope session with
  | error failure between =>
    rw [complete, bind_of_error hrun] at h
    cases h
  | ok read between =>
    rw [complete, bind_of_ok hrun] at h
    by_cases hkind : between.cursor.kind = .endOfInput
    · rw [bind_of_ok (expect_of_kind hkind)] at h
      cases h
      exact ⟨between, rfl, hkind, rfl⟩
    · rw [bind_of_error (expect_of_ne hkind)] at h
      cases h

/-- A phrase that is read again stands at the end of the tokens, too. -/
theorem reads_body {phrase : Phrase entry.category} (hended : Token.Ended tokens')
    (hoverflow : entry.overflow? tokens limit = none)
    (h : (entry.parse limit tokens).outcome = .ok phrase)
    (haligned : Place.Aligned (fun _ ↦ 0) (.ofTokens tokens) (.ofTokens tokens') shift)
    (hbegins : (Place.ofTokens tokens').Begins place) (hposition : place.position = shift) :
    Parser.Reads place (entry.body (Rule.inside limit' limit)) phrase := by
  intro session hplace
  obtain ⟨after, hrun⟩ := complete_of_outcome h
  have hagrees := reread limit' hoverflow haligned hbegins hposition hplace
  rw [hrun] at hagrees
  generalize hrun' : entry.complete (Rule.inside limit' limit) session = result' at hagrees
  cases hagrees with
  | @ok _ read _ after' hsame hafter =>
    obtain ⟨between, hbody, hkind, rfl⟩ := body_of_complete hrun'
    rw [Tree.blurred_zero, Tree.blurred_zero] at hsame
    refine ⟨read, between, hbody, (Tree.same_iff _ _).mpr hsame.symm, ?_, hkind⟩
    have hbetween : (Place.ofTokens tokens').Begins between.cursor.toPlace :=
      ⟨hbegins.behind_eq, (Cursor.tokens_advance
        (between.tested (.single .endOfInput)).cursor).symm.trans hafter.begins_other.tokens_eq⟩
    rw [show between.cursor.kind = between.cursor.here.kind from rfl, hbetween.here_eq,
      hended.kind_peek_iff] at hkind
    have hlength := hbetween.length_eq
    exact List.eq_nil_of_length_eq_zero (by omega)

/-- Where an entry fails, it fails again. -/
theorem fails_complete {failure : Failure} (hoverflow : entry.overflow? tokens limit = none)
    (h : (entry.parse limit tokens).outcome = .error failure)
    (haligned : Place.Aligned (fun _ ↦ 0) (.ofTokens tokens) (.ofTokens tokens') shift)
    (hbegins : (Place.ofTokens tokens').Begins place) (hposition : place.position = shift) :
    Parser.Fails place (entry.complete (Rule.inside limit' limit)) := by
  intro session hplace
  have hagrees := reread limit' hoverflow haligned hbegins hposition hplace
  cases hrun : entry.complete (.top limit) (.ofTokens tokens) with
  | ok read after =>
    rw [overflow?, leave_of_ok hrun] at hoverflow
    simp only [parse, hrun, hoverflow, Option.elim_none] at h
    cases h
  | error first after =>
    rw [hrun] at hagrees
    generalize entry.complete (Rule.inside limit' limit) session = result' at hagrees ⊢
    cases hagrees with
    | error _ _ => exact ⟨_, _, rfl⟩

end Entry

/-! ### Selections that are not plain -/

theorem Parser.form_of_phrase {category : Category} {body : Parser (Draft category)}
    {session after : Session} {read : Phrase category} (h : phrase body session = .ok read after) :
    ∃ draft between, body session = .ok draft between ∧ read.form = draft.form := by
  change (body >>= _) session = _ at h
  cases hrun : body session with
  | ok draft between =>
    rw [bind_of_ok hrun] at h
    cases h
    exact ⟨draft, _, rfl, rfl⟩
  | error failure between =>
    rw [bind_of_error hrun] at h
    cases h

theorem Parser.body_of_enter {α : Type} {title : String} {depth : Nat} {body : Parser α}
    {session after : Session} {value : α} (h : enter title depth body session = .ok value after) :
    ∃ between, body (entered title depth session) = .ok value between := by
  cases hrun : body (entered title depth session) with
  | ok found between =>
    rw [enter_of_ok hrun] at h
    cases h
    exact ⟨between, rfl⟩
  | error failure between =>
    rw [enter_of_error hrun] at h
    cases h

theorem Grammar.form_structuralSelection (total limit room : Nat) :
    Ensures total Untraced Anywhere (structuralSelection (Rule.inside limit room))
      fun draft _ ↦ draft.form ≠ .plainSelection := by
  have hanywhere {α : Type} {parser : Parser α}
      (h : Alike (Rule.inside limit room) (Rule.inside limit room) parser parser) :
      Ensures total Untraced Anywhere parser fun _ ↦ Anywhere :=
    h.ensures (fun _ _ _ _ _ ↦ trivial) (fun _ h ↦ h) (Rule.keeps_run (fun _ h ↦ h) limit room)
  refine ((Ensures.check _).weaken (fun _ h ↦ h) fun _ _ _ ↦ trivial).bind fun _ ↦
    .ite (fun _ ↦ ?_) fun _ ↦ ?_
  · exact (hanywhere (.separatedBy .lane alike_lane)).bind fun _ ↦
      (hanywhere alike_having?).bind fun _ ↦ .pure fun _ _ ↦ nofun
  · exact (hanywhere (.nested .structuralConstraint)).bind fun _ ↦
      (hanywhere alike_having?).bind fun _ ↦ .pure fun _ _ ↦ nofun

/-- Where no plain selection can be read, none is read. -/
theorem Grammar.form_selection {limit room : Nat} {session after : Session}
    {selection : Phrase .selection} (hclosed : session.cursor.Closed)
    (hplain : Fails session.cursor.toPlace (plainSelection (Rule.inside limit room)))
    (hrun : Grammar.selection (Rule.inside limit room) session = .ok selection after) :
    selection.form ≠ .plainSelection := by
  rw [selection_eq_either] at hrun
  obtain ⟨draft, between, heither, hform⟩ := form_of_phrase hrun
  obtain ⟨failure, last, hfirst⟩ := hplain session rfl
  have hback : (rewound "selection constraint" (Rule.inside limit room).depth session
    last).cursor.Closed := hclosed
  cases hsecond : structuralSelection (Rule.inside limit room)
      (rewound "selection constraint" (Rule.inside limit room).depth session last) with
  | error other final =>
    rw [either_of_error_error hfirst (attempt_of_error hsecond _ _)] at heither
    cases heither
  | ok found final =>
    rw [either_of_error_ok hfirst (attempt_of_ok hsecond _ _)] at heither
    cases heither
    rw [hform]
    exact ((form_structuralSelection _ limit room).ok ⟨hback, rfl, trivial⟩ trivial hsecond).2

/-! ### Entries inside each other -/

/-- Under a limit an entry reads a token list as a phrase, but for its spans. -/
def Entry.Reads (entry : Entry) (limit : Nat) (tokens : List Token)
    (phrase : Phrase entry.category) : Prop :=
  ∃ read, (entry.parse limit tokens).outcome = .ok read ∧ read.same phrase = true

theorem Tree.same_trans {role : Role} {first second third : Tree role}
    (h : first.same second = true) (h' : second.same third = true) : first.same third = true := by
  rw [Tree.same_iff] at h h' ⊢
  exact h.trans h'

theorem Parser.Reads.same {category : Category} {place : Place}
    {parser : Parser (Phrase category)} {read phrase : Phrase category}
    (h : Parser.Reads place parser read) (hsame : read.same phrase = true) :
    Parser.Reads place parser phrase :=
  h.weaken fun _ _ hread ↦ ⟨Tree.same_trans hread.1 hsame, hread.2⟩

namespace Entry

variable {entry : Entry} {limit room shift : Nat} {tokens tokens' : List Token} {place : Place}

theorem reads_of_body {phrase : Phrase entry.category}
    (hoverflow : entry.overflow? tokens limit = none)
    (h : Parser.Reads (.ofTokens tokens) (entry.body (.top limit)) phrase) :
    entry.Reads limit tokens phrase := by
  have hcomplete : Returns (.ofTokens tokens) (entry.complete (.top limit))
      fun read _ ↦ read.same phrase = true :=
    h.bind fun _ _ hread ↦ (Returns.expect_last hread.2).bind fun _ _ _ ↦ .pure hread.1
  obtain ⟨read, after, hrun, hsame⟩ := hcomplete (.ofTokens tokens) rfl
  rw [overflow?, leave_of_ok hrun] at hoverflow
  exact ⟨read, by simp only [parse, hrun, hoverflow, Option.elim_none], hsame⟩

theorem countBeforeEnd_le (tokens : List Token) : Token.countBeforeEnd tokens ≤ tokens.length := by
  rw [Token.countBeforeEnd]
  split
  · split <;> omega
  · omega

theorem overflow?_of_length {limit : Nat} (entry : Entry) (h : 3 * tokens.length + 4 ≤ limit) :
    entry.overflow? tokens limit = none := by
  have hle := countBeforeEnd_le tokens
  exact entry.overflow?_eq_none (by omega)

/-- With enough room the parse is the same with one level less. -/
theorem parse_succ (entry : Entry) (h : 3 * tokens.length + 4 ≤ limit) :
    entry.parse (limit + 1) tokens = entry.parse limit tokens :=
  (parse_of_overflow_none (entry.overflow?_of_length h) 1).2

/-- What an entry reads is read again one level deeper. -/
theorem Reads.body {phrase : Phrase entry.category} (hended : Token.Ended tokens')
    (hlimit : 3 * tokens.length + 4 ≤ limit) (h : entry.Reads (limit + 1) tokens phrase)
    (haligned : Place.Aligned (fun _ ↦ 0) (.ofTokens tokens) (.ofTokens tokens') shift)
    (hbegins : (Place.ofTokens tokens').Begins place) (hposition : place.position = shift) :
    Parser.Reads place (entry.body (Rule.inside (limit + 1) limit)) phrase := by
  obtain ⟨read, houtcome, hsame⟩ := h
  rw [entry.parse_succ hlimit] at houtcome
  exact (reads_body hended (entry.overflow?_of_length hlimit) houtcome haligned hbegins
    hposition).same hsame

/-- What an entry reads is read again one level deeper over the same tokens. -/
theorem Reads.body_here {phrase : Phrase entry.category} (hended : Token.Ended tokens)
    (hlimit : 3 * tokens.length + 4 ≤ limit) (h : entry.Reads (limit + 1) tokens phrase) :
    Parser.Reads (.ofTokens tokens) (entry.body (Rule.inside (limit + 1) limit)) phrase := by
  refine h.body hended hlimit (.refl (Place.ofTokens_closed tokens))
    (Place.begins_ofTokens tokens) ?_
  rw [Place.position, (Place.begins_ofTokens tokens).behind_eq]
  rfl

/-- A plain selection fails where no expression reaches the end. -/
theorem plainSelection_fails {scope : Scope}
    (h : Fails place (Entry.expression.complete scope)) : Fails place (plainSelection scope) := by
  intro session hplace
  obtain ⟨failure, after, hrun⟩ := h session hplace
  change (scope.expression 0 >>= _) session = _ at hrun
  cases hexpression : scope.expression 0 session with
  | error other between => exact ⟨other, between, by rw [plainSelection, bind_of_error hexpression]⟩
  | ok expression between =>
    by_cases hkind : between.cursor.kind = .endOfInput
    · rw [bind_of_ok hexpression, bind_of_ok (expect_of_kind hkind)] at hrun
      cases hrun
    · exact ⟨_, _, by
        rw [plainSelection, bind_of_ok hexpression, bind_of_error (expect_of_ne hkind)]⟩

section Inside

variable (hended : Token.Ended tokens) (hlimit : 3 * tokens.length + 4 ≤ limit)

include hended hlimit

theorem Reads.structuralConstraint {statement : Phrase .nodeStatement}
    (h : nodeStatement.Reads (limit + 1) tokens statement) :
    structuralConstraint.Reads (limit + 1) tokens (.soleStatement statement) := by
  have hbody := h.body_here hended hlimit
  obtain ⟨read, after, hrun, -⟩ := hbody (.ofTokens tokens) rfl
  obtain ⟨hfirst, hhits, hflags⟩ := kinds_of_nodeStatement rfl hrun
  exact reads_of_body (Entry.structuralConstraint.overflow?_of_length (by omega))
    (Returns.enter (reads_soleStatement hbody hfirst hhits hflags))

theorem Reads.selection {constraint : Phrase .structuralConstraint}
    (h : Entry.structuralConstraint.Reads (limit + 1) tokens constraint) :
    Entry.selection.Reads (limit + 1) tokens (.soleStructure constraint) := by
  have hbody := h.body_here hended hlimit
  obtain ⟨read, after, hrun, -⟩ := hbody (.ofTokens tokens) rfl
  obtain ⟨⟨last, hhalting⟩, hlane⟩ := exists_halting rfl hrun
  exact reads_of_body (Entry.selection.overflow?_of_length (by omega))
    (Returns.enter (reads_soleStructure hbody (fails_of_halting _ _ hended hhalting _) hlane))

theorem Reads.plainSelection {constraint : Phrase .expression}
    (h : Entry.expression.Reads (limit + 1) tokens constraint) :
    Entry.selection.Reads (limit + 1) tokens (.soleConstraint constraint) :=
  reads_of_body (Entry.selection.overflow?_of_length (by omega))
    (Returns.enter (reads_soleConstraint (h.body_here hended hlimit)))

/-- A plain selection is read only where an expression is. -/
theorem Reads.of_plainSelection {constraint : Phrase .expression}
    (h : Entry.selection.Reads (limit + 1) tokens (.soleConstraint constraint)) :
    Entry.expression.Reads (limit + 1) tokens constraint := by
  obtain ⟨read, houtcome, hsame⟩ := h
  rw [Tree.same_iff] at hsame
  cases hexpression : (Entry.expression.parse limit tokens).outcome with
  | ok found =>
    have hfound : Entry.expression.Reads (limit + 1) tokens found :=
      ⟨found, by rw [Entry.expression.parse_succ hlimit, hexpression], (Tree.same_iff _ _).mpr rfl⟩
    obtain ⟨again, hagain, hselection⟩ := Reads.plainSelection hended hlimit hfound
    obtain rfl : read = again := Except.ok.inj (houtcome.symm.trans hagain)
    rw [Tree.same_iff, hsame] at hselection
    refine ⟨found, by rw [Entry.expression.parse_succ hlimit, hexpression], ?_⟩
    rw [Tree.same_iff]
    simp only [Phrase.soleConstraint, Tree.bare, Tree.phrase.injEq, heq_eq_eq, Tree.one.injEq,
      and_true, true_and] at hselection
    exact hselection.symm
  | error failure =>
    -- No plain selection can be read then, and so the one that was read is not plain.
    exfalso
    have hposition : (Place.ofTokens tokens).position = 0 := by
      rw [Place.position, (Place.begins_ofTokens tokens).behind_eq]
      rfl
    have hfails : Fails (.ofTokens tokens)
        (Entry.expression.complete (Rule.inside (limit + 1) limit)) :=
      fails_complete (Entry.expression.overflow?_of_length hlimit) hexpression
        (.refl (Place.ofTokens_closed tokens)) (Place.begins_ofTokens tokens) hposition
    obtain ⟨after, hrun⟩ := complete_of_outcome houtcome
    obtain ⟨between, hbody, -, -⟩ := body_of_complete hrun
    obtain ⟨last, hinner⟩ := body_of_enter hbody
    refine form_selection (Place.ofTokens_closed tokens) (plainSelection_fails hfails) hinner ?_
    rw [← Tree.blurred_zero, ← Tree.blurred_zero] at hsame
    exact Tree.form_eq_of_blurred_eq hsame

/-- What can be read behind the keyword of a query is read there. -/
theorem Reads.payload {selection : Phrase .selection} {find : Token}
    (hfind : find.kind = .keyword .find) (h : Entry.selection.Reads (limit + 1) tokens selection)
    (hpayload : 3 * (find :: tokens).length + 4 ≤ limit + 1) :
    Entry.payload.Reads (limit + 1) (find :: tokens) (.soleSelection selection) := by
  obtain ⟨hfront, haligned, next, hnext, hbegins, hposition⟩ := hended.behind_find hfind
  have hkind : (Place.ofTokens (find :: tokens)).kind = .keyword .find := by
    rw [Place.ofTokens_of_closed hfront.closed]
    exact hfind
  exact reads_of_body (Entry.payload.overflow?_of_length hpayload)
    (Returns.enter (reads_soleSelection hkind hnext
      (h.body hfront hlimit haligned hbegins hposition)))

end Inside

/-- No token list is both an expression and a structural constraint, whatever the limits. With
enough room a node statement is also a structural constraint, that one also a selection, an
expression exactly a plain selection, and a selection behind its keyword a payload. -/
theorem selection_unambiguous {tokens : List Token} (hended : Token.Ended tokens) :
    (∀ limit limit' expression constraint,
      (Entry.expression.parse limit tokens).outcome = .ok expression →
        (Entry.structuralConstraint.parse limit' tokens).outcome ≠ .ok constraint) ∧
    ∀ limit, 3 * tokens.length + 8 ≤ limit →
      (∀ statement, Entry.nodeStatement.Reads limit tokens statement →
        Entry.structuralConstraint.Reads limit tokens (.soleStatement statement)) ∧
      (∀ constraint, Entry.structuralConstraint.Reads limit tokens constraint →
        Entry.selection.Reads limit tokens (.soleStructure constraint)) ∧
      (∀ expression, Entry.expression.Reads limit tokens expression ↔
        Entry.selection.Reads limit tokens (.soleConstraint expression)) ∧
      ∀ selection find, find.kind = .keyword .find →
        Entry.selection.Reads limit tokens selection →
          Entry.payload.Reads limit (find :: tokens) (.soleSelection selection) := by
  refine ⟨fun limit limit' expression constraint hexpression hconstraint ↦ ?_,
    fun limit hlimit ↦ ?_⟩
  · obtain ⟨after, hrun⟩ := complete_of_outcome hexpression
    obtain ⟨after', hrun'⟩ := complete_of_outcome hconstraint
    obtain ⟨between, hbody, -, -⟩ := body_of_complete hrun'
    obtain ⟨⟨last, hhalting⟩, -⟩ := exists_halting rfl hbody
    obtain ⟨failure, final, hfails⟩ := fails_of_halting limit limit hended hhalting
      (fun phrase _ ↦ pure phrase) (.ofTokens tokens) rfl
    rw [← Scope.top_eq_inside] at hfails
    exact nomatch hrun.symm.trans hfails
  · obtain ⟨limit, rfl⟩ : ∃ less, limit = less + 1 := ⟨limit - 1, by omega⟩
    have hroom : 3 * tokens.length + 4 ≤ limit := by omega
    refine ⟨fun _ h ↦ h.structuralConstraint hended hroom, fun _ h ↦ h.selection hended hroom,
      fun _ ↦ ⟨fun h ↦ h.plainSelection hended hroom, fun h ↦ h.of_plainSelection hended hroom⟩,
      fun _ find hfind h ↦ h.payload hended hroom hfind ?_⟩
    rw [List.length_cons]
    omega

/-- An empty node is no expression, and behind its keyword it is a payload. -/
theorem selection_unambiguous_of_empty_node :
    let node : List Token :=
      [⟨.symbol .leftBracket, "[", ⟨5, 6⟩⟩, ⟨.symbol .rightBracket, "]", ⟨6, 7⟩⟩, .endAt 7]
    let find : Token := ⟨.keyword .find, "FIND", ⟨0, 4⟩⟩
    Token.Ended node ∧
      (∃ statement, Entry.nodeStatement.Reads 17 node statement ∧
        Entry.payload.Reads 17 (find :: node)
          (.soleSelection (.soleStructure (.soleStatement statement)))) ∧
      ∀ expression, (Entry.expression.parse 17 node).outcome ≠ .ok expression := by
  intro node find
  have hended : Token.Ended node := ⟨by decide, by decide⟩
  obtain ⟨hdisjoint, hagree⟩ := selection_unambiguous hended
  obtain ⟨hstatement, hconstraint, -, hselection⟩ := hagree 17 (by decide)
  have hparsed : (Entry.nodeStatement.parse 17 node).outcome.toOption.isSome = true := by
    decide +kernel
  obtain ⟨statement, houtcome⟩ : ∃ statement,
      (Entry.nodeStatement.parse 17 node).outcome = .ok statement := by
    revert hparsed
    cases (Entry.nodeStatement.parse 17 node).outcome with
    | ok statement => exact fun _ ↦ ⟨statement, rfl⟩
    | error failure => exact nofun
  have hreads : Entry.nodeStatement.Reads 17 node statement :=
    ⟨statement, houtcome, (Tree.same_iff _ _).mpr rfl⟩
  have hstructure := hstatement statement hreads
  refine ⟨hended, ⟨statement, hreads, hselection _ find rfl (hconstraint _ hstructure)⟩, ?_⟩
  obtain ⟨constraint, houtcome', -⟩ := hstructure
  exact fun expression hexpression ↦ hdisjoint 17 17 expression constraint hexpression houtcome'

end Entry

end CorpusQuery
