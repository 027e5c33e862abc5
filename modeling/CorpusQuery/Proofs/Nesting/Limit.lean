import Mathlib.Data.Nat.Find
import CorpusQuery.Proofs.Nesting.Advance
import CorpusQuery.Proofs.Nesting.Cutoff

/-!
How deeply a parse can nest, and what a nesting limit does to it. Over `n` tokens before the end of
the input a parse never has more than `3 * n + 4` rules open (`Entry.linear_nesting`), because
every rule and every loop moves the cursor forward. A limit from there on is therefore never met,
and the least limit that is not met is a clean cut: below it every parse fails at the limit, and
from it on every parse is the same (`Entry.nesting_cutoff`).
-/

set_option autoImplicit false
set_option relaxedAutoImplicit false

namespace CorpusQuery

open CorpusQuery.Parser CorpusQuery.Place CorpusQuery.Grammar

/-! ### Open rules -/

/-- How many rules are open behind an event if so many were open before it. -/
def Event.openAfter (count : Nat) : Event → Nat
  | .entered _ _ _ => count + 1
  | .left _ _ _ => count - 1
  | .rewound _ _ _ => count

/-- The number of rules that are open behind a run of events, counted on the events alone. -/
def openRules (events : List Event) : Nat := events.foldl Event.openAfter 0

theorem openRules_concat (events : List Event) (event : Event) :
    openRules (events ++ [event]) = event.openAfter (openRules events) := by
  rw [openRules, List.foldl_append]
  rfl

/-- The trace so far leaves so many rules open and never had more of them open than a linear bound;
and if the limit reaches the bound it was not met. -/
structure Linear (limit total depth : Nat) (events : List Event) (overflow : Option Failure) :
    Prop where
  openRules_eq : openRules events.reverse = depth
  le_bound : ∀ prior, prior <+: events.reverse → openRules prior ≤ 3 * total + 4
  overflow_eq : 3 * total + 4 ≤ limit → overflow = none

namespace Linear

variable {limit total depth : Nat} {events : List Event} {overflow : Option Failure}

theorem cons (h : Linear limit total depth events overflow) (event : Event)
    (hle : event.openAfter depth ≤ 3 * total + 4) :
    Linear limit total (event.openAfter depth) (event :: events) overflow where
  openRules_eq := by rw [List.reverse_cons, openRules_concat, h.openRules_eq]
  le_bound prior hprior := by
    rw [List.reverse_cons, List.prefix_concat_iff] at hprior
    rcases hprior with rfl | hprior
    · rw [openRules_concat, h.openRules_eq]
      exact hle
    · exact h.le_bound prior hprior
  overflow_eq := h.overflow_eq

theorem depth_le (h : Linear limit total depth events overflow) : depth ≤ 3 * total + 4 :=
  h.openRules_eq ▸ h.le_bound _ (List.prefix_refl _)

theorem forgiving (depth' : Nat) : Ensures.Forgiving (Linear limit total depth) depth' :=
  fun title token _ _ h ↦ h.cons (.rewound title depth' token) h.depth_le

end Linear

/-- The rank of a rule is at most that of a node. -/
theorem Rule.rank_le (rule : Rule) : rule.rank ≤ 4 := by
  cases rule <;> simp [rank]

theorem Scope.top_eq_inside (limit : Nat) : Scope.top limit = Rule.inside limit limit := by
  rw [Scope.top, Rule.inside, Nat.sub_self]

/-- As long as there is room below the limit, the rules of a scope keep to the linear bound. -/
theorem steady_linear (limit total room : Nat) (hroom : room ≤ limit) :
    Steady total (Linear limit total (limit - room)) (limit - room) (Rule.inside limit room) := by
  induction room with
  | zero =>
    refine ⟨Linear.forgiving _, fun rule base hdepth session hfit hplace ↦ ?_⟩
    have hrank := rule.rank_le
    have hposition : base ≤ session.cursor.position := hplace
    have htotal : session.cursor.position + session.cursor.ahead.length = total := hfit.total_eq
    exact ⟨hfit.closed, hfit.total_eq, hfit.kept.openRules_eq, hfit.kept.le_bound,
      fun hle ↦ by omega⟩
  | succ room ih =>
    have hsteady := ih (by omega)
    refine ⟨Linear.forgiving _, fun rule base hdepth ↦ ?_⟩
    have hsucc : limit - (room + 1) + 1 = limit - room := by omega
    refine .enter (fun session hfit hplace ↦ ?_) (fun failure? events overflow h ↦ ?_)
      (rule.ensures_body hsteady (by omega))
    · have hrank := rule.rank_le
      have hposition : base ≤ session.cursor.position := hplace
      have htotal : session.cursor.position + session.cursor.ahead.length = total := hfit.total_eq
      rw [← hsucc]
      exact hfit.kept.cons (.entered _ _ _) (by simp only [Event.openAfter]; omega)
    · have hleft := h.cons (.left rule.title (limit - room) failure?)
        (Nat.le_trans (Nat.sub_le _ _) h.depth_le)
      rwa [show Event.openAfter (limit - room) (.left rule.title (limit - room) failure?) =
        limit - (room + 1) from rfl] at hleft

/-- Wherever a scope stands in the nesting, its rules move the cursor forward. -/
theorem steady_inside (limit total room : Nat) :
    Steady total (fun _ _ ↦ True) 0 (Rule.inside limit room) := by
  induction room with
  | zero =>
    exact ⟨fun _ _ _ _ _ ↦ trivial, fun _ _ _ _ hfit _ ↦ ⟨hfit.closed, hfit.total_eq, trivial⟩⟩
  | succ room ih =>
    refine ⟨fun _ _ _ _ _ ↦ trivial, fun rule base _ ↦ ?_⟩
    exact .enter (fun _ _ _ ↦ trivial) (fun _ _ _ _ ↦ trivial)
      (rule.ensures_body ih (Nat.zero_le _))

/-! ### Moving forward -/

/-- The parts of the grammar that are never empty: the rules, as they are nested and as they are
read, and everything else that has to begin with a token of its own. -/
inductive Grammar.Production (scope : Scope) : {α : Type} → Parser α → Prop
  | nested (rule : Rule) : Production scope (scope.nested rule)
  | body (rule : Rule) : Production scope (rule.body scope)
  | variableName : Production scope variableName
  | memberName : Production scope memberName
  | identifier : Production scope identifier
  | integer : Production scope integer
  | numeral : Production scope numeral
  | signedNumeral : Production scope signedNumeral
  | expressionsUntil (close : Kind) (h : close ≠ .endOfInput) :
      Production scope (expressionsUntil scope close)
  | listItems : Production scope (listItems scope)
  | primary : Production scope (primary scope)
  | operand : Production scope (operand scope)
  | target : Production scope target
  | boundedRange : Production scope (boundedRange scope)
  | loopControl : Production scope (loopControl scope)
  | counter : Production scope (counter scope)
  | simpleQuantifier : Production scope simpleQuantifier
  | quantifier : Production scope quantifier
  | markerOperand : Production scope (markerOperand scope)
  | edge : Production scope (edge scope)
  | element : Production scope (element scope)
  | nodeContent : Production scope (nodeContent scope)
  | markedContent : Production scope (markedContent scope)
  | nodeStatements : Production scope (nodeStatements scope)
  | grouping : Production scope (grouping scope)
  | nodes : Production scope (nodes scope)
  | nodeStatementOperand : Production scope (nodeStatementOperand scope)
  | binding : Production scope binding
  | lane : Production scope (lane scope)
  | plainSelection : Production scope (plainSelection scope)
  | structuralSelection : Production scope (structuralSelection scope)
  | groupExpression : Production scope (groupExpression scope)
  | group : Production scope (group scope)
  | orderExpression : Production scope (orderExpression scope)

section Forward

variable {total base : Nat} {kept : List Event → Option Failure → Prop} {scope : Scope} {α : Type}

theorem Grammar.Production.ensures (hs : Steady total kept 0 scope) {parser : Parser α}
    (h : Production scope parser) :
    Ensures total kept (Past base) parser fun _ ↦ Past (base + 1) := by
  cases h with
  | nested rule =>
    refine hs.nested rule base ?_
    have hrank : 0 < rule.rank := by cases rule <;> simp [Rule.rank]
    omega
  | body rule => exact rule.ensures_body hs (Nat.zero_le _)
  | variableName => exact ensures_variableName
  | memberName => exact ensures_memberName
  | identifier => exact ensures_identifier
  | integer => exact ensures_integer
  | numeral => exact ensures_numeral
  | signedNumeral => exact ensures_signedNumeral
  | expressionsUntil close hclose => exact ensures_expressionsUntil hs hclose (by omega)
  | listItems => exact ensures_listItems hs (by omega)
  | primary => exact ensures_primary hs (by omega)
  | operand => exact ensures_operand hs (by omega)
  | target => exact ensures_target
  | boundedRange => exact ensures_boundedRange hs (by omega)
  | loopControl => exact ensures_loopControl hs (by omega)
  | counter => exact ensures_counter hs (by omega)
  | simpleQuantifier => exact ensures_simpleQuantifier
  | quantifier => exact ensures_quantifier
  | markerOperand => exact ensures_markerOperand hs (by omega)
  | edge => exact ensures_edge hs (by omega)
  | element => exact ensures_element hs (by omega)
  | nodeContent => exact ensures_nodeContent hs (by omega)
  | markedContent => exact ensures_markedContent hs (by omega)
  | nodeStatements => exact ensures_nodeStatements hs (by omega)
  | grouping => exact ensures_grouping hs (by omega)
  | nodes => exact ensures_nodes hs (by omega)
  | nodeStatementOperand => exact ensures_nodeStatementOperand hs (by omega)
  | binding => exact ensures_binding
  | lane => exact ensures_lane hs (by omega)
  | plainSelection => exact ensures_plainSelection hs (by omega)
  | structuralSelection => exact ensures_structuralSelection hs (by omega)
  | groupExpression => exact ensures_groupExpression hs (by omega)
  | group => exact ensures_group hs (by omega)
  | orderExpression => exact ensures_orderExpression hs (by omega)

theorem Grammar.Separated.production {separator : Kind} {item : Parser α}
    (h : Separated scope separator item) :
    separator ≠ .endOfInput ∧ Production scope item := by
  cases h with
  | expression => exact ⟨nofun, .nested (.expression 0)⟩
  | counter => exact ⟨nofun, .counter⟩
  | argument => exact ⟨nofun, .signedNumeral⟩
  | simpleQuantifier => exact ⟨nofun, .simpleQuantifier⟩
  | element => exact ⟨nofun, .element⟩
  | memberName => exact ⟨nofun, .memberName⟩
  | binding => exact ⟨nofun, .binding⟩
  | lane => exact ⟨nofun, .lane⟩
  | groupExpression => exact ⟨nofun, .groupExpression⟩
  | orderExpression => exact ⟨nofun, .orderExpression⟩

theorem Grammar.Repeated.ensures (hs : Steady total kept 0 scope) {item : Parser (Option α)}
    (h : Repeated scope item) :
    Ensures total kept (Past base) item fun value? ↦ Past (base + value?.isSome.toNat) := by
  cases h with
  | matchFlag => exact .oneOf rfl
  | arrangement => exact .oneOf rfl
  | nodeStatement => exact ensures_nodeStatement? hs (by omega)
  | behind h =>
    obtain ⟨hseparator, hitem⟩ := h.production
    exact .behind hseparator ((hitem.ensures hs).least (Nat.le_succ _))

/-- Every loop of the grammar that goes on has passed a token. -/
theorem Grammar.Loop.ensures (hs : Steady total kept 0 scope) {step : α → Parser (Option α)}
    (h : Loop scope step) (value : α) :
    Ensures total kept (Past base) (step value) fun next? ↦
      Past (base + next?.isSome.toNat) := by
  cases h with
  | items h =>
    refine .bind (h.ensures hs) fun value? ↦ .pure fun _ hplace ↦ ?_
    rw [Option.isSome_map]
    exact hplace
  | expression least => exact ensures_continuation hs (by omega) least value
  | marker least => exact ensures_markerContinuation hs (by omega) least value
  | nodeStatement least => exact ensures_nodeStatementContinuation hs (by omega) least value

end Forward

/-- What a parser does that moves forward: fewer tokens are left. -/
theorem Parser.Ensures.remaining_lt {α : Type} {parser : Parser α} {session after : Session}
    {value : α} {promised : α → Place → Prop} (hclosed : session.cursor.Closed)
    (h : Ensures session.cursor.total (fun _ _ ↦ True) (Past session.cursor.position) parser
      promised)
    (hpromised : ∀ place, promised value place → place.Past (session.cursor.position + 1))
    (hrun : parser session = .ok value after) : after.remaining < session.remaining := by
  obtain ⟨hfit, hplace⟩ := h.ok ⟨hclosed, rfl, trivial⟩ (Nat.le_refl _) hrun
  have hafter : session.cursor.position + 1 ≤ after.cursor.position := hpromised _ hplace
  have htotal : after.cursor.position + after.cursor.ahead.length =
    session.cursor.position + session.cursor.ahead.length := hfit.total_eq
  simp only [Session.remaining]
  omega

/-- In a scope every parser is put together from loops and productions, and all of these move
forward: a step that a loop goes on with, and a production that returns, leave fewer tokens than
there were. -/
structure Scope.Progressive (scope : Scope) : Prop where
  rules : ∀ rule : Rule, Alike scope scope (rule.body scope) (rule.body scope)
  entries : ∀ entry : Entry, Alike scope scope (entry.complete scope) (entry.complete scope)
  loops : ∀ {α : Type} {step : α → Parser (Option α)}, Loop scope step →
    ∀ {value next : α} {session after : Session}, session.cursor.Closed →
      step value session = .ok (some next) after → after.remaining < session.remaining
  productions : ∀ {α : Type} {parser : Parser α}, Production scope parser →
    ∀ {value : α} {session after : Session}, session.cursor.Closed →
      parser session = .ok value after → after.remaining < session.remaining

theorem Rule.progressive_inside (limit room : Nat) : (inside limit room).Progressive where
  rules rule := rule.alike_body
  entries entry := entry.alike_complete
  loops := by
    intro α step hloop value next session after hclosed hrun
    have hsteady := steady_inside limit session.cursor.total room
    refine (hloop.ensures hsteady value).remaining_lt hclosed ?_ hrun
    exact fun _ h ↦ h
  productions := by
    intro α parser hproduction value session after hclosed hrun
    have hsteady := steady_inside limit session.cursor.total room
    exact (hproduction.ensures hsteady).remaining_lt hclosed (fun _ h ↦ h) hrun

/-! ### Whole parses -/

/-- The number of tokens before the end of the input that closes a token list, or would have to. -/
def Token.countBeforeEnd (tokens : List Token) : Nat :=
  match tokens.getLast? with
  | some last => if last.kind = .endOfInput then tokens.length - 1 else tokens.length
  | none => 0

theorem Place.ofTokens_closed (tokens : List Token) : (Place.ofTokens tokens).Closed := by
  cases tokens with
  | nil => rfl
  | cons first rest =>
    simp only [Place.ofTokens]
    split
    · assumption
    · simp [Place.Closed, List.getLastD_eq_getLast?, Token.endAt]

theorem Place.total_ofTokens (tokens : List Token) :
    (Place.ofTokens tokens).total = Token.countBeforeEnd tokens := by
  cases tokens with
  | nil => rfl
  | cons first rest =>
    have hlast : (first :: rest).getLast? = some (rest.getLastD first) := by
      rw [List.getLast?_cons, List.getLastD_eq_getLast?]
    simp only [Place.ofTokens, Token.countBeforeEnd, hlast]
    split <;> simp [Place.total]

namespace Entry

variable (entry : Entry)

theorem ensures_body {total : Nat} {kept : List Event → Option Failure → Prop} {scope : Scope}
    (hs : Steady total kept 0 scope) :
    Ensures total kept (Past 0) (entry.body scope) fun _ ↦ Past 0 := by
  cases entry with
  | expression => exact (hs.expression 0 (by omega)).least (Nat.zero_le _)
  | nodeStatement => exact (hs.nodeStatement 0 (by omega)).least (Nat.zero_le _)
  | structuralConstraint => exact (hs.structuralConstraint (by omega)).least (Nat.zero_le _)
  | selection => exact (hs.selection (by omega)).least (Nat.zero_le _)
  | payload => exact (hs.nested .payload 0 (by simp [Rule.rank])).least (Nat.zero_le _)
  | group => exact (ensures_group hs (by omega)).least (Nat.zero_le _)
  | result => exact ensures_result hs (by omega)

/-- The session in which a parse ends keeps to the linear bound. -/
theorem linear_leave (limit : Nat) (tokens : List Token) :
    Linear limit (Token.countBeforeEnd tokens) 0
      (leave (entry.complete (.top limit)) (.ofTokens tokens)).events
      (entry.overflow? tokens limit) := by
  have hsteady := steady_linear limit (Token.countBeforeEnd tokens) limit (Nat.le_refl _)
  rw [← Scope.top_eq_inside, Nat.sub_self] at hsteady
  have hstart : Fit (Token.countBeforeEnd tokens)
      (Linear limit (Token.countBeforeEnd tokens) 0) (.ofTokens tokens) := by
    refine ⟨Place.ofTokens_closed tokens, Place.total_ofTokens tokens, rfl, ?_, fun _ ↦ rfl⟩
    intro prior hprior
    rw [List.prefix_nil.mp hprior]
    exact Nat.zero_le _
  have hcomplete : Ensures (Token.countBeforeEnd tokens)
      (Linear limit (Token.countBeforeEnd tokens) 0) (Past 0) (entry.complete (.top limit))
      fun _ ↦ Past 0 :=
    .bind (entry.ensures_body hsteady) fun _ ↦ .bind .expect_end fun _ ↦ .pure fun _ h ↦ h
  have hleave := hcomplete _ hstart (Nat.zero_le _)
  unfold overflow? leave
  split <;> rename_i heq <;> rw [heq] at hleave
  · exact hleave.1.kept
  · exact hleave.kept

/-- The events of a parse are those of the session in which it ends. -/
theorem events_parse (limit : Nat) (tokens : List Token) :
    (entry.parse limit tokens).events =
      (leave (entry.complete (.top limit)) (.ofTokens tokens)).events.reverse := by
  unfold parse leave
  cases entry.complete (.top limit) (.ofTokens tokens) with
  | ok phrase after => rfl
  | error failure after => rfl

/-- A limit that reaches the linear bound is not met. -/
theorem overflow?_eq_none {limit : Nat} {tokens : List Token}
    (h : 3 * Token.countBeforeEnd tokens + 4 ≤ limit) : entry.overflow? tokens limit = none :=
  (entry.linear_leave limit tokens).overflow_eq h

end Entry

/-! ### Messages -/

/-- The message of a failure at a nesting limit. -/
def nestingMessage (limit : Nat) : String :=
  "nesting limit exceeded (maximum depth is " ++ toString limit ++ ")"

theorem initials_nestingMessage (limit : Nat) :
    (nestingMessage limit).toList.take 2 = ['n', 'e'] := by
  have hnesting (digits : String) :
      ("nesting limit exceeded (maximum depth is " ++ digits ++ ")").toList.take 2 =
        ['n', 'e'] := by
    rw [String.toList_append, String.toList_append, List.append_assoc]
    rfl
  exact hnesting _

theorem Failure.message_of_nestingLimit {failure : Failure} {limit : Nat}
    (h : failure.cause = .nestingLimit limit) : failure.message = nestingMessage limit := by
  unfold message
  rw [h]
  rfl

/-- A failure for a reason in the tokens never reads like a failure at a limit. -/
theorem Failure.message_ne_nestingMessage {failure : Failure}
    (h : failure.cause.isSyntactic = true) (limit : Nat) :
    failure.message ≠ nestingMessage limit := by
  intro heq
  have hinitials : failure.message.toList.take 2 = ['n', 'e'] :=
    heq ▸ initials_nestingMessage limit
  clear heq
  unfold message at hinitials
  split at hinitials
  · split at hinitials
    all_goals
      simp only [String.toList_append, List.append_assoc] at hinitials
      exact nomatch hinitials
  · simp only [String.toList_append, List.append_assoc] at hinitials
    exact nomatch hinitials
  · simp only [String.toList_append, List.append_assoc] at hinitials
    exact nomatch hinitials
  · simp only [String.toList_append, List.append_assoc] at hinitials
    exact nomatch hinitials
  · exact nomatch hinitials
  · simp only [String.toList_append, List.append_assoc] at hinitials
    exact nomatch hinitials
  · rename_i hcause
    clear hinitials
    rw [hcause] at h
    cases h
  · rename_i hcause
    rw [hcause] at h
    cases h

namespace Entry

/-- Every loop step and every production of the grammar moves the cursor forward, in whatever scope
of a parse it runs; so over the tokens before the end of the input a parse never has more than three
open rules for each of them and four more, and a limit that leaves so much room is never what it
fails at. -/
theorem linear_nesting (limit : Nat) :
    (∀ room, (Rule.inside limit room).Progressive) ∧ (Scope.top limit).Progressive ∧
      ∀ (entry : Entry) (tokens : List Token),
        (∀ prior, prior <+: (entry.parse limit tokens).events →
          openRules prior ≤ 3 * Token.countBeforeEnd tokens + 4) ∧
        (3 * Token.countBeforeEnd tokens + 4 ≤ limit →
          ∀ failure, (entry.parse limit tokens).outcome = .error failure →
            ∀ depth, failure.message ≠ nestingMessage depth) := by
  refine ⟨Rule.progressive_inside limit, ?_, fun entry tokens ↦ ⟨fun prior hprior ↦ ?_, ?_⟩⟩
  · rw [Scope.top_eq_inside]
    exact Rule.progressive_inside limit limit
  · rw [events_parse] at hprior
    exact (entry.linear_leave limit tokens).le_bound prior hprior
  · intro hlimit failure hfailure
    have hoverflow := entry.overflow?_eq_none hlimit
    exact Failure.message_ne_nestingMessage (isSyntactic_of_overflow_none hoverflow hfailure)

/-- In `(((` four expressions are open at once, one inside the other. Three tokens leave room for
thirteen, and what the failure says is that an expression is missing. -/
theorem linear_nesting_of_open_parentheses :
    let tokens : List Token :=
      [⟨.symbol .leftParen, "(", ⟨0, 1⟩⟩, ⟨.symbol .leftParen, "(", ⟨1, 2⟩⟩,
        ⟨.symbol .leftParen, "(", ⟨2, 3⟩⟩, .endAt 3]
    let failure : Failure := ⟨.endAt 3, ∅ ∪ expressionStart, .missing "an expression"⟩
    openRules ((Entry.expression.parse 13 tokens).events.take 4) = 4 ∧
      (∀ prior, prior <+: (Entry.expression.parse 13 tokens).events → openRules prior ≤ 13) ∧
        (Entry.expression.parse 13 tokens).outcome = .error failure ∧
          ∀ depth, failure.message ≠ nestingMessage depth := by
  intro tokens failure
  have houtcome : (Entry.expression.parse 13 tokens).outcome = .error failure := rfl
  obtain ⟨hopen, hunmet⟩ := (linear_nesting 13).2.2 .expression tokens
  exact ⟨rfl, hopen, houtcome, hunmet (by decide) failure houtcome⟩

/-- There is a least limit that a parse does not meet. From it on the parse is always the same and
does not fail at a limit, and below it the parse always fails at the limit. -/
theorem nesting_cutoff (entry : Entry) (tokens : List Token) :
    ∃ threshold : Nat, ∃ outcome : Except Failure (Phrase entry.category),
      (∀ failure, outcome = .error failure → ∀ depth, failure.message ≠ nestingMessage depth) ∧
      (∀ limit, threshold ≤ limit → (entry.parse limit tokens).outcome = outcome) ∧
      ∀ limit, limit < threshold → ∃ failure,
        (entry.parse limit tokens).outcome = .error failure ∧
          failure.message = nestingMessage limit := by
  classical
  have hexists : ∃ limit, entry.overflow? tokens limit = none :=
    ⟨_, entry.overflow?_eq_none (Nat.le_refl _)⟩
  have hthreshold := Nat.find_spec hexists
  refine ⟨Nat.find hexists, (entry.parse (Nat.find hexists) tokens).outcome, ?_, ?_, ?_⟩
  · intro failure hfailure
    exact Failure.message_ne_nestingMessage (isSyntactic_of_overflow_none hthreshold hfailure)
  · intro limit hle
    obtain ⟨more, rfl⟩ := Nat.exists_eq_add_of_le hle
    rw [(parse_of_overflow_none hthreshold more).2]
  · intro limit hlt
    obtain ⟨failure, hfailure⟩ := Option.ne_none_iff_exists'.mp (Nat.find_min hexists hlt)
    obtain ⟨houtcome, hcause⟩ := outcome_of_overflow hfailure
    exact ⟨failure, houtcome, Failure.message_of_nestingLimit hcause⟩

end Entry

end CorpusQuery
