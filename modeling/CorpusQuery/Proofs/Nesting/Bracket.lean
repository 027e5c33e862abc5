import Mathlib.Logic.ExistsUnique
import CorpusQuery.Proofs.Nesting.Limit

/-!
The trace of a parse is well bracketed. `Event.Balanced` is the grammar of what can happen while so
many rules are open: rewinds of the innermost of them, and further rules, each from where it is
entered to where it is left. Everything that a parser adds to the trace follows this grammar, on
every way through it (`Rule.balances_run`), because a rule is left wherever its body ends.

What the grammar says of a single event is read off its place in the trace (`Event.Bracketed`): how
many rules are open there, and which other event it belongs to.
-/

set_option autoImplicit false
set_option relaxedAutoImplicit false

namespace CorpusQuery

open CorpusQuery.Parser

namespace Event

/-! ### Balanced stretches of a trace -/

/-- What can happen while so many rules are open, up to a limit, if none of them is left. -/
inductive Balanced (limit : Nat) : Nat → List Event → Prop
  | nil {depth : Nat} : Balanced limit depth []
  | rewound {depth : Nat} {rule : String} {token : Token} {rest : List Event}
      (hrest : Balanced limit depth rest) :
      Balanced limit depth (.rewound rule depth token :: rest)
  | nested {depth : Nat} {rule : String} {token : Token} {failure? : Option Failure}
      {inner rest : List Event} (hroom : depth < limit)
      (hinner : Balanced limit (depth + 1) inner) (hrest : Balanced limit depth rest) :
      Balanced limit depth
        (.entered rule (depth + 1) token :: (inner ++ .left rule (depth + 1) failure? :: rest))

/-- The event belongs to a rule inside the innermost of so many open rules, or is a rewind of that
one. -/
def Inside (depth : Nat) : Event → Prop
  | .entered _ own _ => depth < own
  | .left _ own _ => depth < own
  | .rewound _ own _ => depth ≤ own

theorem Inside.of_le {depth inner : Nat} {event : Event} (h : event.Inside inner)
    (hle : depth ≤ inner) : event.Inside depth := by
  cases event with
  | entered => exact Nat.lt_of_le_of_lt hle h
  | left => exact Nat.lt_of_le_of_lt hle h
  | rewound => exact Nat.le_trans hle h

/-- How many rules are open behind a run of events if so many were open before it. -/
def openFrom (count : Nat) (events : List Event) : Nat := events.foldl openAfter count

theorem openFrom_append (count : Nat) (events others : List Event) :
    openFrom count (events ++ others) = openFrom (openFrom count events) others :=
  List.foldl_append

namespace Balanced

variable {limit depth : Nat} {events others : List Event}

theorem append (h : Balanced limit depth events) (hothers : Balanced limit depth others) :
    Balanced limit depth (events ++ others) := by
  induction h with
  | nil => exact hothers
  | rewound _ ih => exact .rewound (ih hothers)
  | nested hroom hinner _ _ ih =>
    rw [List.cons_append, List.append_assoc, List.cons_append]
    exact .nested hroom hinner (ih hothers)

theorem inside (h : Balanced limit depth events) : ∀ event ∈ events, event.Inside depth := by
  induction h with
  | nil => exact List.forall_mem_nil _
  | rewound _ ih => exact List.forall_mem_cons.mpr ⟨Nat.le_refl _, ih⟩
  | nested _ _ _ ihinner ihrest =>
    refine List.forall_mem_cons.mpr ⟨Nat.lt_succ_self _, List.forall_mem_append.mpr
      ⟨fun event hevent ↦ (ihinner event hevent).of_le (Nat.le_succ _), ?_⟩⟩
    exact List.forall_mem_cons.mpr ⟨Nat.lt_succ_self _, ihrest⟩

theorem openFrom_eq (h : Balanced limit depth events) : openFrom depth events = depth := by
  induction h with
  | nil => rfl
  | rewound _ ih => exact ih
  | nested _ _ _ ihinner ihrest =>
    rw [openFrom] at ihinner ihrest ⊢
    rw [List.foldl_cons, List.foldl_append, openAfter, ihinner, List.foldl_cons, openAfter,
      Nat.add_sub_cancel, ihrest]

end Balanced

/-! ### Events in their places -/

/-- A rule is left at the event so many places behind the one where it was entered, and what happens
before belongs to it or to rules inside. -/
structure LeftAt (rule : String) (depth : Nat) (after : List Event) (count : Nat) : Prop where
  left : ∃ failure?, after[count]? = some (.left rule depth failure?)
  inside : ∀ event ∈ after.take count, event.Inside depth

/-- A rule that is left was entered so many events from the beginning, and what happened since
belongs to it or to rules inside. -/
structure EnteredAt (rule : String) (depth : Nat) (before : List Event) (count : Nat) : Prop where
  entered : ∃ token, before[count]? = some (.entered rule depth token)
  inside : ∀ event ∈ before.drop (count + 1), event.Inside depth

/-- What the brackets of a trace ask of an event between the others, if so many rules were open at
its beginning. -/
def Bracketed (limit start : Nat) (before after : List Event) : Event → Prop
  | .entered rule depth _ =>
    depth = openFrom start before + 1 ∧ depth ≤ limit ∧ ∃! count, LeftAt rule depth after count
  | .left rule depth _ =>
    depth = openFrom start before ∧ ∃! count, EnteredAt rule depth before count
  | .rewound _ depth _ => depth = openFrom start before

section Places

variable {limit depth count other : Nat} {rule : String} {before after : List Event}

/-- A rule is left only once: the event where it is left is not inside of it. -/
theorem LeftAt.unique (h : LeftAt rule depth after count)
    (hother : LeftAt rule depth after other) : count = other := by
  have hle {first second : Nat} (hfirst : LeftAt rule depth after first)
      (hsecond : LeftAt rule depth after second) : second ≤ first := by
    obtain ⟨failure?, hleft⟩ := hfirst.left
    refine Nat.le_of_not_lt fun hlt ↦ ?_
    have hmem : .left rule depth failure? ∈ after.take second :=
      List.mem_of_getElem? ((List.getElem?_take_of_lt hlt).trans hleft)
    exact Nat.lt_irrefl _ (hsecond.inside _ hmem)
  exact Nat.le_antisymm (hle hother h) (hle h hother)

theorem EnteredAt.unique (h : EnteredAt rule depth before count)
    (hother : EnteredAt rule depth before other) : count = other := by
  have hle {first second : Nat} (hfirst : EnteredAt rule depth before first)
      (hsecond : EnteredAt rule depth before second) : second ≤ first := by
    obtain ⟨token, hentered⟩ := hsecond.entered
    refine Nat.le_of_not_lt fun hlt ↦ ?_
    have hmem : .entered rule depth token ∈ before.drop (first + 1) := by
      have hdrop : (before.drop (first + 1))[second - (first + 1)]? =
          some (.entered rule depth token) := by
        rw [List.getElem?_drop, Nat.add_sub_cancel' hlt, hentered]
      exact List.mem_of_getElem? hdrop
    exact Nat.lt_irrefl _ (hfirst.inside _ hmem)
  exact Nat.le_antisymm (hle hother h) (hle h hother)

theorem leftAt_inner {inner rest : List Event} {failure? : Option Failure}
    (h : Balanced limit depth inner) :
    LeftAt rule depth (inner ++ .left rule depth failure? :: rest) inner.length :=
  ⟨⟨failure?, by simp⟩, by simpa using h.inside⟩

theorem enteredAt_inner {inner : List Event} {token : Token} (before : List Event)
    (h : Balanced limit depth inner) :
    EnteredAt rule depth (before ++ .entered rule depth token :: inner) before.length :=
  ⟨⟨token, by simp⟩, by simpa using h.inside⟩

theorem LeftAt.append (h : LeftAt rule depth after count) (more : List Event) :
    LeftAt rule depth (after ++ more) count := by
  obtain ⟨failure?, hleft⟩ := h.left
  have hlt := (List.getElem?_eq_some_iff.mp hleft).1
  refine ⟨⟨failure?, (List.getElem?_append_left hlt).trans hleft⟩, ?_⟩
  rw [List.take_append_of_le_length (Nat.le_of_lt hlt)]
  exact h.inside

theorem EnteredAt.behind (h : EnteredAt rule depth before count) (more : List Event) :
    EnteredAt rule depth (more ++ before) (more.length + count) := by
  obtain ⟨token, hentered⟩ := h.entered
  refine ⟨⟨token, ?_⟩, ?_⟩
  · rw [List.getElem?_append_right (Nat.le_add_right _ _), Nat.add_sub_cancel_left, hentered]
  · rw [Nat.add_assoc, List.drop_length_add_append]
    exact h.inside

/-- What is asked of an event is asked of it in every longer trace. -/
theorem Bracketed.extend {event : Event} (start : Nat) (more : List Event)
    (h : event.Bracketed limit (openFrom start more) before after) (rest : List Event) :
    event.Bracketed limit start (more ++ before) (after ++ rest) := by
  have hopen := openFrom_append start more before
  cases event with
  | entered rule depth token =>
    obtain ⟨hdepth, hle, count, hleft, -⟩ := h
    exact ⟨hopen ▸ hdepth, hle, count, hleft.append rest, fun _ hother ↦
      hother.unique (hleft.append rest)⟩
  | left rule depth failure? =>
    obtain ⟨hdepth, count, hentered, -⟩ := h
    exact ⟨hopen ▸ hdepth, _, hentered.behind more, fun _ hother ↦
      hother.unique (hentered.behind more)⟩
  | rewound rule depth token => exact h.trans hopen.symm

end Places

/-- Where a single event stands in two stretches with another event between them. -/
theorem append_cons_cases {first rest before after : List Event} {closing event : Event}
    (h : first ++ closing :: rest = before ++ event :: after) :
    (∃ middle, first = before ++ event :: middle ∧ after = middle ++ closing :: rest) ∨
      (before = first ∧ event = closing ∧ after = rest) ∨
        ∃ middle, before = first ++ closing :: middle ∧ rest = middle ++ event :: after := by
  rcases List.append_eq_append_iff.mp h with ⟨middle, rfl, hmiddle⟩ | ⟨middle, rfl, hmiddle⟩
  · rcases List.cons_eq_append_iff.mp hmiddle with ⟨rfl, hsame⟩ | ⟨others, rfl, hrest⟩
    · obtain ⟨rfl, rfl⟩ := List.cons.inj hsame
      exact .inr (.inl ⟨List.append_nil _, rfl, rfl⟩)
    · exact .inr (.inr ⟨others, rfl, hrest⟩)
  · rcases List.cons_eq_append_iff.mp hmiddle with ⟨rfl, hsame⟩ | ⟨others, rfl, hafter⟩
    · obtain ⟨rfl, rfl⟩ := List.cons.inj hsame
      exact .inr (.inl ⟨(List.append_nil _).symm, rfl, rfl⟩)
    · exact .inl ⟨others, rfl, hafter⟩

/-- In a balanced stretch every event is in its place. -/
theorem Balanced.bracketed {limit depth : Nat} {events : List Event}
    (h : Balanced limit depth events) {before after : List Event} {event : Event}
    (hevents : events = before ++ event :: after) : event.Bracketed limit depth before after := by
  induction h generalizing before after with
  | nil => simp at hevents
  | @rewound depth rule token rest _ ih =>
    rcases List.cons_eq_append_iff.mp hevents with ⟨rfl, hsame⟩ | ⟨others, rfl, hrest⟩
    · cases hsame
      exact rfl
    · have hplace := Bracketed.extend depth [.rewound rule depth token] (ih hrest) []
      rwa [List.append_nil] at hplace
  | @nested depth rule token failure? inner rest hroom hinner hrest ihinner ihrest =>
    have hopen : openFrom depth (.entered rule (depth + 1) token :: inner) = depth + 1 :=
      hinner.openFrom_eq
    rcases List.cons_eq_append_iff.mp hevents with ⟨rfl, hsame⟩ | ⟨others, rfl, hothers⟩
    · cases hsame
      exact ⟨rfl, hroom, _, leftAt_inner hinner, fun _ hother ↦ hother.unique (leftAt_inner hinner)⟩
    rcases append_cons_cases hothers with
      ⟨middle, hmiddle, rfl⟩ | ⟨rfl, rfl, rfl⟩ | ⟨middle, rfl, hmiddle⟩
    · exact Bracketed.extend depth [.entered rule (depth + 1) token] (ihinner hmiddle) _
    · have hentered : EnteredAt rule (depth + 1)
          (.entered rule (depth + 1) token :: others) 0 := enteredAt_inner [] hinner
      exact ⟨hopen.symm, 0, hentered, fun _ hother ↦ hother.unique hentered⟩
    · have hback : openFrom depth (.entered rule (depth + 1) token ::
          (inner ++ [.left rule (depth + 1) failure?])) = depth := by
        rw [← List.cons_append, openFrom_append, hopen]
        rfl
      have hplace := Bracketed.extend depth (.entered rule (depth + 1) token ::
        (inner ++ [.left rule (depth + 1) failure?])) (hback.symm ▸ ihrest hmiddle) []
      rwa [List.append_nil, List.cons_append, List.append_assoc] at hplace

end Event

/-! ### What parsers add to the trace -/

namespace Parser

variable {α : Type} {limit depth : Nat}

/-- The second session comes from the first one by events that so many open rules allow. -/
def Balances (limit depth : Nat) (session after : Session) : Prop :=
  ∃ added, after.events.reverse = session.events.reverse ++ added ∧
    Event.Balanced limit depth added

theorem Balances.of_events_eq {session after : Session} (h : after.events = session.events) :
    Balances limit depth session after :=
  ⟨[], by rw [h, List.append_nil], .nil⟩

theorem Balances.trans {first second third : Session} (h : Balances limit depth first second)
    (h' : Balances limit depth second third) : Balances limit depth first third := by
  obtain ⟨added, hevents, hadded⟩ := h
  obtain ⟨added', hevents', hadded'⟩ := h'
  exact ⟨added ++ added', by rw [hevents', hevents, List.append_assoc], hadded.append hadded'⟩

/-- A failed attempt adds its rewind. -/
theorem Balances.rewound {session after : Session} (h : Balances limit depth session after)
    (title : String) : Balances limit depth session (rewound title depth session after) := by
  obtain ⟨added, hevents, hadded⟩ := h
  refine ⟨added ++ [.rewound title depth session.cursor.here], ?_, hadded.append (.rewound .nil)⟩
  rw [Parser.rewound, List.reverse_cons, hevents, List.append_assoc]

/-- A rule adds the event where it is entered, what its body adds, and the event where it is
left. -/
theorem balances_enter {title : String} {body : Parser α} {session : Session}
    (hroom : depth < limit)
    (h : Balances limit (depth + 1) (entered title (depth + 1) session)
      (leave body (entered title (depth + 1) session))) :
    Balances limit depth session (leave (enter title (depth + 1) body) session) := by
  obtain ⟨failure?, hleave⟩ := leave_enter title (depth + 1) body session
  obtain ⟨added, hevents, hadded⟩ := h
  have hrule : Event.Balanced limit depth (.entered title (depth + 1) session.cursor.here ::
      (added ++ [.left title (depth + 1) failure?])) := .nested hroom hadded .nil
  refine ⟨_, ?_, hrule⟩
  rw [hleave, left, List.reverse_cons, hevents, entered, List.reverse_cons]
  simp only [List.append_assoc, List.cons_append, List.nil_append]

/-- Whatever a parser does in a scope with so many open rules, it adds a balanced stretch, as long
as the rules of the scope do. -/
theorem Alike.balances {scope other : Scope}
    (hscope : ∀ rule session,
      Balances limit scope.depth session (leave (scope.nested rule) session))
    {parser parser' : Parser α} (h : Alike scope other parser parser') (session : Session) :
    Balances limit scope.depth session (leave parser session) :=
  h.leave_related (Balances limit scope.depth) Balances.trans (fun _ _ ↦ .of_events_eq rfl)
    (fun title _ _ h ↦ h.rewound title) hscope session

end Parser

namespace Rule

/-- In a scope with so many open rules every rule adds a balanced stretch to the trace. -/
theorem balances_run (limit room : Nat) (hroom : room ≤ limit) (rule : Rule) (session : Session) :
    Balances limit (limit - room) session (leave (rule.run limit room) session) := by
  induction room generalizing rule session with
  | zero => exact .of_events_eq rfl
  | succ room ih =>
    have hdepth : limit - (room + 1) + 1 = limit - room := by omega
    have hbody (session : Session) : Balances limit (limit - room) session
        (leave (rule.body (inside limit room)) session) :=
      (alike_inside limit room rule).balances (ih (Nat.le_of_succ_le hroom)) session
    rw [← hdepth] at hbody
    rw [run_succ, ← hdepth]
    exact balances_enter (by omega) (hbody _)

end Rule

/-! ### Whole parses -/

/-- A trace whose rules are closed and nested, up to a limit. -/
structure WellBracketed (limit : Nat) (events : List Event) : Prop where
  /-- Every event has the depth of its place, and rules are entered and left in pairs. -/
  bracketed : ∀ before event after, events = before ++ event :: after →
    event.Bracketed limit 0 before after
  /-- At the end no rule is open. -/
  closed : openRules events = 0

theorem Event.Balanced.wellBracketed {limit : Nat} {events : List Event}
    (h : Balanced limit 0 events) : WellBracketed limit events :=
  ⟨fun _ _ _ hevents ↦ h.bracketed hevents, h.openFrom_eq⟩

namespace Entry

/-- Whatever becomes of a parse, its trace is well bracketed: each rule that is entered is one level
deeper than the rules that are open there, and no deeper than the limit; it is left exactly once, at
its own depth, and all that happens in between belongs to it; rewinds stand at the depth of the
innermost open rule; and no rule stays open. -/
theorem trace_well_bracketed (entry : Entry) (limit : Nat) (tokens : List Token) :
    WellBracketed limit (entry.parse limit tokens).events := by
  have hrules := Rule.balances_run limit limit (Nat.le_refl _)
  rw [Nat.sub_self] at hrules
  obtain ⟨added, hevents, hadded⟩ := (entry.alike_top limit).balances hrules (.ofTokens tokens)
  rw [events_parse, hevents]
  exact hadded.wellBracketed

end Entry

end CorpusQuery
