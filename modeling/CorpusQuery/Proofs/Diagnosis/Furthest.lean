import CorpusQuery.Failure
import CorpusQuery.Proofs.Vocabulary.KindSet

/-!
The failure to report. Among the failures of alternatives those count that got furthest
(`Record.furthest`). A single one is reported as it is; several are reported as one that stands
where they stand and expects whatever one of them expects. Nothing of this depends on the reasons
for the failures, so it is shown of records, whose class and message are stored and need not even
fit the token. A choice goes through the records with the best one so far and a flag, and it is
described by what one comparison does to a choice that stands for the records before it
(`Picked.compare`). A failure is picked as its record is (`Failure.record_exhausted`).

What is held is given in two parts. How far it got and what it expects is a matter of the records
alone and not of their order (`Reaches`), which is why calls may be nested in each other. Which
token it shows and whether it is one of the records depends on how many of them got furthest
(`Picked`).
-/

set_option autoImplicit false
set_option relaxedAutoImplicit false

namespace CorpusQuery.Failure

/-- A failure as it is reported: with its class and its message in place of the reason for it. -/
structure Record where
  failureClass : FailureClass
  token : Token
  expected : KindSet
  message : String
  deriving DecidableEq, Repr

/-- The record of a failure. -/
def record (failure : Failure) : Record :=
  ⟨failure.failureClass, failure.token, failure.expected, failure.message⟩

namespace Record

variable {record held other first : Record} {records others : List Record}

/-! ### How far records got -/

/-- Where the offending token starts. -/
def start (record : Record) : Nat := record.token.span.start

/-- Whether the offending token is an end of input. -/
def atEnd (record : Record) : Bool := record.token.kind == .endOfInput

/-- Where the furthest of some records starts. -/
def reach (records : List Record) : Nat := (records.map start).foldr max 0

/-- The records that got furthest, in order. -/
def furthest (records : List Record) : List Record :=
  records.filter fun record ↦ record.start = reach records

@[simp] theorem reach_singleton (record : Record) : reach [record] = record.start :=
  Nat.max_zero _

theorem reach_append (records others : List Record) :
    reach (records ++ others) = max (reach records) (reach others) := by
  induction records with
  | nil => simp [reach]
  | cons record rest ih =>
    simp only [reach, List.cons_append, List.map_cons, List.foldr_cons] at ih ⊢
    rw [ih, Nat.max_assoc]

theorem start_le_reach (h : record ∈ records) : record.start ≤ reach records := by
  induction records with
  | nil => cases h
  | cons first rest ih =>
    simp only [reach, List.map_cons, List.foldr_cons]
    rcases List.mem_cons.mp h with rfl | hrest
    · exact Nat.le_max_left _ _
    · exact Nat.le_trans (ih hrest) (Nat.le_max_right _ _)

theorem reach_eq_of_perm (h : records.Perm others) : reach records = reach others :=
  (h.map start).foldr_eq 0

theorem mem_furthest : record ∈ furthest records ↔
    record ∈ records ∧ record.start = reach records := by
  simp [furthest]

theorem furthest_perm (h : records.Perm others) : (furthest records).Perm (furthest others) := by
  unfold furthest
  rw [reach_eq_of_perm h]
  exact h.filter _

/-- What another record does to those that got furthest. -/
theorem furthest_concat (records : List Record) (record : Record) :
    furthest (records ++ [record]) =
      if reach records < record.start then [record]
      else if record.start = reach records then furthest records ++ [record]
      else furthest records := by
  have hreach : reach (records ++ [record]) = max (reach records) record.start := by
    rw [reach_append, reach_singleton]
  rw [furthest, hreach, List.filter_append]
  by_cases hlt : reach records < record.start
  · have hnone : records.filter (fun other ↦ other.start = max (reach records) record.start) =
        [] := by
      rw [List.filter_eq_nil_iff]
      intro other hmem
      have hle := start_le_reach hmem
      simp only [decide_eq_true_eq]
      omega
    rw [if_pos hlt, hnone, Nat.max_eq_right (Nat.le_of_lt hlt)]
    simp
  · rw [if_neg hlt, Nat.max_eq_left (Nat.le_of_not_lt hlt)]
    by_cases heq : record.start = reach records
    · simp [furthest, heq]
    · simp [furthest, heq]

/-! ### The choice among records -/

/-- The best record so far, and whether another one got as far. -/
structure Choice where
  best : Record
  tied : Bool
  deriving DecidableEq, Repr

/-- Joins a record at the same offset to the one that is held. The held token stays, unless it is
the end of input and the other one is not. -/
def merge (held other : Record) : Record :=
  { held with
    token := if !other.atEnd && held.atEnd then other.token else held.token
    expected := held.expected ∪ other.expected }

/-- Compares the record that is held with the next one. -/
def Choice.compare (choice : Choice) (other : Record) : Choice :=
  if choice.best.start < other.start then ⟨other, false⟩
  else if other.start = choice.best.start then ⟨choice.best.merge other, true⟩
  else choice

/-- The record that a choice ends with. After a tie its class and its message are made anew. -/
def Choice.settle (choice : Choice) : Record :=
  if choice.tied then Failure.record ⟨choice.best.token, choice.best.expected, .noAlternative⟩
  else choice.best

/-- The record to report after every alternative of a choice failed. -/
def exhausted (first : Record) (others : List Record) : Record :=
  (others.foldl Choice.compare ⟨first, false⟩).settle

namespace Choice

variable {choice : Choice}

theorem compare_of_lt (h : choice.best.start < other.start) :
    choice.compare other = ⟨other, false⟩ := if_pos h

theorem compare_of_eq (h : choice.best.start = other.start) :
    choice.compare other = ⟨choice.best.merge other, true⟩ :=
  (if_neg (Nat.not_lt.mpr (Nat.le_of_eq h.symm))).trans (if_pos h.symm)

theorem compare_of_gt (h : other.start < choice.best.start) : choice.compare other = choice :=
  (if_neg (Nat.not_lt.mpr (Nat.le_of_lt h))).trans (if_neg (Nat.ne_of_lt h))

@[simp] theorem token_settle (choice : Choice) : choice.settle.token = choice.best.token := by
  cases htied : choice.tied <;> simp [settle, htied, Failure.record]

@[simp] theorem expected_settle (choice : Choice) :
    choice.settle.expected = choice.best.expected := by
  cases htied : choice.tied <;> simp [settle, htied, Failure.record]

end Choice

theorem start_merge (h : held.start = other.start) : (held.merge other).start = held.start := by
  unfold start merge at *
  dsimp only
  split
  · exact h.symm
  · rfl

/-! ### How far the record that is held got -/

/-- A record stands where the furthest of some records stand, and what it expects is what one of
these expects. -/
structure Reaches (records : List Record) (record : Record) : Prop where
  start_eq : record.start = reach records
  mem_expected : ∀ kind, kind ∈ record.expected ↔
    ∃ other ∈ records, other.start = reach records ∧ kind ∈ other.expected

namespace Reaches

theorem single (record : Record) : Reaches [record] record where
  start_eq := (reach_singleton record).symm
  mem_expected kind := by simp

/-- A record that got furthest is at the start of the one that is held. -/
theorem mem_expected_iff (h : Reaches records held) (kind : Kind) : kind ∈ held.expected ↔
    ∃ record ∈ records, record.start = held.start ∧ kind ∈ record.expected := by
  rw [h.start_eq]
  exact h.mem_expected kind

theorem perm (h : Reaches records held) (hperm : records.Perm others) : Reaches others held where
  start_eq := h.start_eq.trans (reach_eq_of_perm hperm)
  mem_expected kind := by
    rw [h.mem_expected, reach_eq_of_perm hperm]
    simp only [hperm.mem_iff]

/-- Records that got less far change nothing. -/
theorem overtakes (h : Reaches others other) (hlt : reach records < other.start) :
    Reaches (records ++ others) other := by
  have hreach : reach (records ++ others) = other.start := by
    rw [reach_append, ← h.start_eq, Nat.max_eq_right (Nat.le_of_lt hlt)]
  refine ⟨hreach.symm, fun kind ↦ ?_⟩
  rw [hreach, h.mem_expected_iff]
  constructor
  · rintro ⟨record, hmem, hrecord⟩
    exact ⟨record, List.mem_append_right _ hmem, hrecord⟩
  · rintro ⟨record, hmem, hstart, hkind⟩
    rcases List.mem_append.mp hmem with hmem | hmem
    · have hle := start_le_reach hmem
      omega
    · exact ⟨record, hmem, hstart, hkind⟩

/-- Records that got equally far are joined. -/
theorem merges (h : Reaches records held) (hother : Reaches others other)
    (heq : held.start = other.start) : Reaches (records ++ others) (held.merge other) := by
  have hreach : reach (records ++ others) = held.start := by
    rw [reach_append, ← h.start_eq, ← hother.start_eq, ← heq, Nat.max_self]
  refine ⟨(start_merge heq).trans hreach.symm, fun kind ↦ ?_⟩
  rw [hreach, merge, KindSet.mem_union, h.mem_expected_iff, hother.mem_expected_iff, heq]
  simp only [List.mem_append, or_and_right, exists_or]

/-- One comparison adds what the other record stands for. -/
theorem compare {choice : Choice} (h : Reaches records choice.best)
    (hother : Reaches others other) :
    Reaches (records ++ others) (choice.compare other).best := by
  rcases Nat.lt_trichotomy choice.best.start other.start with hlt | heq | hgt
  · rw [Choice.compare_of_lt hlt]
    exact hother.overtakes (h.start_eq ▸ hlt)
  · rw [Choice.compare_of_eq heq]
    exact h.merges hother heq
  · rw [Choice.compare_of_gt hgt]
    exact (h.overtakes (hother.start_eq ▸ hgt)).perm List.perm_append_comm

/-- Settling a choice moves nothing and expects nothing else. -/
theorem settle {choice : Choice} (h : Reaches records choice.best) :
    Reaches records choice.settle where
  start_eq := by
    rw [start, Choice.token_settle]
    exact h.start_eq
  mem_expected kind := by
    rw [Choice.expected_settle]
    exact h.mem_expected kind

/-- Where the records got and what they expect is all that counts. -/
theorem unique (h : Reaches records held) (hother : Reaches records other) :
    held.start = other.start ∧ held.expected = other.expected := by
  refine ⟨h.start_eq.trans hother.start_eq.symm, ?_⟩
  ext kind
  rw [h.mem_expected, hother.mem_expected]

end Reaches

/-! ### What is held after each comparison -/

/-- Of records that got equally far, the one whose token is shown: the first one that is not at the
end of the input, or the first one if they all are. -/
def spokesman (records : List Record) : Option Record :=
  records.find? (fun record ↦ !record.atEnd) <|> records.head?

theorem spokesman_singleton (record : Record) : spokesman [record] = some record := by
  cases hend : record.atEnd <;> simp [spokesman, hend]

theorem spokesman_concat {speaker : Record} (h : spokesman records = some speaker)
    (record : Record) : spokesman (records ++ [record]) =
      some (if !record.atEnd && speaker.atEnd then record else speaker) := by
  unfold spokesman at *
  rw [List.find?_append]
  cases hfound : records.find? fun record ↦ !record.atEnd with
  | some found =>
    rw [hfound] at h
    obtain rfl : found = speaker := Option.some.inj h
    have hopen : found.atEnd = false := by simpa using List.find?_some hfound
    simp [hopen]
  | none =>
    rw [hfound] at h
    have hend : speaker.atEnd = true := by
      simpa using List.find?_eq_none.mp hfound speaker (List.mem_of_mem_head? h)
    have hhead : (records ++ [record]).head? = some speaker := by
      rw [List.head?_append]
      exact congrArg (Option.or · _) h
    cases hrecord : record.atEnd <;> simp [hend, hrecord, hhead]

/-- The token that is shown is an end of input just if all records are at one. -/
theorem atEnd_of_spokesman {speaker : Record} (h : spokesman records = some speaker) :
    speaker.atEnd = records.all atEnd := by
  unfold spokesman at h
  cases hfound : records.find? fun record ↦ !record.atEnd with
  | some found =>
    rw [hfound] at h
    obtain rfl : found = speaker := Option.some.inj h
    have hopen : found.atEnd = false := by simpa using List.find?_some hfound
    rw [hopen, eq_comm, List.all_eq_false]
    exact ⟨found, List.mem_of_find?_eq_some hfound, by simp [hopen]⟩
  | none =>
    rw [hfound] at h
    have hall : ∀ record ∈ records, record.atEnd = true := by
      simpa using List.find?_eq_none.mp hfound
    rw [hall speaker (List.mem_of_mem_head? h), eq_comm, List.all_eq_true]
    exact hall

/-- What a choice holds after some records: without a tie the only one that got furthest, and after
a tie what was merged from those that did. -/
structure Picked (records : List Record) (choice : Choice) : Prop where
  reaches : Reaches records choice.best
  token_eq : (spokesman (furthest records)).map token = some choice.best.token
  alone : choice.tied = false → furthest records = [choice.best]
  several : choice.tied = true → 2 ≤ (furthest records).length

namespace Picked

variable {choice : Choice}

theorem single (record : Record) : Picked [record] ⟨record, false⟩ := by
  have hfurthest : furthest [record] = [record] := by simp [furthest]
  refine ⟨.single record, ?_, fun _ ↦ hfurthest, nofun⟩
  rw [hfurthest, spokesman_singleton, Option.map_some]

theorem length_pos (h : Picked records choice) : 0 < (furthest records).length := by
  cases htied : choice.tied with
  | false => simp [h.alone htied]
  | true => exact Nat.lt_of_succ_lt (h.several htied)

/-- One comparison takes one more record into account. -/
theorem compare (h : Picked records choice) (record : Record) :
    Picked (records ++ [record]) (choice.compare record) := by
  have hreaches := h.reaches.compare (.single record)
  have hfurthest := furthest_concat records record
  rw [← h.reaches.start_eq] at hfurthest
  rcases Nat.lt_trichotomy choice.best.start record.start with hlt | heq | hgt
  · rw [if_pos hlt] at hfurthest
    rw [Choice.compare_of_lt hlt] at hreaches ⊢
    refine ⟨hreaches, ?_, fun _ ↦ hfurthest, nofun⟩
    rw [hfurthest, spokesman_singleton, Option.map_some]
  · rw [if_neg (Nat.not_lt.mpr (Nat.le_of_eq heq.symm)), if_pos heq.symm] at hfurthest
    rw [Choice.compare_of_eq heq] at hreaches ⊢
    obtain ⟨speaker, hspeaker, htoken⟩ := Option.map_eq_some_iff.mp h.token_eq
    have hend : speaker.atEnd = choice.best.atEnd := by rw [atEnd, atEnd, htoken]
    refine ⟨hreaches, ?_, nofun, fun _ ↦ ?_⟩
    · rw [hfurthest, spokesman_concat hspeaker, hend, Option.map_some, merge, apply_ite token,
        htoken]
    · have hpos := h.length_pos
      rw [hfurthest, List.length_append, List.length_singleton]
      omega
  · rw [if_neg (Nat.not_lt.mpr (Nat.le_of_lt hgt)), if_neg (Nat.ne_of_lt hgt)] at hfurthest
    rw [Choice.compare_of_gt hgt] at hreaches ⊢
    exact ⟨hreaches, hfurthest.symm ▸ h.token_eq, hfurthest.symm ▸ h.alone,
      hfurthest.symm ▸ h.several⟩

theorem foldl_compare (first : Record) (others : List Record) :
    Picked (first :: others) (others.foldl Choice.compare ⟨first, false⟩) := by
  induction others using List.reverseRecOn with
  | nil => exact single first
  | append_singleton earlier record ih =>
    rw [List.foldl_concat]
    exact ih.compare record

end Picked

/-- A record stands for several records at an offset, given in order. -/
structure StandsFor (several : List Record) (offset : Nat) (record : Record) : Prop where
  start_eq : record.start = offset
  /-- What one of the records expects is expected. -/
  expected_eq : record.expected = .join (several.map expected)
  /-- The token is that of the first record that is not at the end of the input, or that of the
  first one if they all are. -/
  token_eq : (spokesman several).map token = some record.token
  failureClass_eq : record.failureClass =
    if several.all atEnd then .unexpectedEnd else .ambiguityExhausted
  message_eq : record.message =
    Failure.message ⟨record.token, record.expected, .noAlternative⟩

namespace Picked

variable {choice choice' : Choice}

theorem standsFor (h : Picked records choice) (htied : choice.tied = true) :
    StandsFor (furthest records) (reach records) choice.settle where
  start_eq := h.reaches.settle.start_eq
  expected_eq := by
    ext kind
    simp [h.reaches.mem_expected, mem_furthest, and_assoc]
  token_eq := by
    rw [Choice.token_settle]
    exact h.token_eq
  failureClass_eq := by
    obtain ⟨speaker, hspeaker, htoken⟩ := Option.map_eq_some_iff.mp h.token_eq
    have hend : choice.best.atEnd = (furthest records).all atEnd := by
      rw [← atEnd_of_spokesman hspeaker, atEnd, atEnd, htoken]
    rw [← hend, Choice.settle, if_pos htied]
    simp [Failure.record, Failure.failureClass, Failure.atEnd, atEnd]
  message_eq := by
    rw [Choice.token_settle, Choice.expected_settle, Choice.settle, if_pos htied]
    rfl

/-- The class of what is picked is a matter of the records and not of their order. -/
theorem failureClass_eq (h : Picked records choice) (hother : Picked others choice')
    (hperm : records.Perm others) :
    choice.settle.failureClass = choice'.settle.failureClass := by
  have hfurthest := furthest_perm hperm
  have hlength := hfurthest.length_eq
  cases htied : choice.tied with
  | false =>
    cases htied' : choice'.tied with
    | false =>
      rw [h.alone htied, hother.alone htied', List.singleton_perm_singleton] at hfurthest
      simp [Choice.settle, htied, htied', hfurthest]
    | true =>
      have hseveral := hother.several htied'
      rw [← hlength, h.alone htied] at hseveral
      exact absurd hseveral (Nat.not_succ_le_self 1)
  | true =>
    cases htied' : choice'.tied with
    | false =>
      have hseveral := h.several htied
      rw [hlength, hother.alone htied'] at hseveral
      exact absurd hseveral (Nat.not_succ_le_self 1)
    | true =>
      rw [(h.standsFor htied).failureClass_eq, (hother.standsFor htied').failureClass_eq,
        hfurthest.all_eq]

end Picked

/-! ### Nested calls -/

/-- Calls that pick a record to report, nested in each other. -/
inductive Call where
  | failed (record : Record)
  | pick (first : Call) (others : List Call)

namespace Call

mutual

/-- The record that a call comes to. -/
def picked : Call → Record
  | .failed record => record
  | .pick first others => first.picked.exhausted (pickedAll others)

/-- The records that some calls come to. -/
def pickedAll : List Call → List Record
  | [] => []
  | call :: rest => call.picked :: pickedAll rest

end

mutual

/-- The records that a call picks from, in order. -/
def given : Call → List Record
  | .failed record => [record]
  | .pick first others => first.given ++ givenAll others

/-- The records that some calls pick from, in order. -/
def givenAll : List Call → List Record
  | [] => []
  | call :: rest => call.given ++ givenAll rest

end

mutual

/-- Nested calls get as far as one call and expect the same. -/
theorem reaches : (call : Call) → Reaches call.given call.picked
  | .failed record => .single record
  | .pick first others => (reaches_foldl_compare (reaches first) others).settle

theorem reaches_foldl_compare {records : List Record} {choice : Choice}
    (h : Reaches records choice.best) : (others : List Call) →
      Reaches (records ++ givenAll others) ((pickedAll others).foldl Choice.compare choice).best
  | [] => by
    rw [givenAll, List.append_nil]
    exact h
  | call :: rest => by
    rw [givenAll, ← List.append_assoc]
    exact reaches_foldl_compare (h.compare (reaches call)) rest

end

end Call

end Record

/-! ### Failures and their records -/

/-- A choice among failures holds a failure, and the choice among their records holds the same: its
record, or after a tie what is merged. -/
structure Shows (failure : Failure) (choice : Record.Choice) : Prop where
  token_eq : choice.best.token = failure.token
  expected_eq : choice.best.expected = failure.expected
  alone : choice.tied = false → choice.best = failure.record
  merged : choice.tied = true → failure.cause = .noAlternative

namespace Shows

variable {failure : Failure} {choice : Record.Choice}

theorem single (failure : Failure) : Shows failure ⟨failure.record, false⟩ :=
  ⟨rfl, rfl, fun _ ↦ rfl, nofun⟩

theorem start_eq (h : Shows failure choice) : choice.best.start = failure.token.span.start :=
  congrArg (·.span.start) h.token_eq

theorem further (h : Shows failure choice) (other : Failure) :
    Shows (failure.further other) (choice.compare other.record) := by
  have hstart := h.start_eq
  have hother : other.record.start = other.token.span.start := rfl
  rcases Nat.lt_trichotomy failure.token.span.start other.token.span.start with hlt | heq | hgt
  · rw [Record.Choice.compare_of_lt (by rw [hstart, hother]; exact hlt), Failure.further,
      if_pos hlt]
    exact .single other
  · rw [Record.Choice.compare_of_eq (by rw [hstart, hother]; exact heq), Failure.further,
      if_neg (by omega), if_pos heq.symm]
    refine ⟨?_, ?_, nofun, fun _ ↦ rfl⟩
    · have hend : choice.best.atEnd = failure.atEnd := by
        rw [Record.atEnd, atEnd, h.token_eq]
      have hswap : (!other.record.atEnd && choice.best.atEnd) =
          (failure.atEnd && !other.atEnd) := by
        rw [hend, Bool.and_comm]
        rfl
      rw [Record.merge, Failure.merge, hswap, h.token_eq]
      rfl
    · simp only [Record.merge, Failure.merge, h.expected_eq, Failure.record]
  · rw [Record.Choice.compare_of_gt (by rw [hstart, hother]; exact hgt), Failure.further,
      if_neg (by omega), if_neg (by omega)]
    exact h

theorem settle_eq (h : Shows failure choice) : choice.settle = failure.record := by
  cases htied : choice.tied with
  | false =>
    rw [Record.Choice.settle, htied]
    exact h.alone htied
  | true =>
    rw [Record.Choice.settle, htied, if_pos rfl, h.token_eq, h.expected_eq, ← h.merged htied]

end Shows

/-- What is picked among failures is reported as what is picked among their records. -/
theorem record_exhausted (first : Failure) (others : List Failure) :
    (first.exhausted others).record = first.record.exhausted (others.map record) := by
  have hshows : Shows (first.exhausted others)
      ((others.map record).foldl Record.Choice.compare ⟨first.record, false⟩) := by
    induction others using List.reverseRecOn with
    | nil => exact .single first
    | append_singleton earlier other ih =>
      rw [exhausted, List.foldl_concat, List.map_append, List.map_singleton, List.foldl_concat]
      exact ih.further other
  exact hshows.settle_eq.symm

/-- The failure to report, whatever failures it is picked from and whatever their records say. If
one of them got furthest, it is reported as it is; otherwise one is reported that stands for those
that got furthest. In whatever order the failures come, its class, its offset and the expected kinds
are the same, and its offset and the expected kinds are the same if the failures are picked by calls
nested in each other. -/
theorem exhausted_furthest (first : Record) (others : List Record) :
    (match Record.furthest (first :: others) with
      | [only] => first.exhausted others = only
      | several => Record.StandsFor several (Record.reach (first :: others))
          (first.exhausted others)) ∧
    (∀ (first' : Record) (others' : List Record), (first' :: others').Perm (first :: others) →
      (first'.exhausted others').failureClass = (first.exhausted others).failureClass ∧
      (first'.exhausted others').start = (first.exhausted others).start ∧
      (first'.exhausted others').expected = (first.exhausted others).expected) ∧
    (∀ call : Record.Call, call.given = first :: others →
      call.picked.start = (first.exhausted others).start ∧
      call.picked.expected = (first.exhausted others).expected) ∧
    ∀ (failure : Failure) (failures : List Failure),
      (failure.exhausted failures).record = failure.record.exhausted (failures.map record) := by
  have hpicked := Record.Picked.foldl_compare first others
  refine ⟨?_, fun first' others' hperm ↦ ?_, fun call hgiven ↦ ?_, record_exhausted⟩
  · rw [Record.exhausted]
    cases htied : (others.foldl Record.Choice.compare ⟨first, false⟩).tied with
    | false =>
      rw [hpicked.alone htied]
      simp [Record.Choice.settle, htied]
    | true =>
      have hstands := hpicked.standsFor htied
      have hseveral := hpicked.several htied
      split
      · rename_i only heq
        rw [heq] at hseveral
        exact absurd hseveral (Nat.not_succ_le_self 1)
      · exact hstands
  · have hpicked' := Record.Picked.foldl_compare first' others'
    exact ⟨hpicked'.failureClass_eq hpicked hperm,
      (hpicked'.reaches.settle.perm hperm).unique hpicked.reaches.settle⟩
  · exact (hgiven ▸ call.reaches).unique hpicked.reaches.settle

end CorpusQuery.Failure
