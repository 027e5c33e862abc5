import CorpusQuery.Outcome
import CorpusQuery.Proofs.Diagnosis.Failure
import CorpusQuery.Proofs.Lexicon.Account

/-!
What becomes of a query text. There is a tree or there are reports, never both and never neither;
the reports are those of the lexer, or the one of the parser, and their codes tell these apart
(`Entry.outcome_consistent`). Every report points at characters of the text. The labels of the lexer
and of tokens cover one or more characters as they are; the one label that does not, that of the end
of the input, moves onto the last character (`Source.points_end`).
-/

set_option autoImplicit false
set_option relaxedAutoImplicit false

namespace CorpusQuery

/-! ### Labels -/

/-- A label that can be drawn over a text: it is primary and covers whole characters of the text, at
least one of them if there are any. -/
structure Underline.Points (text : List Char) (underline : Underline) : Prop where
  primary : underline.primary = true
  stands : ∃ word, Text.Stands 0 text word ⟨underline.offset, underline.offset + underline.length⟩
  length_pos : text ≠ [] → 0 < underline.length

namespace Source

variable {source : Source} {span : Span} {word : List Char}

/-- A label with characters under it stays where it is. -/
theorem labelSpan_of_stands (hword : word ≠ [])
    (h : Text.Stands 0 source.content.toList word span) : source.labelSpan span = span := by
  have hstop : span.stop ≤ source.byteLength := by
    rw [byteLength, ← Nat.zero_add (Text.byteLength _)]
    exact h.stop_le
  have hlt : span.start < span.stop := by
    obtain ⟨before, after, -, rfl⟩ := h
    exact Nat.lt_add_of_pos_right (Text.byteLength_pos hword)
  have hclamp : source.clampSpan span = span := by
    rw [clampSpan, Nat.min_eq_left (hlt.le.trans hstop), Nat.min_eq_left hstop,
      Nat.max_eq_left hlt.le]
  rw [labelSpan, hclamp]
  exact if_neg fun hend ↦ hlt.ne hend.1

/-- What is underlined for a label that is moved onto some characters. -/
theorem points_of_stands {label : Label} (hword : source.content.toList ≠ [] → word ≠ [])
    (h : Text.Stands 0 source.content.toList word (source.labelSpan label.span)) :
    (Underline.ofLabel source true label).Points source.content.toList := by
  obtain ⟨before, after, htext, hspan⟩ := h
  refine ⟨rfl, ⟨word, before, after, htext, ?_⟩, fun hne ↦ ?_⟩
  · simp only [Underline.ofLabel, hspan, Nat.add_sub_cancel_left]
  · simp only [Underline.ofLabel, hspan, Nat.add_sub_cancel_left]
    exact Text.byteLength_pos (hword hne)

theorem points_word {label : Label} (hword : word ≠ [])
    (h : Text.Stands 0 source.content.toList word label.span) :
    (Underline.ofLabel source true label).Points source.content.toList :=
  points_of_stands (fun _ ↦ hword) (by rwa [labelSpan_of_stands hword h])

/-- A label at the end of the text is drawn on the last character, whatever its width. -/
theorem points_end {label : Label} (h : label.span = ⟨source.byteLength, source.byteLength⟩) :
    (Underline.ofLabel source true label).Points source.content.toList := by
  have hclamp : source.clampSpan label.span = ⟨source.byteLength, source.byteLength⟩ := by
    rw [h, clampSpan, Nat.min_self, Nat.max_self]
  rcases List.eq_nil_or_concat source.content.toList with htext | ⟨initial, last, htext⟩
  · have hspan : source.labelSpan label.span = ⟨source.byteLength, source.byteLength⟩ := by
      rw [labelSpan, hclamp, htext]
      exact if_pos ⟨rfl, rfl⟩
    have hstands : Text.Stands 0 source.content.toList [] (source.labelSpan label.span) := by
      simp only [hspan, byteLength, htext]
      exact Text.stands_self 0 []
    exact points_of_stands (fun hne ↦ absurd htext hne) hstands
  · rw [List.concat_eq_append] at htext
    have hspan : source.labelSpan label.span =
        ⟨source.byteLength - last.utf8Size, source.byteLength⟩ := by
      rw [labelSpan, hclamp, htext, List.getLast?_concat]
      exact if_pos ⟨rfl, rfl⟩
    refine points_of_stands (fun _ ↦ List.cons_ne_nil last []) ⟨initial, [], htext, ?_⟩
    simp only [hspan, byteLength, htext, Text.byteLength_append, Text.byteLength_cons,
      Text.byteLength_nil, Nat.add_zero, Nat.zero_add, Nat.add_sub_cancel]

/-- The last character may take several bytes. -/
example : (⟨"aé", none⟩ : Source).labelSpan ⟨3, 3⟩ = ⟨1, 3⟩ := by decide

end Source

/-! ### Reports -/

/-- A report has one label, and that points at the text. -/
def Report.Points (text : List Char) (report : Report) : Prop :=
  ∃ underline, report.underlines = [underline] ∧ underline.Points text

theorem Report.points_of_label {source : Source} {diagnostic : Diagnostic} {label : Label}
    (hlabels : diagnostic.labels = [label])
    (h : (Underline.ofLabel source true label).Points source.content.toList) :
    (ofDiagnostic source diagnostic).Points source.content.toList := by
  refine ⟨_, ?_, h⟩
  rw [ofDiagnostic, hlabels]
  rfl

/-- A failure is labelled at its token and bears the code of its class. -/
theorem Failure.exists_label (failure : Failure) :
    ∃ message, failure.toDiagnostic.labels = [⟨failure.token.span, message⟩] ∧
      failure.toDiagnostic.code = some failure.failureClass.code := by
  unfold toDiagnostic
  dsimp only
  by_cases hclass : failure.failureClass = .ambiguityExhausted
  · rw [if_pos hclass]
    exact ⟨_, rfl, rfl⟩
  · rw [if_neg hclass]
    exact ⟨_, rfl, rfl⟩

theorem FailureClass.begins_code (failureClass : FailureClass) :
    "iql::".toList <+: failureClass.code.toList := by
  cases failureClass <;> decide

theorem FailureClass.code_ne_lexer (failureClass : FailureClass) :
    failureClass.code ≠ "iql::lexer" := by
  cases failureClass <;> decide

namespace Lexed

variable (text : String)

theorem accounts_ofSource :
    Accounts 0 text.toList (ofSource text).tokens (ofSource text).diagnostics := by
  have h := accounts_place text.toList 0
  rw [Nat.zero_add, ← ofChars_tokens] at h
  exact h

/-- What the lexer finds wrong bears its code. -/
theorem code_of_mem {diagnostic : Diagnostic} (h : diagnostic ∈ (ofSource text).diagnostics) :
    diagnostic.code = some "iql::lexer" := by
  obtain ⟨placed, -, hdiagnostic⟩ := List.mem_flatMap.mp h
  unfold Placed.diagnostics at hdiagnostic
  split at hdiagnostic
  · obtain ⟨fault, -, rfl⟩ := List.mem_map.mp hdiagnostic
    rfl
  · cases hdiagnostic
  · cases hdiagnostic
  · rw [List.mem_singleton.mp hdiagnostic, invalidText]
    split
    · rfl
    · split <;> rfl

/-- What the lexer finds wrong is reported where it stands. -/
theorem points_of_mem {diagnostic : Diagnostic} (h : diagnostic ∈ (ofSource text).diagnostics) :
    (Report.ofDiagnostic ⟨text, none⟩ diagnostic).Points text.toList := by
  have haccounts := accounts_ofSource text
  obtain ⟨label, hlabels⟩ := haccounts.exists_label diagnostic h
  have hmem : label.span ∈ labelSpans (ofSource text).diagnostics :=
    List.mem_flatMap.mpr ⟨diagnostic, h, by simp [hlabels]⟩
  obtain ⟨word, hword, hstands⟩ := haccounts.labels.stands _ hmem
  exact Report.points_of_label hlabels (Source.points_word hword hstands)

/-- The tokens of a text are read as they are. -/
theorem close_ofSource : Token.close (ofSource text).tokens = (ofSource text).tokens := by
  refine if_pos ?_
  rw [Token.Closed, ofSource, ofChars, List.getLast?_concat]
  rfl

/-- A failure at a token of a text is reported where the token stands, and a failure at the end of
the text on its last character. -/
theorem points_of_token_mem {failure : Failure} (h : failure.token ∈ (ofSource text).tokens) :
    (Report.ofDiagnostic ⟨text, none⟩ failure.toDiagnostic).Points text.toList := by
  obtain ⟨message, hlabels, -⟩ := failure.exists_label
  refine Report.points_of_label hlabels ?_
  rw [ofSource, ofChars, List.mem_append, List.mem_singleton] at h
  rcases h with hmem | hend
  · have hspan : failure.token.span ∈ (ofSource text).tokens.dropLast.map Token.span := by
      rw [ofSource, ofChars, List.dropLast_concat]
      exact List.mem_map_of_mem hmem
    obtain ⟨word, hword, hstands⟩ := (accounts_ofSource text).spans.stands _ hspan
    exact Source.points_word hword hstands
  · refine Source.points_end ?_
    rw [hend]
    rfl

end Lexed

/-! ### Outcomes -/

/-- What an outcome has to be that a text has under an entry and a nesting limit. -/
structure Entry.Consistent (entry : Entry) (limit : Nat) (text : String)
    (outcome : Outcome entry.category) : Prop where
  /-- There is a tree just if there is nothing to report. -/
  isSome_iff : outcome.phrase?.isSome = true ↔ outcome.reports = []
  /-- The tree is the one that the tokens of a clean text are parsed to. -/
  phrase_iff : ∀ phrase, outcome.phrase? = some phrase ↔
    (Lexed.ofSource text).isClean = true ∧
      (entry.parse limit (Lexed.ofSource text).tokens).outcome = .ok phrase
  /-- For a text that is not clean, what the lexer finds wrong is reported in order. -/
  unclean : (Lexed.ofSource text).isClean = false →
    outcome.reports = (Lexed.ofSource text).diagnostics.map (.ofDiagnostic ⟨text, none⟩) ∧
      ∀ report ∈ outcome.reports, report.code = some "iql::lexer"
  /-- For a clean text, there is at most one report, which bears the code of a failure. -/
  clean : (Lexed.ofSource text).isClean = true → outcome.reports.length ≤ 1 ∧
    ∀ report ∈ outcome.reports, ∃ failureClass : FailureClass,
      report.code = some failureClass.code ∧ "iql::".toList <+: failureClass.code.toList ∧
        failureClass.code ≠ "iql::lexer"
  points : ∀ report ∈ outcome.reports, report.Points text.toList

/-- Whatever a text is parsed as, and under whatever limit, what comes of it is consistent: a tree
for a clean text that can be parsed, and otherwise reports that say why there is none. Each of them
has one label, over one or more whole characters of the text unless the text is empty. -/
theorem Entry.outcome_consistent (entry : Entry) (limit : Nat) (text : String) :
    entry.Consistent limit text (entry.ofText limit text) := by
  cases hclean : (Lexed.ofSource text).isClean with
  | false =>
    have hofText : entry.ofText limit text =
        ⟨none, (Lexed.ofSource text).diagnostics.map (.ofDiagnostic ⟨text, none⟩)⟩ := by
      simp only [ofText, hclean, Bool.false_eq_true, if_false]
    have hne : (Lexed.ofSource text).diagnostics ≠ [] := fun hnil ↦ by
      rw [Lexed.isClean, hnil] at hclean
      cases hclean
    rw [hofText]
    refine ⟨by simp [hne], by simp [hclean], fun _ ↦ ⟨rfl, fun report hreport ↦ ?_⟩, fun h ↦ ?_,
      fun report hreport ↦ ?_⟩
    · obtain ⟨diagnostic, hdiagnostic, rfl⟩ := List.mem_map.mp hreport
      exact Lexed.code_of_mem text hdiagnostic
    · cases hclean.symm.trans h
    · obtain ⟨diagnostic, hdiagnostic, rfl⟩ := List.mem_map.mp hreport
      exact Lexed.points_of_mem text hdiagnostic
  | true =>
    cases hparse : (entry.parse limit (Lexed.ofSource text).tokens).outcome with
    | ok phrase =>
      have hofText : entry.ofText limit text = ⟨some phrase, []⟩ := by
        simp only [ofText, hclean, if_true, hparse]
      rw [hofText]
      refine ⟨by simp, fun other ↦ ?_, fun h ↦ ?_,
        fun _ ↦ ⟨Nat.zero_le _, List.forall_mem_nil _⟩, List.forall_mem_nil _⟩
      · rw [hparse]
        simp [hclean]
      · cases hclean.symm.trans h
    | error failure =>
      have hofText : entry.ofText limit text =
          ⟨none, [.ofDiagnostic ⟨text, none⟩ failure.toDiagnostic]⟩ := by
        simp only [ofText, hclean, if_true, hparse]
      have hmem : failure.token ∈ (Lexed.ofSource text).tokens := by
        rw [← Lexed.close_ofSource]
        exact token_mem_close hparse
      obtain ⟨-, -, hcode⟩ := failure.exists_label
      rw [hofText]
      refine ⟨by simp, fun other ↦ ?_, fun h ↦ ?_, fun _ ↦ ⟨Nat.le_refl _, ?_⟩, ?_⟩
      · rw [hparse]
        simp
      · cases hclean.symm.trans h
      · exact List.forall_mem_singleton.mpr ⟨failure.failureClass, hcode,
          failure.failureClass.begins_code, failure.failureClass.code_ne_lexer⟩
      · exact List.forall_mem_singleton.mpr (Lexed.points_of_token_mem text hmem)

end CorpusQuery
