import CorpusQuery.Proofs.Choice.Agreement
import CorpusQuery.Proofs.Extent.Grammar
import CorpusQuery.Proofs.Extent.Source

/-!
The spans of a tree. Whatever is read of a source text, every phrase in it runs from the start of a
token to the end of a token and has some width, its parts lie inside it one behind the other, and
the whole tree runs from the first token to the last one (`Entry.phrases_placed`). Only a result
that is read from no tokens is empty.
-/

set_option autoImplicit false
set_option relaxedAutoImplicit false

namespace CorpusQuery

open CorpusQuery.Parser CorpusQuery.Place CorpusQuery.Grammar

/-! ### Phrases of a tree -/

namespace Tree

/-- All phrases of a tree, each one before its parts. -/
def phrases : {role : Role} → Tree role → List (Σ category, Phrase category)
  | _, .phrase form span parts => ⟨_, .phrase form span parts⟩ :: parts.phrases
  | _, .nil => []
  | _, .one part rest => part.phrases ++ rest.phrases
  | _, .absent rest => rest.phrases
  | _, .present part rest => part.phrases ++ rest.phrases
  | _, .done rest => rest.phrases
  | _, .more part rest => part.phrases ++ rest.phrases

/-- The spans of the phrases directly in a list of parts, in the order of their fields. -/
def spans : {role : Role} → Tree role → List Span
  | _, .phrase _ span _ => [span]
  | _, .nil => []
  | _, .one part rest => part.spans ++ rest.spans
  | _, .absent rest => rest.spans
  | _, .present part rest => part.spans ++ rest.spans
  | _, .done rest => rest.spans
  | _, .more part rest => part.spans ++ rest.spans

end Tree

namespace Phrase

variable {category : Category}

/-- The spans of the parts of a phrase. -/
def partSpans : Phrase category → List Span
  | .phrase _ _ parts => parts.spans

/-- A phrase with some width that runs from the start of a token to the end of a token, with its
parts inside it, each of them ending before the next one starts. -/
structure Placed (tokens : List Token) (phrase : Phrase category) : Prop where
  starts : ∃ token ∈ tokens, phrase.span.start = token.span.start
  stops : ∃ token ∈ tokens, phrase.span.stop = token.span.stop
  width : phrase.span.start < phrase.span.stop
  contains : ∀ part ∈ phrase.partSpans,
    phrase.span.start ≤ part.start ∧ part.stop ≤ phrase.span.stop
  ordered : phrase.partSpans.Pairwise fun part next ↦ part.stop ≤ next.start

end Phrase

/-! ### Token lists by their indices -/

namespace Token.Laid

variable {tokens : List Token} {first middle last : Nat}

theorem peek_mem (h : Token.Laid tokens) {index : Nat}
    (hindex : index < (Place.ofTokens tokens).ahead.length) :
    (Place.ofTokens tokens).peek index ∈ tokens.dropLast := by
  have hlength := Place.length_ofTokens h.closed
  rw [Place.peek_ofTokens h.closed (by omega)]
  refine List.mem_iff_getElem.mpr ⟨index, ?_, List.getElem_dropLast _⟩
  rw [List.length_dropLast]
  omega

theorem stop_le_start (h : Token.Laid tokens) {index next : Nat} (hlt : index < next)
    (hnext : next ≤ (Place.ofTokens tokens).ahead.length) :
    ((Place.ofTokens tokens).peek index).span.stop ≤
      ((Place.ofTokens tokens).peek next).span.start := by
  have hlength := Place.length_ofTokens h.closed
  rw [Place.peek_ofTokens h.closed (by omega), Place.peek_ofTokens h.closed (by omega)]
  exact List.pairwise_iff_getElem.mp h.ordered index next (by omega) (by omega) hlt

/-- Tokens have some width. -/
theorem width_extent (h : Token.Laid tokens) (hlt : first < last)
    (hlast : last ≤ (Place.ofTokens tokens).ahead.length) :
    ((Place.ofTokens tokens).extent first last).start <
      ((Place.ofTokens tokens).extent first last).stop := by
  have hfirst := h.width _ (h.peek_mem (show first < _ by omega))
  rcases Nat.eq_or_lt_of_le (show first ≤ last - 1 by omega) with rfl | hbefore
  · exact hfirst
  · exact hfirst.trans_le ((h.stop_le_start hbefore (by omega)).trans
      (h.width _ (h.peek_mem (show last - 1 < _ by omega))).le)

theorem start_extent_le (h : Token.Laid tokens) (hle : first ≤ middle)
    (hmiddle : middle < (Place.ofTokens tokens).ahead.length) :
    ((Place.ofTokens tokens).extent first last).start ≤
      ((Place.ofTokens tokens).extent middle last).start := by
  rcases Nat.eq_or_lt_of_le hle with rfl | hlt
  · exact Nat.le_refl _
  · exact (h.width _ (h.peek_mem (hlt.trans hmiddle))).le.trans (h.stop_le_start hlt hmiddle.le)

theorem stop_extent_le (h : Token.Laid tokens) (hpos : 0 < middle) (hle : middle ≤ last)
    (hlast : last ≤ (Place.ofTokens tokens).ahead.length) :
    ((Place.ofTokens tokens).extent first middle).stop ≤
      ((Place.ofTokens tokens).extent first last).stop := by
  rcases Nat.eq_or_lt_of_le hle with rfl | hlt
  · exact Nat.le_refl _
  · exact (h.stop_le_start (show middle - 1 < last - 1 by omega) (by omega)).trans
      (h.width _ (h.peek_mem (show last - 1 < _ by omega))).le

end Token.Laid

/-! ### Covered tokens -/

section

variable {start : Place} {reading : Reading} {role : Role} {category : Category}
  {slots : List Slot} {tree : Tree role} {first last : Nat}

/-- Spans of tokens that lie one behind the other. -/
def Span.Lined (start : Place) : List Span → Nat → Nat → Prop
  | [], first, last => first ≤ last
  | span :: rest, first, last =>
    ∃ i j, first ≤ i ∧ i < j ∧ span = start.extent i j ∧ Span.Lined start rest j last

theorem Span.Lined.le {spans : List Span} (h : Span.Lined start spans first last) :
    first ≤ last := by
  induction spans generalizing first with
  | nil => exact h
  | cons span rest ih =>
    obtain ⟨i, j, hi, hlt, -, hrest⟩ := h
    exact hi.trans (hlt.le.trans (ih hrest))

theorem Span.Lined.mem {spans : List Span} (h : Span.Lined start spans first last) {span : Span}
    (hspan : span ∈ spans) : ∃ i j, first ≤ i ∧ i < j ∧ j ≤ last ∧ span = start.extent i j := by
  induction spans generalizing first with
  | nil => cases hspan
  | cons other rest ih =>
    obtain ⟨i, j, hi, hlt, hother, hrest⟩ := h
    rcases List.mem_cons.mp hspan with rfl | hspan
    · exact ⟨i, j, hi, hlt, hrest.le, hother⟩
    · obtain ⟨i', j', hi', h'⟩ := ih hrest hspan
      exact ⟨i', j', hi.trans (hlt.le.trans hi'), h'⟩

/-- Tokens that lie one behind the other do not overlap. -/
theorem Span.Lined.pairwise {tokens : List Token} (hlaid : Token.Laid tokens) {spans : List Span}
    (h : Span.Lined (.ofTokens tokens) spans first last)
    (hlast : last ≤ (Place.ofTokens tokens).ahead.length) :
    spans.Pairwise fun span next ↦ span.stop ≤ next.start := by
  induction spans generalizing first with
  | nil => exact .nil
  | cons span rest ih =>
    obtain ⟨i, j, -, hlt, rfl, hrest⟩ := h
    refine .cons (fun next hnext ↦ ?_) (ih hrest)
    obtain ⟨i', j', hi', hlt', hj', rfl⟩ := hrest.mem hnext
    exact hlaid.stop_le_start (by omega) (by omega)

namespace Tree

theorem spans_eq (phrase : Phrase category) : phrase.spans = [phrase.span] := by
  cases phrase with
  | phrase => rfl

/-- The parts of a phrase lie one behind the other. -/
theorem lined_spans {slots : List Slot} (parts : Parts slots) {first last : Nat}
    (h : parts.Covers start reading first last) : Span.Lined start parts.spans first last := by
  have hcons {category : Category} {slots : List Slot} (part : Phrase category) (rest : Parts slots)
      (h : ∃ i j, first ≤ i ∧ part.Covers start reading i j ∧ rest.Covers start reading j last)
      (hrest : ∀ {j}, rest.Covers start reading j last → Span.Lined start rest.spans j last) :
      Span.Lined start (part.spans ++ rest.spans) first last := by
    obtain ⟨i, j, hi, hpart, h⟩ := h
    rw [spans_eq]
    exact ⟨i, j, hi, hpart.lt, hpart.span_eq, hrest h⟩
  match slots, parts with
  | _, .nil => exact h
  | _, .one part rest => exact hcons part rest h (lined_spans rest)
  | _, .absent rest => exact lined_spans rest h
  | _, .present part rest => exact hcons part rest h (lined_spans rest)
  | _, .done rest => exact lined_spans rest h
  | _, .more part rest => exact hcons part rest h (lined_spans rest)

/-- Every phrase of a tree covers some of the tokens. -/
theorem Covers.of_mem_phrases (h : tree.Covers start reading first last)
    {node : Σ category, Phrase category} (hnode : node ∈ tree.phrases) :
    ∃ i j, first ≤ i ∧ j ≤ last ∧ node.2.Covers start reading i j := by
  induction tree generalizing first last with
  | phrase form span parts ih =>
    rcases List.mem_cons.mp hnode with rfl | hnode
    · exact ⟨first, last, Nat.le_refl _, Nat.le_refl _, h⟩
    · exact ih h.2.2.1 hnode
  | nil => cases hnode
  | absent rest ih | done rest ih => exact ih h hnode
  | one part rest ihpart ihrest | present part rest ihpart ihrest | more part rest ihpart ihrest =>
    obtain ⟨i, j, hi, hpart, hrest⟩ := h
    have hle : j ≤ last := (lined_spans _ hrest).le
    rcases List.mem_append.mp hnode with hnode | hnode
    · obtain ⟨i', j', hi', hj', hcovers⟩ := ihpart hpart hnode
      exact ⟨i', j', hi.trans hi', hj'.trans hle, hcovers⟩
    · obtain ⟨i', j', hi', hj', hcovers⟩ := ihrest hrest hnode
      exact ⟨i', j', hi.trans (hpart.lt.le.trans hi'), hj', hcovers⟩

/-- A phrase that covers tokens lies among them. -/
theorem Covers.placed {tokens : List Token} (hlaid : Token.Laid tokens) {phrase : Phrase category}
    (h : phrase.Covers (.ofTokens tokens) reading first last)
    (hlast : last ≤ (Place.ofTokens tokens).ahead.length) :
    phrase.Placed tokens.dropLast := by
  have hlt := h.lt
  have hlined : Span.Lined (.ofTokens tokens) phrase.partSpans first last := by
    cases phrase with
    | phrase form span parts => exact lined_spans parts h.2.2.1
  refine ⟨⟨_, hlaid.peek_mem (show first < _ by omega), ?_⟩,
    ⟨_, hlaid.peek_mem (show last - 1 < _ by omega), ?_⟩, ?_, fun part hpart ↦ ?_,
    hlined.pairwise hlaid hlast⟩
  · rw [h.span_eq, Place.extent]
  · rw [h.span_eq, Place.extent]
  · rw [h.span_eq]
    exact hlaid.width_extent hlt hlast
  · obtain ⟨i, j, hi, hij, hj, rfl⟩ := hlined.mem hpart
    rw [h.span_eq]
    exact ⟨hlaid.start_extent_le hi (by omega), hlaid.stop_extent_le (by omega) hj hlast⟩

end Tree

end

/-! ### Entries -/

/-- No construction over the rules leaves the token list or goes back in it. -/
theorem Parser.Alike.from_inside {start : Place} {limit room first : Nat} {α : Type}
    {parser : Parser α}
    (h : Alike (Rule.inside limit room) (Rule.inside limit room) parser parser) :
    From start first parser fun _ _ ↦ True := by
  refine h.from fun rule first ↦ ?_
  clear h
  induction room generalizing rule first with
  | zero => exact fun _ hfit _ ↦ ⟨hfit.closed, hfit.total_eq, trivial⟩
  | succ room ih => exact ((rule.alike_inside limit room).from ih).enter

/-- Where nothing is asked of expressions, nothing can go wrong. -/
theorem Reading.within_trivial (start : Place) (limit room : Nat) :
    Reading.Within start (fun _ _ _ ↦ True) (Rule.inside limit room) :=
  ⟨fun _ ↦ alike_operand.from_inside, fun least _ _ _ _ ↦
    (alike_continuation least _).from_inside.weaken fun _ _ _ _ _ _ ↦ trivial⟩

namespace Entry

variable {start : Place} {reading : Reading} {scope : Scope}

/-- What an entry reads covers all tokens that it passes. Only a result may pass none. -/
theorem charted_body (hs : scope.Charted start reading)
    (hwidth : ∀ last, 0 < last → last ≤ start.ahead.length →
      (start.extent 0 last).start < (start.extent 0 last).stop) (entry : Entry) :
    From start 0 (entry.body scope) fun phrase last ↦
      (0 < last → last ≤ start.ahead.length → phrase.Covers start reading 0 last) ∧
        (last = 0 → entry = .result ∧ phrase.phrases = [⟨_, phrase⟩] ∧
          phrase.span = ⟨(start.peek 0).span.start, (start.peek 0).span.start⟩) := by
  have hcovered {category : Category} {phrase : Phrase category} {last : Nat} {empty : Prop}
      (h : phrase.Covers start reading 0 last) :
      (0 < last → last ≤ start.ahead.length → phrase.Covers start reading 0 last) ∧
        (last = 0 → empty) :=
    ⟨fun _ _ ↦ h, fun hlast ↦ absurd h.lt (hlast ▸ Nat.lt_irrefl 0)⟩
  cases entry with
  | expression => exact (hs.nested (.expression 0) 0).weaken fun _ _ _ h ↦ hcovered h
  | nodeStatement => exact (hs.nested (.nodeStatement 0) 0).weaken fun _ _ _ h ↦ hcovered h
  | structuralConstraint =>
    exact (hs.nested .structuralConstraint 0).weaken fun _ _ _ h ↦ hcovered h
  | selection => exact (hs.nested .selection 0).weaken fun _ _ _ h ↦ hcovered h
  | payload => exact (hs.nested .payload 0).weaken fun _ _ _ h ↦ hcovered h
  | group => exact (charted_group hs).weaken fun _ _ _ h ↦ hcovered h
  | result =>
    refine (charted_result hs).weaken fun phrase last _ ⟨parts, hphrase, hparts⟩ ↦ ?_
    subst hphrase
    refine ⟨fun hpos hle ↦ ⟨hpos, ?_, hparts, trivial⟩, fun hlast ↦ ?_⟩
    · rw [resultStop, if_neg hpos.ne', Nat.max_eq_left (hwidth last hpos hle).le]
      rfl
    · subst hlast
      refine ⟨rfl, ?_, rfl⟩
      rw [Tree.phrases, List.cons.injEq]
      refine ⟨rfl, List.eq_nil_iff_forall_not_mem.mpr fun node hnode ↦ ?_⟩
      obtain ⟨i, j, -, hj, hcovers⟩ := hparts.of_mem_phrases hnode
      exact absurd hcovers.lt (by omega)

/-- A tree that is read up to the end of a token list covers the whole list. -/
theorem charted_of_outcome {entry : Entry} {limit : Nat} {tokens : List Token}
    (hlaid : Token.Laid tokens)
    (hreading : ∀ room < limit, reading.Within (.ofTokens tokens) (Rule.inside limit room))
    {phrase : Phrase entry.category} (h : (entry.parse limit tokens).outcome = .ok phrase) :
    (tokens.dropLast ≠ [] → phrase.Covers (.ofTokens tokens) reading 0 tokens.dropLast.length) ∧
      (tokens.dropLast = [] → entry = .result ∧ phrase.phrases = [⟨_, phrase⟩] ∧ phrase.span =
        ⟨((Place.ofTokens tokens).peek 0).span.start,
          ((Place.ofTokens tokens).peek 0).span.start⟩) := by
  obtain ⟨after, hcomplete⟩ := complete_of_outcome h
  obtain ⟨between, hbody, hkind, -⟩ := body_of_complete hcomplete
  have hclosed := hlaid.closed
  have hlength := Place.length_ofTokens hclosed
  rw [Scope.top_eq_inside] at hbody
  have hstart : (Place.ofTokens tokens).At 0 (Session.ofTokens tokens).cursor.toPlace :=
    at_ofTokens tokens
  have hcharted := charted_body (Rule.charted_inside hreading (Nat.le_refl limit))
    (fun last hpos hle ↦ hlaid.width_extent hpos hle) entry
  obtain ⟨hbegins, -, hcovers, hempty⟩ :=
    hcharted.ok ⟨ofTokens_closed tokens, rfl, trivial⟩ hstart hbody
  -- The end of the input stands behind all other tokens.
  have hlast : between.cursor.position = tokens.dropLast.length := by
    rw [Place.kind, hbegins.here_eq, hlaid.kind_peek_iff] at hkind
    have hle := hbegins.position_le
    rw [List.length_dropLast]
    omega
  rw [hlast] at hcovers hempty
  refine ⟨fun hne ↦ hcovers (List.length_pos_iff.mpr hne) ?_, fun hnil ↦ hempty (by rw [hnil]; rfl)⟩
  rw [List.length_dropLast]
  omega

/-- Whatever an entry reads of a source text with tokens runs from the first of them to the last
one, and each of its phrases lies among them. Of a text without tokens only an empty result can be
read, which has no parts and stands at the end of the input. -/
theorem phrases_placed (entry : Entry) (limit : Nat) (source : String)
    {phrase : Phrase entry.category}
    (h : (entry.parse limit (Lexed.ofSource source).tokens).outcome = .ok phrase) :
    (∀ hne : (Lexed.ofSource source).tokens.dropLast ≠ [],
      phrase.span = ⟨((Lexed.ofSource source).tokens.dropLast.head hne).span.start,
        ((Lexed.ofSource source).tokens.dropLast.getLast hne).span.stop⟩ ∧
      ∀ node ∈ phrase.phrases, node.2.Placed (Lexed.ofSource source).tokens.dropLast) ∧
    ((Lexed.ofSource source).tokens.dropLast = [] →
      entry = .result ∧ phrase.phrases = [⟨_, phrase⟩] ∧
        ∃ last, (Lexed.ofSource source).tokens = [last] ∧ phrase.span = last.span) := by
  have hlaid := Lexed.laid_ofSource source
  have hclosed := hlaid.closed
  have hlength := Place.length_ofTokens hclosed
  obtain ⟨hcovers, hempty⟩ := charted_of_outcome hlaid
    (fun room _ ↦ Reading.within_trivial _ limit room) h
  refine ⟨fun hne ↦ ⟨?_, fun node hnode ↦ ?_⟩, fun hnil ↦ ?_⟩
  · have hpos := List.length_pos_iff.mpr hne
    rw [List.length_dropLast] at hpos
    rw [(hcovers hne).span_eq, Place.extent, Place.peek_ofTokens hclosed (by omega),
      Place.peek_ofTokens hclosed (by rw [List.length_dropLast]; omega),
      List.head_eq_getElem, List.getLast_eq_getElem, List.getElem_dropLast, List.getElem_dropLast]
  · obtain ⟨i, j, -, hj, hnode⟩ := (hcovers hne).of_mem_phrases hnode
    refine hnode.placed hlaid (hj.trans ?_)
    rw [List.length_dropLast]
    omega
  · obtain ⟨hentry, hphrases, hspan⟩ := hempty hnil
    have htokens := Lexed.ofChars_tokens source.toList
    rw [Lexed.ofSource, htokens, List.dropLast_concat] at hnil
    rw [hnil, List.nil_append] at htokens
    refine ⟨hentry, hphrases, _, htokens, ?_⟩
    rw [hspan, Lexed.ofSource, htokens]
    rfl

/-- A node with a marker and a constraint between blanks runs from its first bracket to its last
one, and nothing at all is an empty result. -/
theorem phrases_placed_of_marked_node :
    (let tokens := (Lexed.ofSource " [f(+1), !a || 1.5] ").tokens
      ∃ phrase, (Entry.nodeStatement.parse 32 tokens).outcome = .ok phrase ∧
        phrase.span = ⟨1, 19⟩ ∧ ∀ node ∈ phrase.phrases, node.2.Placed tokens.dropLast) ∧
    (let tokens := (Lexed.ofSource " ").tokens
      ∃ phrase, (Entry.result.parse 32 tokens).outcome = .ok phrase ∧ phrase.span = ⟨1, 1⟩) := by
  constructor
  · intro tokens
    have hparsed : (Entry.nodeStatement.parse 32 tokens).outcome.toOption.isSome = true := by
      decide +kernel
    have hne : tokens.dropLast ≠ [] := by decide +kernel
    have hends : (tokens.dropLast.head hne).span.start = 1 ∧
        (tokens.dropLast.getLast hne).span.stop = 19 := by decide +kernel +revert
    cases houtcome : (Entry.nodeStatement.parse 32 tokens).outcome with
    | ok phrase =>
      obtain ⟨hspan, hplaced⟩ := (phrases_placed .nodeStatement 32 _ houtcome).1 hne
      exact ⟨phrase, rfl, by rw [hspan, hends.1, hends.2], hplaced⟩
    | error failure =>
      rw [houtcome] at hparsed
      cases hparsed
  · intro tokens
    have hparsed : (Entry.result.parse 32 tokens).outcome.toOption.isSome = true := by
      decide +kernel
    have htokens : tokens = [.endAt 1] := by decide +kernel
    cases houtcome : (Entry.result.parse 32 tokens).outcome with
    | ok phrase =>
      obtain ⟨-, -, last, hlast, hspan⟩ :=
        (phrases_placed .result 32 " " houtcome).2 (congrArg List.dropLast htokens)
      cases htokens.symm.trans hlast
      exact ⟨phrase, rfl, hspan⟩
    | error failure =>
      rw [houtcome] at hparsed
      cases hparsed

end Entry

end CorpusQuery
