import CorpusQuery.Proofs.Choice.Agreement
import CorpusQuery.Proofs.Spelling.Lexical
import CorpusQuery.Proofs.Spelling.Rules

/-!
No token is lost. Whatever an entry reads in the tokens of a source text, the tokens before the end
of the input are a spelling of it (`Entry.lossless`), and a copy in which the same wordings are
printed is read as the same tree (`Entry.mirrored_of_outcome`).
-/

set_option autoImplicit false
set_option relaxedAutoImplicit false

namespace CorpusQuery

/-- The end of the input. -/
def Wording.ending : Wording := .lexeme .endOfInput ""

theorem Spells.append_left {wordings others : List Wording} {tokens : List Token}
    (h : Spells (wordings ++ others) tokens) :
    ∃ before after, tokens = before ++ after ∧ Spells wordings before ∧ Spells others after := by
  induction wordings generalizing tokens with
  | nil => exact ⟨[], tokens, rfl, .nil, h⟩
  | cons wording wordings ih =>
    obtain ⟨way, hway, chunk, rest, rfl, hchunk, hrest⟩ := h.uncons
    obtain ⟨before, after, rfl, hbefore, hafter⟩ := ih hrest
    exact ⟨chunk ++ before, after, (List.append_assoc _ _ _).symm, .cons hway hchunk hbefore,
      hafter⟩

theorem Spells.singleton {kind : Kind} {text : String} {tokens : List Token}
    (h : Spells [.lexeme kind text] tokens) : ∃ token, tokens = [token] := by
  obtain ⟨token, rest, rfl, -, hrest⟩ := h.lexeme
  cases hrest
  exact ⟨token, rfl⟩

theorem Closing.of_cons_cons {token next : Token} {rest : List Token}
    (h : Closing (token :: next :: rest)) : token.Regular := by
  cases h with
  | cons htoken _ => exact htoken

/-- The end of the input is all that is left at the end of the input. -/
theorem Closing.rest_eq {session : Session} (h : Closing session.rest)
    (hkind : session.cursor.kind = .endOfInput) : session.rest = [session.cursor.here] := by
  rw [Session.rest] at h ⊢
  cases hahead : session.cursor.ahead with
  | nil => rfl
  | cons next rest =>
    rw [hahead] at h
    exact absurd hkind (h.of_cons_cons).kind_ne

theorem Closing.rest_ofTokens {tokens : List Token} (h : Closing tokens) :
    (Session.ofTokens tokens).rest = tokens ∧ (Session.ofTokens tokens).cursor.behind = [] := by
  cases tokens with
  | nil => cases h
  | cons first rest =>
    have hlast : (rest.getLastD first).kind = .endOfInput := by
      have hclosed : (⟨⟨⟨[], first, rest⟩, ∅⟩, none, []⟩ : Session).cursor.Closed :=
        Closing.closed h
      exact hclosed
    have hplace : Place.ofTokens (first :: rest) = ⟨[], first, rest⟩ := if_pos hlast
    rw [Session.ofTokens, Cursor.ofTokens, hplace]
    exact ⟨rfl, rfl⟩

theorem plain_ending : Plain [.ending] := .lexeme ⟨⟨.nil, nofun⟩, nofun⟩ nofun

namespace Entry

variable {entry : Entry} {limit : Nat} {tokens : List Token}

/-- What an entry reads is spelled by the tokens, and every printed copy is read alike. -/
theorem mirrored_of_outcome (hclosing : Closing tokens) {phrase : Phrase entry.category}
    (h : (entry.parse limit tokens).outcome = .ok phrase) :
    Spells (phrase.wordings ++ [.ending]) tokens ∧ Plain (phrase.wordings ++ [.ending]) ∧
      ∀ tokens', Closing tokens' → Printed (phrase.wordings ++ [.ending]) tokens' →
        ∃ phrase', (entry.parse limit tokens').outcome = .ok phrase' ∧
          phrase.same phrase' = true := by
  obtain ⟨hrest, hbehind⟩ := hclosing.rest_ofTokens
  obtain ⟨last, hrun⟩ := complete_of_outcome h
  have hnone : last.overflow = none := by
    cases hoverflow : entry.overflow? tokens limit with
    | some failure =>
      rw [(outcome_of_overflow hoverflow).1] at h
      cases h
    | none =>
      rw [overflow?, Parser.leave_of_ok hrun] at hoverflow
      exact hoverflow
  obtain ⟨hlast, hmirror⟩ := entry.mirrors_complete limit (hrest.symm ▸ hclosing) phrase last hrun
  obtain ⟨-, added, hwordings, hmirror⟩ := hmirror hnone
  rw [List.nil_append] at hwordings
  subst hwordings
  have hend : last.cursor.kind = .endOfInput := by
    obtain ⟨between, hbody, hkind, rfl⟩ := body_of_complete hrun
    obtain ⟨hbetween, -⟩ := entry.mirrors_body limit (hrest.symm ▸ hclosing) phrase between hbody
    rw [((Session.Still.tested between _).closing hbetween).passed_eq hkind]
    exact hkind
  have hspells : Spells [.ending] last.rest := by
    have hlexeme : last.cursor.here.lexeme = .mark .endOfInput := by
      rw [Token.lexeme, show last.cursor.here.kind = .endOfInput from hend]
      rfl
    have hwritten : Written Wording.ending.usual [last.cursor.here] :=
      ⟨congrArg (fun lexeme ↦ [lexeme]) hlexeme, .singleton _⟩
    rw [hlast.rest_eq hend]
    exact .cons Wording.ending.usual_mem_ways hwritten .nil
  have hplain : Plain [.ending] := plain_ending
  obtain ⟨hspelled, hcopies⟩ := hmirror _ hspells
  obtain ⟨hbefore, hcopies⟩ := hcopies hplain
  rw [hrest] at hspelled
  refine ⟨hspelled, hbefore, fun tokens' hclosing' hprinted ↦ ?_⟩
  obtain ⟨hrest', hbehind'⟩ := hclosing'.rest_ofTokens
  have hready : Ready (.ofTokens tokens) (.ofTokens tokens') (phrase.wordings ++ [.ending]) := by
    refine ⟨rfl, ?_, hrest'.symm ▸ hclosing', hrest'.symm ▸ hprinted⟩
    rw [Session.previous, Session.previous, Place.previousKind?, Place.previousKind?, hbehind,
      hbehind']
  obtain ⟨phrase', last', hrun', hview, hready'⟩ := hcopies _ hready
  refine ⟨phrase', ?_, (Tree.same_iff _ _).mpr hview⟩
  rw [parse, hrun']
  simp only [hready'.overflow, Option.elim_none]

/-- The tokens before the end of the input spell what an entry reads. -/
theorem spells_of_outcome (hclosing : Closing tokens) {phrase : Phrase entry.category}
    (h : (entry.parse limit tokens).outcome = .ok phrase) :
    Spells phrase.wordings tokens.dropLast := by
  obtain ⟨hspells, -⟩ := mirrored_of_outcome hclosing h
  obtain ⟨before, after, htokens, hbefore, hafter⟩ := hspells.append_left
  obtain ⟨token, rfl⟩ := hafter.singleton
  rw [htokens, List.dropLast_concat]
  exact hbefore

/-- Parsing loses nothing: whatever is read in a source text, its tokens before the end of the input
are a spelling of the tree. -/
theorem lossless (entry : Entry) (limit : Nat) (source : String) {phrase : Phrase entry.category}
    (h : (entry.parse limit (Lexed.ofSource source).tokens).outcome = .ok phrase) :
    Spells phrase.wordings (Lexed.ofSource source).tokens.dropLast :=
  spells_of_outcome (Lexed.closing_ofSource source) h

/-- The tokens of a node with a marker, a plus before its argument, two symbols that have words as
synonyms and a number with a point spell what is read. -/
theorem lossless_of_marked_node :
    let source := "[f(+1), !a || 1.5]"
    ∃ phrase, (Entry.nodeStatement.parse 32 (Lexed.ofSource source).tokens).outcome = .ok phrase ∧
      Spells phrase.wordings (Lexed.ofSource source).tokens.dropLast := by
  intro source
  have hparsed : (Entry.nodeStatement.parse 32
      (Lexed.ofSource source).tokens).outcome.toOption.isSome = true := by
    decide +kernel
  revert hparsed
  cases houtcome : (Entry.nodeStatement.parse 32 (Lexed.ofSource source).tokens).outcome with
  | ok phrase => exact fun _ ↦ ⟨phrase, rfl, lossless .nodeStatement 32 source houtcome⟩
  | error failure => exact nofun

end Entry

end CorpusQuery
