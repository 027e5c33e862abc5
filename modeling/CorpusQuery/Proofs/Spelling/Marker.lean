import CorpusQuery.Proofs.Spelling.ConstraintAttempt
import CorpusQuery.Proofs.Spelling.MarkerAttempt

/-!
Markers in a copy. A marker is the only place where the symbol for a conjunction is a synonym of the
word, so behind a marker the wordings may begin with either of them (`Settled`), and nowhere else
(`Plain`). An argument begins right behind a parenthesis or a comma (`Argued`).
-/

set_option autoImplicit false
set_option relaxedAutoImplicit false

namespace CorpusQuery

open CorpusQuery.Parser

/-- A scope whose rules are mirrored by every copy, and whose attempts at an expression or a marker
read no more in a copy than in the tokens. -/
structure Scope.Mirroring (scope : Scope) : Prop extends scope.Expressive where
  sticky : ∀ rule, Sticky (scope.nested rule)
  structuralConstraint : ∀ session, Mirrors session Open Plain [] Tree.bare
    scope.structuralConstraint scope.structuralConstraint Phrase.wordings
  nodeStatement : ∀ least session, Mirrors session Open Plain [] Tree.bare
    (scope.nodeStatement least) (scope.nodeStatement least) Phrase.wordings
  node : ∀ session, Mirrors session (Grammar.Grouped false session) Plain [] Tree.bare scope.node
    scope.node Phrase.wordings
  marker : ∀ least session, Mirrors session Plain Settled [] Tree.bare (scope.marker least)
    (scope.marker least) Phrase.wordings
  selection : ∀ session, Mirrors session Plain Plain [] Tree.bare scope.selection scope.selection
    Phrase.wordings
  shadowsExpression : ∀ least, Shadows (Abreast Open) Numbered Grammar.isInteger
    (scope.expression least) (scope.expression least)
  shadowsMarker : ∀ least, Shadows Grammar.Anywhere Grammar.Anywhere (fun _ ↦ ())
    (scope.marker least) (scope.marker least)

/-- Wordings that begin with an argument. -/
def Argued (wordings : List Wording) : Prop :=
  ∃ value later, wordings = .argument value :: later ∧ Settled later

/-- Arguments stand behind a parenthesis or a comma. -/
theorem Argued.cons {symbol : Symbol} {later : List Wording} (h : Argued later)
    (hsymbol : symbol = .leftParen ∨ symbol = .comma) : Settled (.sign symbol :: later) := by
  obtain ⟨value, rest, rfl, hrest⟩ := h
  have hfirst : Orderly (.argument value :: rest) := by
    refine ⟨List.isChain_cons.mpr ⟨fun next hnext ↦ ⟨nofun, fun hargument ↦ ?_⟩, hrest.chain⟩,
      fun first second hmem ↦ ?_⟩
    · rw [hrest.head next hnext] at hargument
      cases hargument
    · exact hrest.pairs first second ((List.mem_cons.mp hmem).resolve_left nofun)
  refine ⟨hfirst.cons rfl fun next hnext ↦ ?_, ?_⟩
  · cases hnext
    refine ⟨fun heq ↦ ?_, fun _ ↦ ?_⟩
    · rcases hsymbol with rfl | rfl <;> cases heq
    · rcases hsymbol with rfl | rfl
      · exact .inl rfl
      · exact .inr rfl
  · rintro _ ⟨⟩
    rfl

/-- Values that were read with separators between them are not none. -/
theorem Parser.ne_nil_of_separatedBy {α : Type} {separator : Kind} {item : Parser α}
    {values : List α} {session last : Session}
    (h : separatedBy separator item session = .ok values last) : values ≠ [] := by
  unfold separatedBy at h
  cases hfirst : item session with
  | error failure failed =>
    rw [bind_of_error hfirst] at h
    cases h
  | ok first between =>
    rw [bind_of_ok hfirst] at h
    cases hothers : many (behind separator item) between with
    | error failure failed =>
      rw [bind_of_error hothers] at h
      cases h
    | ok others after =>
      rw [bind_of_ok hothers] at h
      cases h
      nofun

namespace Grammar

variable {scope : Scope} {session : Session}

theorem mirrors_markerEnd :
    Mirrors session Settled Settled [] (fun _ ↦ ()) (expect (.symbol .rightParen))
      (expect (.symbol .rightParen)) fun _ ↦ [.sign .rightParen] :=
  .expect_mark nofun rfl fun _ h ↦ h.cons rfl nofun

theorem mirrors_markerArguments (hscope : scope.Progressive) :
    Mirrors session Settled Settled [] id markerArguments markerArguments Wording.arguments := by
  refine .consume_then nofun rfl (fun _ h ↦ h.reads rfl) (fun _ (h : Argued _) ↦ h.cons (.inl rfl))
    (fun last ↦ ?_) fun _ ↦ .done rfl rfl
  refine (Mirrors.separatedBy hscope .argument nofun rfl (fun _ (h : Settled _) ↦ h.reads rfl)
    (fun _ (h : Argued _) ↦ h.cons (.inr rfl))
    (fun _ ↦ mirrors_signedNumeral fun value later h ↦ ⟨value, later, rfl, h⟩)).bind_of_run ?_
  intro arguments arguments' _ hrun harguments
  rw [List.map_id, List.map_id] at harguments
  subst harguments
  refine mirrors_markerEnd.bind fun _ _ _ _ ↦ .done ?_ rfl
  have hne : arguments.isEmpty = false := by
    simpa using ne_nil_of_separatedBy hrun
  simp [Wording.arguments, hne, Wording.separated_map, Wording.sign]

theorem mirrors_markerOperand (hs : scope.Mirroring) :
    Mirrors session Plain Settled [] Tree.bare (markerOperand scope) (markerOperand scope)
      Phrase.wordings := by
  refine .phrase (.consume_then (fun h ↦ by cases h) rfl (fun _ h ↦ h.toSettled.reads rfl)
    (fun _ (h : Plain _) ↦ h.mark rfl) (fun last ↦ ?_) fun last ↦ ?_)
  · refine (hs.marker 0 last).bind fun _ _ _ hinner ↦ ?_
    refine mirrors_markerEnd.bind fun _ _ _ _ ↦ .done ?_ ?_
    · simp [Draft.wordings, Form.layout, Wording.sign]
    · simp [Draft.bare, Tree.bare, hinner]
  · refine .check rfl (fun _ h ↦ h.toSettled) ?_
    cases hcall : last.cursor.kind == .identifier with
    | false => exact .of_error fun _ _ h ↦ by cases h
    | true =>
      have hname : Mirrors (last.tested (.single .identifier)) Plain Settled [] Token.text advance
          advance fun token ↦ [.lexeme .identifier token.text] :=
        .advance_text (beq_iff_eq.mp hcall) rfl fun _ _ h ↦ .lexeme h fun h ↦ by cases h
      refine hname.bind fun _ _ _ htext ↦ ?_
      refine (mirrors_markerArguments hs.progressive).bind_same fun arguments _ ↦ .done ?_ ?_
      · simp [Draft.wordings, Form.layout]
      · rw [htext]

theorem Connective.says_synonym {token : Token} {connective : Connective}
    (h : Connective.ofKind? token.kind = some connective) :
    ∃ synonym, (Wording.choice synonym).Says token ∧ ∀ left right : Phrase .marker,
      (connective.draft left right).wordings =
        left.wordings ++ [.choice synonym] ++ right.wordings := by
  have hwordings (connective : Connective) (synonym : Synonym) (heq : connective = .conjunction ∧
      synonym = .conjunction ∨ connective = .disjunction ∧ synonym = .disjunction)
      (left right : Phrase .marker) : (connective.draft left right).wordings =
        left.wordings ++ [.choice synonym] ++ right.wordings := by
    rcases heq with ⟨rfl, rfl⟩ | ⟨rfl, rfl⟩ <;>
      simp [Connective.draft, Draft.wordings, Form.layout]
  unfold Connective.ofKind? at h
  split at h
  · cases h
    exact ⟨.conjunction, Wording.says_choice (.inl ‹_›), hwordings _ _ (.inl ⟨rfl, rfl⟩)⟩
  · cases h
    exact ⟨.conjunction, Wording.says_choice (.inr ‹_›), hwordings _ _ (.inl ⟨rfl, rfl⟩)⟩
  · cases h
    exact ⟨.disjunction, Wording.says_choice (.inl ‹_›), hwordings _ _ (.inr ⟨rfl, rfl⟩)⟩
  · cases h
    exact ⟨.disjunction, Wording.says_choice (.inr ‹_›), hwordings _ _ (.inr ⟨rfl, rfl⟩)⟩
  · cases h

theorem mirrors_markerContinuation (hs : scope.Mirroring) (least : Nat)
    {left left' : Phrase .marker} (hleft : left.bare = left'.bare) :
    Mirrors session Settled Settled left.wordings (Option.map Tree.bare)
      (markerContinuation scope least left) (markerContinuation scope least left')
      fun next? ↦ Phrase.wordings (next?.getD left) := by
  refine .look (fun kind kind' ↦ Connective.ofKind? kind = Connective.ofKind? kind') rfl
    (fun copy later _ hspells h hready ↦ h.kind_eq Connective.ofKind? ?_ hspells hready.printed)
    fun kind' hkind ↦ ?_
  · rintro (_ | _ | _ | _) <;> rfl
  rw [← hkind]
  cases hconnective : Connective.ofKind? session.cursor.kind with
  | none => exact .done rfl rfl
  | some connective =>
    by_cases hlevel : connective.level < least
    · simp only [if_pos hlevel]
      exact .done rfl rfl
    · simp only [if_neg hlevel]
      obtain ⟨synonym, hword, hwordings⟩ := Connective.says_synonym hconnective
      have hjoin : Mirrors session Settled Plain [] (fun _ ↦ ()) advance advance
          fun _ ↦ [.choice synonym] :=
        .advance hword (of_ofKind? hconnective).1 fun _ h ↦ h.toSettled.cons rfl nofun
      refine (Mirrors.phraseFrom (hjoin.bind fun _ _ _ _ ↦ ?_)).map (fun _ ↦ rfl)
        fun _ _ hview ↦ congrArg some hview
      refine (hs.marker _ _).bind fun right right' _ hright ↦ .done (hwordings left right) ?_
      cases connective <;> simp [Connective.draft, Draft.bare, Tree.bare, hleft, hright]

theorem mirrors_marker (hs : scope.Mirroring) (least : Nat) :
    Mirrors session Plain Settled [] Tree.bare (marker scope least) (marker scope least)
      Phrase.wordings := by
  refine (mirrors_markerOperand hs).bind fun first first' _ hfirst ↦ ?_
  exact .iterate Tree.bare Phrase.wordings (hs.progressive.loops (.marker least))
    (fun _ _ _ hleft ↦ mirrors_markerContinuation hs least hleft) hfirst

end Grammar

end CorpusQuery
