import CorpusQuery.Proofs.Spelling.Query

/-!
The rules of the grammar in a copy, by induction on the room below the nesting limit, and the
entries built from them. What an entry reads in a token list it reads in every printed copy of the
list, and the tokens spell what was read (`Entry.mirrors_complete`).
-/

set_option autoImplicit false
set_option relaxedAutoImplicit false

namespace CorpusQuery

open CorpusQuery.Parser

namespace Rule

open CorpusQuery.Grammar

variable {limit room : Nat}

/-- Without room below the limit nothing is read. -/
theorem mirrors_run_zero (rule : Rule) {δ : Type} {session : Session}
    {before after : List Wording → Prop} {sofar : List Wording} {view : Phrase rule.category → δ}
    {wordings : Phrase rule.category → List Wording} :
    Mirrors session before after sofar view (rule.run limit 0) (rule.run limit 0) wordings :=
  .of_error fun _ _ h ↦ by cases h

theorem shadows_run_zero (rule : Rule) {δ : Type} {link link' : Session → Session → Prop}
    {view : Phrase rule.category → δ} :
    Shadows link link' view (rule.run limit 0) (rule.run limit 0) := by
  refine ⟨sticky_run limit 0 rule, fun session copy _ hnone ↦ ?_⟩
  cases hoverflow : session.overflow <;> simp [leave, run, exceed, hoverflow] at hnone

theorem mirroring_inside (limit room : Nat) : (inside limit room).Mirroring := by
  induction room with
  | zero =>
    exact {
      progressive := progressive_inside limit 0
      sticky := sticky_run limit 0
      expression := fun least _ ↦ mirrors_run_zero (.expression least)
      loop := fun _ ↦ mirrors_run_zero .loop
      structuralConstraint := fun _ ↦ mirrors_run_zero .structuralConstraint
      nodeStatement := fun least _ ↦ mirrors_run_zero (.nodeStatement least)
      node := fun _ ↦ mirrors_run_zero .node
      marker := fun least _ ↦ mirrors_run_zero (.marker least)
      selection := fun _ ↦ mirrors_run_zero .selection
      shadowsExpression := fun least ↦ shadows_run_zero (.expression least)
      shadowsMarker := fun least ↦ shadows_run_zero (.marker least) }
  | succ room ih =>
    have hentered (rule : Rule) (session : Session) :
        session.Still (entered rule.title (limit - room) session) := ⟨rfl, rfl⟩
    exact {
      progressive := progressive_inside limit (room + 1)
      sticky := sticky_run limit (room + 1)
      expression := fun least _ ↦ .enter (mirrors_expression ih.toExpressive least)
      loop := fun _ ↦ .enter (mirrors_loop ih.toExpressive)
      structuralConstraint := fun _ ↦ .enter (mirrors_structuralConstraint ih)
      nodeStatement := fun least _ ↦ .enter (mirrors_nodeStatement ih least)
      node := fun session ↦ .enter ((mirrors_node ih).weaken
        (fun _ ↦ .of_still (hentered .node session)) fun _ ↦ id)
      marker := fun least _ ↦ .enter (mirrors_marker ih least)
      selection := fun _ ↦ .enter (mirrors_selection ih)
      shadowsExpression := fun least ↦ .enter (Abreast.tied _) Numbered.tied
        (sticky_run limit (room + 1) (.expression least))
        (shadows_expression ih.progressive ih.sticky ih.shadowsExpression least)
      shadowsMarker := fun least ↦ .enter (Abreast.tied _) (Abreast.tied _)
        (sticky_run limit (room + 1) (.marker least))
        (shadows_marker ih.progressive ih.sticky ih.shadowsMarker least) }

end Rule

namespace Entry

open CorpusQuery.Grammar

variable {scope : Scope} {session : Session}

theorem mirrors_payload_top (limit : Nat) :
    Mirrors session Plain Plain [] Tree.bare ((Scope.top limit).nested .payload)
      ((Scope.top limit).nested .payload) Phrase.wordings := by
  cases limit with
  | zero => exact Rule.mirrors_run_zero .payload
  | succ room => exact .enter (mirrors_payload (Rule.mirroring_inside (room + 1) room))

theorem mirrors_body (entry : Entry) (limit : Nat) :
    Mirrors session Plain Plain [] Tree.bare (entry.body (.top limit)) (entry.body (.top limit))
      Phrase.wordings := by
  have hs : (Scope.top limit).Mirroring := Scope.top_eq_inside limit ▸
    Rule.mirroring_inside limit limit
  cases entry with
  | expression => exact hs.expression 0 session
  | nodeStatement => exact (hs.nodeStatement 0 session).weaken (fun _ h ↦ h.toPlain) fun _ ↦ id
  | structuralConstraint =>
    exact (hs.structuralConstraint session).weaken (fun _ h ↦ h.toPlain) fun _ ↦ id
  | selection => exact hs.selection session
  | payload => exact mirrors_payload_top limit
  | group => exact mirrors_group hs
  | result => exact mirrors_result hs

theorem mirrors_complete (entry : Entry) (limit : Nat) :
    Mirrors session Plain Plain [] Tree.bare (entry.complete (.top limit))
      (entry.complete (.top limit)) Phrase.wordings := by
  refine (entry.mirrors_body limit).bind fun _ _ _ hview ↦ ?_
  refine (Mirrors.expect_end (fun _ h ↦ h.toSettled) fun _ ↦ id).bind fun _ _ _ _ ↦ ?_
  exact .done (by rw [List.append_nil, List.nil_append]) hview

end Entry

end CorpusQuery
