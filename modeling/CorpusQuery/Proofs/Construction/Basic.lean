import CorpusQuery.Entry

/-!
How parsers of the grammar are built. A grammar rule sees the rules it nests only through its scope,
and everything else in it is put together from a few operations of the cursor by sequence,
repetition and choice. `Parser.Alike` says that two parsers are one such construction over two
scopes. A property that the elementary operations have, that the combinators keep and that the rules
of the scopes share then holds of every rule of the grammar, by one induction on the construction.

What a construction may repeat is one of the loops of the grammar (`Grammar.Loop`), so what holds of
each of these holds of every loop that a parse runs.
-/

set_option autoImplicit false
set_option relaxedAutoImplicit false

namespace CorpusQuery

namespace Grammar

open CorpusQuery.Parser

/-- The items that the grammar reads one or more of, with the separators between them. -/
inductive Separated (scope : Scope) : Kind → {α : Type} → Parser α → Prop
  | expression : Separated scope (.symbol .comma) (scope.expression 0)
  | counter : Separated scope (.symbol .comma) (counter scope)
  | argument : Separated scope (.symbol .comma) signedNumeral
  | simpleQuantifier : Separated scope (.symbol .pipe) simpleQuantifier
  | element : Separated scope (.symbol .comma) (element scope)
  | memberName : Separated scope (.symbol .comma) memberName
  | binding : Separated scope (.keyword .and) binding
  | lane : Separated scope (.keyword .and) (lane scope)
  | groupExpression : Separated scope (.symbol .comma) (groupExpression scope)
  | orderExpression : Separated scope (.symbol .comma) (orderExpression scope)

/-- Another node statement, if one begins here. -/
def nodeStatement? (scope : Scope) : Parser (Option (Phrase .nodeStatement)) := do
  let found ← checkAny nodeStatementStart
  if found then some <$> scope.nodeStatement 0 else pure none

/-- The items that the grammar reads as long as there are any. -/
inductive Repeated (scope : Scope) : {α : Type} → Parser (Option α) → Prop
  | matchFlag : Repeated scope (oneOf matchFlags)
  | arrangement : Repeated scope (oneOf arrangements)
  | nodeStatement : Repeated scope (nodeStatement? scope)
  | behind {α : Type} {separator : Kind} {item : Parser α} (h : Separated scope separator item) :
      Repeated scope (behind separator item)

/-- The steps of the loops of the grammar. -/
inductive Loop (scope : Scope) : {α : Type} → (α → Parser (Option α)) → Prop
  | items {α : Type} {item : Parser (Option α)} (h : Repeated scope item) :
      Loop scope fun items : List α ↦ do return (← item).map (· :: items)
  | expression (least : Nat) : Loop scope (continuation scope least)
  | marker (least : Nat) : Loop scope (markerContinuation scope least)
  | nodeStatement (least : Nat) : Loop scope (nodeStatementContinuation scope least)

end Grammar

/-- Whether a cause is about the tokens at hand, as opposed to the nesting limit or the words of a
caller. -/
def Cause.isSyntactic : Cause → Bool
  | .nestingLimit _ | .stated _ => false
  | _ => true

namespace Parser

/-- The operations of the cursor that the grammar is made of. -/
inductive Elementary : {α : Type} → Parser α → Prop
  | look {α : Type} (view : Place → α) : Elementary (look view)
  | advance : Elementary advance
  | check (kind : Kind) : Elementary (check kind)
  | checkAny (kinds : KindSet) : Elementary (checkAny kinds)
  | consume (kind : Kind) : Elementary (consume kind)
  | consumeAny (kinds : KindSet) : Elementary (consumeAny kinds)
  | expecting (kinds : KindSet) : Elementary (expecting kinds)
  | expect (kind : Kind) : Elementary (expect kind)
  | fail {α : Type} (cause : Cause) (h : cause.isSyntactic = true) :
      Elementary (fail cause : Parser α)
  | failMissing {α : Type} (what : String) (kinds : KindSet) :
      Elementary (failMissing what kinds : Parser α)

/-- Tries a reading and goes on behind it, or else reads a second alternative in its place and goes
on behind that one. -/
def either {α β γ : Type} (title : String) (depth : Nat) (first : Parser α) (next : α → Parser γ)
    (second : Parser β) (rest : β → Parser γ) : Parser γ := do
  match ← outcome (attempt title depth first) with
  | .ok value => next value
  | .error failure => lastAlternative [failure] second >>= rest

/-- Two parsers that are one construction over two scopes. -/
inductive Alike (scope other : Scope) : {α : Type} → Parser α → Parser α → Prop
  | elementary {α : Type} {parser : Parser α} (h : Elementary parser) :
      Alike scope other parser parser
  | pure {α : Type} (value : α) : Alike scope other (pure value) (pure value)
  | bind {α β : Type} {parser parser' : Parser α} {next next' : α → Parser β}
      (h : Alike scope other parser parser')
      (hnext : ∀ value, Alike scope other (next value) (next' value)) :
      Alike scope other (parser >>= next) (parser' >>= next')
  | iterate {α : Type} {step step' : α → Parser (Option α)}
      (hloop : Grammar.Loop scope step)
      (h : ∀ value, Alike scope other (step value) (step' value)) (value : α) :
      Alike scope other (iterate step value) (iterate step' value)
  | attempt {α : Type} (title : String) {parser parser' : Parser α}
      (h : Alike scope other parser parser') :
      Alike scope other (attempt title scope.depth parser) (attempt title other.depth parser')
  | lookahead {question question' : Parser Bool} (h : Alike scope other question question') :
      Alike scope other (lookahead question) (lookahead question')
  | either {α β γ : Type} (title : String) {first first' : Parser α} {next next' : α → Parser γ}
      {second second' : Parser β} {rest rest' : β → Parser γ}
      (hfirst : Alike scope other first first')
      (hnext : ∀ value, Alike scope other (next value) (next' value))
      (hsecond : Alike scope other second second')
      (hrest : ∀ value, Alike scope other (rest value) (rest' value)) :
      Alike scope other (either title scope.depth first next second rest)
        (either title other.depth first' next' second' rest')
  | nested (rule : Rule) : Alike scope other (scope.nested rule) (other.nested rule)

namespace Alike

variable {scope other : Scope} {α β : Type}

theorem map (f : α → β) {parser parser' : Parser α} (h : Alike scope other parser parser') :
    Alike scope other (f <$> parser) (f <$> parser') := by
  rw [map_eq_pure_bind, map_eq_pure_bind]
  exact h.bind fun _ ↦ .pure _

theorem ite {condition : Prop} [Decidable condition] {yes yes' no no' : Parser α}
    (hyes : Alike scope other yes yes') (hno : Alike scope other no no') :
    Alike scope other (if condition then yes else no) (if condition then yes' else no') := by
  split
  · exact hyes
  · exact hno

theorem oneOf (table : List (Kind × α)) : Alike scope other (oneOf table) (oneOf table) := by
  refine .bind (.elementary (.consumeAny _)) fun found ↦ ?_
  cases found with
  | none => exact .pure _
  | some token => exact .pure _

theorem phraseFrom {category : Category} (start : Nat) {body body' : Parser (Draft category)}
    (h : Alike scope other body body') :
    Alike scope other (phraseFrom start body) (phraseFrom start body') :=
  h.bind fun _ ↦ .bind (.elementary (.look _)) fun _ ↦ .pure _

theorem phrase {category : Category} {body body' : Parser (Draft category)}
    (h : Alike scope other body body') : Alike scope other (phrase body) (phrase body') :=
  .bind (.elementary (.look _)) fun start ↦ phraseFrom start h

theorem behind (kind : Kind) {body body' : Parser α} (h : Alike scope other body body') :
    Alike scope other (behind kind body) (behind kind body') :=
  .bind (.elementary (.consume kind)) fun _ ↦ ite (h.map some) (.pure none)

theorem many {item item' : Parser (Option α)} (hitem : Grammar.Repeated scope item)
    (h : Alike scope other item item') : Alike scope other (many item) (many item') := by
  refine .bind (.iterate (.items hitem) (fun items ↦ ?_) []) fun _ ↦ .pure _
  exact h.bind fun _ ↦ .pure _

theorem separatedBy {separator : Kind} {item item' : Parser α}
    (hitem : Grammar.Separated scope separator item) (h : Alike scope other item item') :
    Alike scope other (separatedBy separator item) (separatedBy separator item') :=
  h.bind fun _ ↦ .bind (many (.behind hitem) (behind separator h)) fun _ ↦ .pure _

end Alike

end Parser

end CorpusQuery
