import CorpusQuery.Cursor
import CorpusQuery.Phrase.Basic
import CorpusQuery.Trace

/-!
Parsers. A `Session` is what a parse carries along: the cursor, the failure at the nesting limit if
the limit was ever hit, and the trace so far. A `Parser` turns a session into another one and either
returns a value or fails; the session outlives a failure, so that an alternative can go back in it
and leave the trace and the limit failure in place.

Every loop of the grammar is an `iterate`. It goes on only while its steps bring it closer to the
end of the tokens, which is why it ends on every input.
-/

set_option autoImplicit false
set_option relaxedAutoImplicit false

namespace CorpusQuery

/-- What a parse carries along. -/
structure Session where
  cursor : Cursor
  /-- The failure at the nesting limit, from the first time the limit was hit. -/
  overflow : Option Failure
  /-- What happened so far, the latest event first. -/
  events : List Event
  deriving DecidableEq, Repr

namespace Session

/-- The beginning of a parse. -/
def ofTokens (tokens : List Token) : Session := ⟨.ofTokens tokens, none, []⟩

/-- The number of tokens behind the one at hand. -/
def remaining (session : Session) : Nat := session.cursor.ahead.length

end Session

/-- A computation on a session that returns a value or fails. -/
abbrev Parser : Type → Type := EStateM Failure Session

/-- The form and the parts of a phrase whose span is not known yet. -/
structure Draft (category : Category) where
  form : Form category
  parts : Parts form.slots

namespace Parser

variable {α : Type}

/-! ### Tokens -/

/-- Looks at the place of the cursor. Nothing is noted as tested. -/
def look (view : Place → α) : Parser α := fun session ↦
  .ok (view session.cursor.toPlace) session

/-- Runs an operation of the cursor. -/
def onCursor (operation : Cursor → α × Cursor) : Parser α := fun session ↦
  let (value, cursor) := operation session.cursor
  .ok value { session with cursor }

/-- Runs an operation of the cursor that may fail. -/
def orFail (operation : Cursor → Except Failure α × Cursor) : Parser α := fun session ↦
  match operation session.cursor with
  | (.ok value, cursor) => .ok value { session with cursor }
  | (.error failure, cursor) => .error failure { session with cursor }

/-- Passes and returns the token at hand. -/
def advance : Parser Token := onCursor fun cursor ↦ (cursor.here, cursor.advance)

/-- Tests the token at hand for a kind. -/
def check (kind : Kind) : Parser Bool := onCursor (·.check kind)

/-- Tests the token at hand for a set of kinds. -/
def checkAny (kinds : KindSet) : Parser Bool := onCursor (·.checkAny kinds)

/-- Passes the token at hand if it is of a kind. -/
def consume (kind : Kind) : Parser Bool := onCursor (·.consume kind)

/-- Passes and returns the token at hand if its kind is in a set. -/
def consumeAny (kinds : KindSet) : Parser (Option Token) := onCursor (·.consumeAny kinds)

/-- Notes kinds as acceptable here. -/
def expecting (kinds : KindSet) : Parser Unit := onCursor fun cursor ↦ ((), cursor.expecting kinds)

/-- Passes and returns the token at hand, which has to be of a kind. -/
def expect (kind : Kind) : Parser Token := orFail (·.expect kind)

/-- Fails at the token at hand. -/
def fail (cause : Cause) : Parser α := orFail fun cursor ↦ (.error (cursor.failure cause), cursor)

/-- Fails for want of something that begins with one of the given kinds. -/
def failMissing (what : String) (kinds : KindSet) : Parser α := orFail fun cursor ↦
  let (failure, tested) := cursor.expectedFailure what kinds
  (.error failure, tested)

/-- Passes the token at hand if a table has an entry for it, and returns the entry. -/
def oneOf (table : List (Kind × α)) : Parser (Option α) := do
  match ← consumeAny (.ofKeys table) with
  | none => pure none
  | some token => pure (table.lookup token.kind)

/-! ### Phrases -/

/-- Reads a phrase that began at an offset. It stops where the last token passed stops. -/
def phraseFrom {category : Category} (start : Nat) (body : Parser (Draft category)) :
    Parser (Phrase category) := do
  let draft ← body
  let stop ← look Place.previousStop
  pure (.phrase draft.form ⟨start, stop⟩ draft.parts)

/-- Reads a phrase that begins at the token at hand. -/
def phrase {category : Category} (body : Parser (Draft category)) : Parser (Phrase category) := do
  let start ← look (·.here.span.start)
  phraseFrom start body

/-- Reads what stands behind a token of a kind, if there is such a token. -/
def behind (kind : Kind) (body : Parser α) : Parser (Option α) := do
  let found ← consume kind
  if found then some <$> body else pure none

/-! ### Repetition -/

/-- Repeats a step on a value until the step gives none. A step that brings the cursor no closer to
the end of the tokens is the last one. -/
def iterate (step : α → Parser (Option α)) (value : α) : Parser α := fun session ↦
  match step value session with
  | .error failure after => .error failure after
  | .ok none after => .ok value after
  | .ok (some next) after =>
    if after.remaining < session.remaining then iterate step next after else .ok next after
termination_by session => session.remaining

/-- Reads items as long as there are any. -/
def many (item : Parser (Option α)) : Parser (List α) := do
  let items ← iterate (fun items ↦ do return (← item).map (· :: items)) []
  pure items.reverse

/-- Reads one or more items with separators of a kind between them. -/
def separatedBy (separator : Kind) (item : Parser α) : Parser (List α) := do
  let first ← item
  let others ← many (behind separator item)
  pure (first :: others)

/-! ### Choice -/

/-- Tries a reading. If it fails, the cursor goes back to where it was. -/
def attempt (title : String) (depth : Nat) (body : Parser α) : Parser α := fun session ↦
  match body session with
  | .ok value after => .ok value after
  | .error failure after =>
    .error failure
      { after with
        cursor := after.cursor.rewind session.cursor.toPlace
        events := .rewound title depth session.cursor.here :: after.events }

/-- Turns a failure into a value, so that another alternative can be tried. -/
def outcome (body : Parser α) : Parser (Except Failure α) := fun session ↦
  match body session with
  | .ok value after => .ok (.ok value) after
  | .error failure after => .ok (.error failure) after

/-- Asks a question that a reading answers. The cursor always goes back to where it was, and what
had been tested there stays tested. A reading that fails answers no. -/
def lookahead (question : Parser Bool) : Parser Bool := fun session ↦
  let back (after : Session) : Session :=
    { after with
      cursor := (after.cursor.rewind session.cursor.toPlace).expecting session.cursor.expected }
  match question session with
  | .ok answer after => .ok answer (back after)
  | .error _ after => .ok false (back after)

/-- Reads the last alternative of a choice. If it fails too, the failure to report is picked from
its failure and those of the alternatives before it. -/
def lastAlternative (earlier : List Failure) (body : Parser α) : Parser α := fun session ↦
  match body session with
  | .ok value after => .ok value after
  | .error failure after => .error (failure.exhausted earlier) after

/-! ### Nesting -/

/-- Runs the body of a rule and traces that it is entered and left. -/
def enter (title : String) (depth : Nat) (body : Parser α) : Parser α := fun session ↦
  let event := .entered title depth session.cursor.here
  match body { session with events := event :: session.events } with
  | .ok value after => .ok value { after with events := .left title depth none :: after.events }
  | .error failure after =>
    .error failure { after with events := .left title depth (some failure) :: after.events }

/-- Fails because no rule may be entered any more. The first failure of this kind is kept. -/
def exceed (limit : Nat) : Parser α := fun session ↦
  let failure := session.cursor.failure (.nestingLimit limit)
  .error failure { session with overflow := session.overflow <|> some failure }

end Parser

end CorpusQuery
