import CorpusQuery.Failure

/-!
Reading tokens. A `Place` is a position in a token list: the tokens behind it, the token at hand and
the tokens ahead. The list never changes under a move (`tokens_advance`), and a place with nothing
ahead stays where it is. Since a list handed to the parser is closed by the end of input, so is
every place in it.

A `Cursor` is a place together with the kinds that were tested there. A move forgets them, and so
does going back, unless it goes nowhere; a test adds to them. They are what a failure at the cursor
lists as expected.
-/

set_option autoImplicit false
set_option relaxedAutoImplicit false

namespace CorpusQuery

/-- A position in a token list. -/
structure Place where
  /-- The tokens already passed, the nearest one first. -/
  behind : List Token
  /-- The token at hand. -/
  here : Token
  /-- The tokens still to come. -/
  ahead : List Token
  deriving DecidableEq, Repr

namespace Place

/-- The beginning of a token list, closed by the end of input if it is not yet. -/
def ofTokens : List Token → Place
  | [] => ⟨[], .endAt 0, []⟩
  | first :: rest =>
    let last := rest.getLastD first
    if last.kind = .endOfInput then ⟨[], first, rest⟩
    else ⟨[], first, rest ++ [.endAt last.span.stop]⟩

/-- The whole token list. -/
def tokens (place : Place) : List Token := place.behind.reverse ++ place.here :: place.ahead

/-- The number of tokens already passed. -/
def position (place : Place) : Nat := place.behind.length

/-- The token `count` steps along the list; at its end the last one. -/
def along (here : Token) : List Token → Nat → Token
  | [], _ => here
  | _ :: _, 0 => here
  | next :: rest, count + 1 => along next rest count

/-- The token `count` places ahead. Looking past the end gives the last token. -/
def peek (place : Place) (count : Nat) : Token := along place.here place.ahead count

def peekKind (place : Place) (count : Nat) : Kind := (place.peek count).kind

/-- The kind of the token at hand. -/
def kind (place : Place) : Kind := place.here.kind

/-- The kind of the token just passed. -/
def previousKind? (place : Place) : Option Kind := place.behind.head?.map Token.kind

/-- Where the token just passed ends; at the beginning, where the token at hand starts. -/
def previousStop (place : Place) : Nat :=
  match place.behind with
  | [] => place.here.span.start
  | previous :: _ => previous.span.stop

/-- Whether the token `count` places ahead starts where the one before it ends. -/
def touches (place : Place) : Nat → Bool
  | 0 =>
    match place.behind with
    | [] => false
    | previous :: _ => previous.span.stop == place.here.span.start
  | count + 1 => (place.peek count).span.stop == (place.peek (count + 1)).span.start

/-- Whether the token at hand is an end of input. -/
def atEnd (place : Place) : Bool := place.kind == .endOfInput

/-- The next place, if the token at hand is not the last one. -/
def next? (place : Place) : Option Place :=
  match place.ahead with
  | [] => none
  | next :: rest => some ⟨place.here :: place.behind, next, rest⟩

end Place

/-- A place and the kinds tested there. -/
structure Cursor extends Place where
  expected : KindSet
  deriving DecidableEq, Repr

namespace Cursor

/-- The beginning of a token list, with nothing tested yet. -/
def ofTokens (tokens : List Token) : Cursor := ⟨Place.ofTokens tokens, ∅⟩

/-- Passes the token at hand, unless it is the last one. -/
def advance (cursor : Cursor) : Cursor :=
  match cursor.next? with
  | some place => ⟨place, ∅⟩
  | none => cursor

/-- Notes kinds as acceptable here. -/
def expecting (cursor : Cursor) (kinds : KindSet) : Cursor :=
  { cursor with expected := cursor.expected ∪ kinds }

/-- Tests the token at hand for a kind. -/
def check (cursor : Cursor) (kind : Kind) : Bool × Cursor :=
  (cursor.kind == kind, cursor.expecting (.single kind))

/-- Tests the token at hand for a set of kinds. -/
def checkAny (cursor : Cursor) (kinds : KindSet) : Bool × Cursor :=
  (kinds.contains cursor.kind, cursor.expecting kinds)

/-- Passes the token at hand if it is of a kind. -/
def consume (cursor : Cursor) (kind : Kind) : Bool × Cursor :=
  let (found, tested) := cursor.check kind
  if found then (true, tested.advance) else (false, tested)

/-- Passes and returns the token at hand if its kind is in a set. -/
def consumeAny (cursor : Cursor) (kinds : KindSet) : Option Token × Cursor :=
  let (found, tested) := cursor.checkAny kinds
  if found then (some cursor.here, tested.advance) else (none, tested)

/-- The failure at the token at hand, for a cause. -/
def failure (cursor : Cursor) (cause : Cause) : Failure := ⟨cursor.here, cursor.expected, cause⟩

/-- Passes and returns the token at hand if it is of a kind, and fails otherwise. -/
def expect (cursor : Cursor) (kind : Kind) : Except Failure Token × Cursor :=
  let (found, tested) := cursor.check kind
  if found then (.ok cursor.here, tested.advance) else (.error (tested.failure .unexpected), tested)

/-- Notes kinds as acceptable here and fails for want of something that begins with one of them. -/
def expectedFailure (cursor : Cursor) (what : String) (kinds : KindSet) : Failure × Cursor :=
  let tested := cursor.expecting kinds
  (tested.failure (.missing what), tested)

/-- Goes back to a place. What was tested is forgotten if that is a move. -/
def rewind (cursor : Cursor) (place : Place) : Cursor :=
  ⟨place, if place.position = cursor.position then cursor.expected else ∅⟩

@[simp] theorem toPlace_expecting (cursor : Cursor) (kinds : KindSet) :
    (cursor.expecting kinds).toPlace = cursor.toPlace := rfl

@[simp] theorem toPlace_rewind (cursor : Cursor) (place : Place) :
    (cursor.rewind place).toPlace = place := rfl

theorem tokens_advance (cursor : Cursor) : cursor.advance.tokens = cursor.tokens := by
  unfold advance Place.next?
  split
  · rename_i place h
    split at h
    · simp at h
    · rename_i next rest hahead
      simp only [Option.some.injEq] at h
      subst h
      simp [Place.tokens, hahead]
  · rfl

end Cursor

end CorpusQuery
