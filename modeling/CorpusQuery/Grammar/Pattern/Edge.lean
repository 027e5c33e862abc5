import CorpusQuery.Grammar.Atom
import CorpusQuery.Grammar.Rule

/-!
Edges. An edge is a single glyph, or brackets between two ends. An end with an arrow head points
away from the brackets; the two tokens that make up an end have to touch.
-/

set_option autoImplicit false
set_option relaxedAutoImplicit false

namespace CorpusQuery.Grammar

open CorpusQuery.Parser

/-- Whether the first end of an edge in brackets follows. -/
def atEdgeEnd (place : Place) : Bool :=
  (place.kind == .symbol .less || place.kind == .symbol .minus) &&
    place.peekKind 1 == .symbol .minus && place.touches 1

/-- Whether an edge follows. Only glyphs are noted as acceptable. -/
def atEdge : Parser Bool := do
  expecting (.ofKeys edgeGlyphs)
  look fun place ↦ (KindSet.ofKeys edgeGlyphs).contains place.kind || atEdgeEnd place

/-- Two tokens of the given kinds that touch. -/
def halves (head tail : Kind) : Parser Unit := do
  let _ ← expect head
  expecting (.single tail)
  let complete ← look fun place ↦ place.touches 0 && place.kind == tail
  if complete then
    let _ ← advance
    pure ()
  else
    fail (.incompleteEdge head tail)

/-- An end of an edge: the given two tokens for a directed one, or else two dashes. -/
def edgeEnd (head tail : Kind) : Parser EdgeEnd := do
  let atHead ← check head
  let atTail ← look (·.peekKind 1 == tail)
  if atHead && atTail then
    halves head tail
    pure .directed
  else
    halves (.symbol .minus) (.symbol .minus)
    pure .undirected

/-- The constraint of an edge, if its brackets hold one. -/
def edgeConstraint? (scope : Scope) : Parser (Option (Phrase .expression)) := do
  let isEmpty ← check (.symbol .rightBracket)
  if isEmpty then pure none else some <$> scope.expression 0

def edge (scope : Scope) : Parser (Phrase .edge) := phrase do
  match ← oneOf edgeGlyphs with
  | some (left, right) => pure ⟨.emptyEdge left right, .nil⟩
  | none =>
    let left ← edgeEnd (.symbol .less) (.symbol .minus)
    let _ ← expect (.symbol .leftBracket)
    let label ← label?
    let constraint ← edgeConstraint? scope
    let _ ← expect (.symbol .rightBracket)
    let right ← edgeEnd (.symbol .minus) (.symbol .greater)
    pure ⟨.filledEdge left right label, .optional constraint .nil⟩

/-- A node that has been read, with the edge behind it and the node that this leads to if there is
an edge. -/
def elementFrom (scope : Scope) (source : Phrase .node) : Parser (Phrase .element) :=
  phraseFrom source.span.start do
    let connected ← atEdge
    if connected then
      let edge ← edge scope
      let target ← scope.node
      pure ⟨.connection, .one source (.one edge (.one target .nil))⟩
    else
      pure ⟨.content, .one source .nil⟩

def element (scope : Scope) : Parser (Phrase .element) := do
  let source ← scope.node
  elementFrom scope source

end CorpusQuery.Grammar
