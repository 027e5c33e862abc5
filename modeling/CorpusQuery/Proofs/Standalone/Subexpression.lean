import CorpusQuery.Proofs.Coupling.Layout
import CorpusQuery.Proofs.Standalone.Reread
import CorpusQuery.Proofs.Standalone.Slice

/-!
Every subexpression stands alone (`Entry.subexpression_stands_alone`). The span of an expression
runs from the start of a token to the end of a token, so it denotes a slice of the text, whose
tokens are those of the expression, moved to the front (`Lexed.exists_crop`). They are an excerpt of
the tokens of the text, where the expression is read again, and moving tokens changes no reading.
-/

set_option autoImplicit false
set_option relaxedAutoImplicit false

namespace CorpusQuery

open CorpusQuery.Piece CorpusQuery.Place

/-! ### Slices of bytes -/

namespace Text

theorem dropBytes?_append (before rest : List Char) :
    dropBytes? (byteLength before) (before ++ rest) = some rest := by
  induction before with
  | nil => cases rest <;> rfl
  | cons c before ih =>
    have hsize := c.utf8Size_pos
    obtain ⟨count, hcount⟩ : ∃ count, c.utf8Size + byteLength before = count + 1 :=
      ⟨c.utf8Size + byteLength before - 1, by omega⟩
    rw [byteLength_cons, List.cons_append, hcount, dropBytes?, if_pos (by omega), ← hcount,
      Nat.add_sub_cancel_left, ih]

theorem takeBytes?_append (slice rest : List Char) :
    takeBytes? (byteLength slice) (slice ++ rest) = some slice := by
  induction slice with
  | nil => cases rest <;> rfl
  | cons c slice ih =>
    have hsize := c.utf8Size_pos
    obtain ⟨count, hcount⟩ : ∃ count, c.utf8Size + byteLength slice = count + 1 :=
      ⟨c.utf8Size + byteLength slice - 1, by omega⟩
    rw [byteLength_cons, List.cons_append, hcount, takeBytes?, if_pos (by omega), ← hcount,
      Nat.add_sub_cancel_left, ih, Option.map_some]

theorem slice?_append (before slice rest : List Char) :
    slice? (before ++ (slice ++ rest)) (byteLength before)
      (byteLength before + byteLength slice) = some slice := by
  rw [slice?, if_pos (Nat.le_add_right _ _), dropBytes?_append, Option.bind_some,
    Nat.add_sub_cancel_left, takeBytes?_append]

end Text

/-! ### Moved tokens -/

namespace Token

variable {tokens : List Token}

/-- The token so many bytes further on. -/
def shift (distance : Nat) (token : Token) : Token :=
  { token with span := ⟨token.span.start + distance, token.span.stop + distance⟩ }

theorem Laid.increasing (h : Token.Laid tokens) : Increasing tokens := by
  refine List.pairwise_iff_getElem.mpr fun index next hindex hnext hlt ↦ ?_
  have hmem : tokens[index] ∈ tokens.dropLast := by
    refine List.mem_iff_getElem.mpr ⟨index, ?_, List.getElem_dropLast _⟩
    rw [List.length_dropLast]
    omega
  exact (h.width _ hmem).trans_le
    (List.pairwise_iff_getElem.mp h.ordered index next hindex hnext hlt)

/-- Moving all tokens alike changes nothing else about them. -/
theorem Laid.relaid_shift (h : Token.Laid tokens) (distance : Nat) :
    Token.Relaid (tokens.map (shift distance)) tokens where
  lexemes := by rw [List.map_map]; rfl
  touching := by
    rw [touching, ← List.map_tail, List.zipWith_map, touching]
    refine congrArg (List.zipWith · tokens tokens.tail) ?_
    funext token next
    rw [Bool.eq_iff_iff, beq_iff_eq, beq_iff_eq]
    exact Nat.add_right_cancel_iff
  closed := by
    rw [Closed, List.getLast?_map, Option.map_map]
    exact h.closed
  closed' := h.closed
  increasing := List.pairwise_map.mpr (h.increasing.imp fun hlt ↦ Nat.add_lt_add_right hlt distance)
  increasing' := h.increasing

end Token

namespace Lexed

/-- A piece further on in a text is a token further on. -/
theorem token?_shift (offset distance : Nat) (piece : Piece) :
    (⟨offset + distance, piece⟩ : Placed).token? =
      (⟨offset, piece⟩ : Placed).token?.map (Token.shift distance) := by
  obtain ⟨shape, text⟩ := piece
  cases shape with
  | skipped => rfl
  | invalid => rfl
  | token kind =>
    have hvalue : (⟨offset + distance, ⟨.token kind, text⟩⟩ : Placed).value kind =
        (⟨offset, ⟨.token kind, text⟩⟩ : Placed).value kind := by
      cases kind with
      | stringLiteral => exact (Text.decode_offset _ _ _).1
      | _ => rfl
    simp only [Placed.token?, Placed.span, Option.map_some, Token.shift, hvalue,
      Nat.add_right_comm offset distance]

theorem tokens_shift (offset distance : Nat) (pieces : List Piece) :
    (place (offset + distance) pieces).filterMap Placed.token? =
      ((place offset pieces).filterMap Placed.token?).map (Token.shift distance) := by
  induction pieces generalizing offset with
  | nil => rfl
  | cons piece pieces ih =>
    rw [place, place, List.filterMap_cons, List.filterMap_cons, token?_shift,
      Nat.add_right_comm, ih]
    cases (⟨offset, piece⟩ : Placed).token? with
    | none => rfl
    | some token => rfl

/-- The pieces before a token, the piece of the token and those behind it. -/
theorem exists_place_split {offset : Nat} {pieces : List Piece} {tokens rest : List Token}
    {token : Token}
    (h : (place offset pieces).filterMap Placed.token? = tokens ++ token :: rest) :
    ∃ before piece after, pieces = before ++ piece :: after ∧
      (place offset before).filterMap Placed.token? = tokens ∧
        let start := offset + Text.byteLength (before.flatMap Piece.text)
        (place start (piece :: after)).filterMap Placed.token? = token :: rest ∧
          (⟨start, piece⟩ : Placed).token? = some token := by
  induction pieces generalizing offset tokens with
  | nil =>
    rw [place, List.filterMap_nil] at h
    exact absurd h.symm (by simp)
  | cons piece pieces ih =>
    cases htoken : (⟨offset, piece⟩ : Placed).token? with
    | none =>
      rw [place, List.filterMap_cons_none htoken] at h
      obtain ⟨before, other, after, rfl, hbefore, hafter⟩ := ih h
      refine ⟨piece :: before, other, after, rfl, ?_, ?_⟩
      · rw [place, List.filterMap_cons_none htoken, hbefore]
      · rw [List.flatMap_cons, Text.byteLength_append, ← Nat.add_assoc]
        exact hafter
    | some first =>
      have hplace := h
      rw [place, List.filterMap_cons_some htoken] at h
      cases tokens with
      | nil =>
        rw [List.nil_append, List.cons.injEq] at h
        obtain ⟨rfl, hrest⟩ := h
        exact ⟨[], piece, pieces, rfl, rfl, hplace, htoken⟩
      | cons other tokens =>
        rw [List.cons_append, List.cons.injEq] at h
        obtain ⟨rfl, hrest⟩ := h
        obtain ⟨before, other, after, rfl, hbefore, hafter⟩ := ih hrest
        refine ⟨piece :: before, other, after, rfl, ?_, ?_⟩
        · rw [place, List.filterMap_cons_some htoken, hbefore]
        · rw [List.flatMap_cons, Text.byteLength_append, ← Nat.add_assoc]
          exact hafter

/-- Pieces can be parted before the first and behind the last of some tokens. -/
theorem exists_place_slice {pieces : List Piece} {tokens : List Token} {first last : Nat}
    (h : (place 0 pieces).filterMap Placed.token? = tokens) (hlt : first < last)
    (hlast : last ≤ tokens.length) :
    ∃ before slice after, pieces = before ++ (slice ++ after) ∧
      let start := Text.byteLength (before.flatMap Piece.text)
      (place start slice).filterMap Placed.token? = (tokens.drop first).take (last - first) ∧
        tokens[first].span.start = start ∧
          tokens[last - 1].span.stop = start + Text.byteLength (slice.flatMap Piece.text) := by
  have hsplit : (place 0 pieces).filterMap Placed.token? =
      tokens.take first ++ tokens[first] :: tokens.drop (first + 1) := by
    rw [h, ← List.drop_eq_getElem_cons, List.take_append_drop]
  obtain ⟨before, piece, behind, rfl, -, hbehind, hfirst⟩ := exists_place_split hsplit
  rw [Nat.zero_add] at hbehind hfirst
  have hsplit' : (place (Text.byteLength (before.flatMap Piece.text)) (piece :: behind)).filterMap
      Placed.token? = (tokens.drop first).take (last - 1 - first) ++
        tokens[last - 1] :: tokens.drop (last - 1 + 1) := by
    have hdrop : tokens.drop (last - 1) = (tokens.drop first).drop (last - 1 - first) := by
      rw [List.drop_drop, Nat.add_sub_cancel' (by omega)]
    rw [hbehind, ← List.drop_eq_getElem_cons, ← List.drop_eq_getElem_cons, hdrop,
      List.take_append_drop]
  obtain ⟨inner, final, after, hpieces, hinner, -, hfinal⟩ := exists_place_split hsplit'
  refine ⟨before, inner ++ [final], after, ?_, ?_, ?_, ?_⟩
  · rw [hpieces, List.append_assoc]
    rfl
  · have hget : (tokens.drop first)[last - 1 - first]? = some tokens[last - 1] := by
      rw [List.getElem?_drop, Nat.add_sub_cancel' (by omega), List.getElem?_eq_getElem]
    rw [place_append, List.filterMap_append, hinner, place, List.filterMap_cons_some hfinal,
      show last - first = last - 1 - first + 1 by omega, List.take_add_one, hget]
    rfl
  · rw [span_of_token? hfirst, Placed.span]
  · rw [span_of_token? hfinal, Placed.span, List.flatMap_append, Text.byteLength_append,
      List.flatMap_singleton, Nat.add_assoc]

/-- The text of some of the tokens of a text. -/
structure Crop (text before slice after : List Char) (first last : Nat) : Prop where
  text_eq : text = before ++ (slice ++ after)
  clean : (ofChars slice).isClean = true
  tokens_eq : (ofChars slice).tokens.dropLast.map (Token.shift (Text.byteLength before)) =
    ((ofChars text).tokens.dropLast.drop first).take (last - first)
  extent_eq : (Place.ofTokens (ofChars text).tokens).extent first last =
    ⟨Text.byteLength before, Text.byteLength before + Text.byteLength slice⟩

theorem dropLast_tokens (text : List Char) :
    (ofChars text).tokens.dropLast = (place 0 (scan text)).filterMap Placed.token? := by
  rw [ofChars_tokens, List.dropLast_concat]

/-- In a clean text some tokens one behind the other are the tokens of a slice of it. -/
theorem exists_crop {text : List Char} {first last : Nat} (hclean : (ofChars text).isClean = true)
    (hlt : first < last) (hlast : last ≤ (ofChars text).tokens.dropLast.length) :
    ∃ before slice after, Crop text before slice after first last := by
  have hclosed := (laid_ofChars text).closed
  have hlength : (ofChars text).tokens.dropLast.length = (ofChars text).tokens.length - 1 :=
    List.length_dropLast
  obtain ⟨before, slice, after, hpieces, htokens, hstart, hstop⟩ :=
    exists_place_slice (dropLast_tokens text).symm hlt hlast
  have hsound : ∀ piece ∈ slice, piece.Sound := fun piece hpiece ↦
    (isClean_iff text).mp hclean piece (by simp [hpieces, hpiece])
  have hscan := scan_slice hpieces fun piece hpiece ↦ (hsound piece hpiece).shape_ne
  refine ⟨before.flatMap Piece.text, slice.flatMap Piece.text, after.flatMap Piece.text,
    ?_, ?_, ?_, ?_⟩
  · rw [← List.flatMap_append, ← List.flatMap_append, ← hpieces, flatten_scan]
  · rw [isClean_iff, hscan]
    exact hsound
  · rw [dropLast_tokens, hscan, ← tokens_shift, Nat.zero_add]
    exact htokens
  · rw [extent, Place.peek_ofTokens hclosed (by omega), Place.peek_ofTokens hclosed (by omega),
      ← hstop, ← hstart, List.getElem_dropLast, List.getElem_dropLast]

/-- The tokens of the slice, where they stand in the text, are an excerpt of its tokens. -/
theorem Crop.excerpt {text before slice after : List Char} {first last : Nat}
    (h : Crop text before slice after first last) (hlt : first < last)
    (hlast : last ≤ (ofChars text).tokens.dropLast.length)
    (hleads : Grammar.Continuation.leadsSet
      ((Place.ofTokens (ofChars text).tokens).peek (last - 1)).kind = false) :
    (Place.ofTokens ((ofChars slice).tokens.map (Token.shift (Text.byteLength before)))).Excerpt
      (Place.ofTokens (ofChars text).tokens) first (last - first) := by
  have hclosed := (laid_ofChars text).closed
  have hclosed' := ((laid_ofChars slice).relaid_shift (Text.byteLength before)).closed
  have htext := Place.length_ofTokens hclosed
  have hslice := Place.length_ofTokens hclosed'
  rw [List.length_dropLast] at hlast
  have hlength := congrArg List.length h.tokens_eq
  rw [List.length_map] at hslice
  rw [List.length_map, List.length_take, List.length_drop, List.length_dropLast,
    List.length_dropLast] at hlength
  refine ⟨ofTokens_closed _, ofTokens_closed _, by omega, by omega, fun index hindex ↦ ?_, ?_⟩
  · have hget := congrArg (·[index]?) h.tokens_eq
    simp only [List.getElem?_map, List.getElem?_take, if_pos hindex, List.getElem?_drop] at hget
    rw [List.getElem?_eq_getElem (by rw [List.length_dropLast]; omega),
      List.getElem?_eq_getElem (by rw [List.length_dropLast]; omega), Option.map_some,
      Option.some.injEq, List.getElem_dropLast, List.getElem_dropLast] at hget
    rw [Place.peek_ofTokens hclosed' (by rw [List.length_map]; omega),
      Place.peek_ofTokens hclosed (by omega), List.getElem_map, hget]
    simp only [Nat.add_comm]
  · rwa [Nat.add_sub_cancel' hlt.le]

end Lexed

namespace Entry

theorem isClean_of_phrase? {entry : Entry} {limit : Nat} {text : String}
    {phrase : Phrase entry.category} (h : (entry.ofText limit text).phrase? = some phrase) :
    (Lexed.ofSource text).isClean = true := by
  by_contra hclean
  rw [ofText, if_neg hclean] at h
  cases h

theorem ofText_of_outcome {entry : Entry} {limit : Nat} {text : String}
    {phrase : Phrase entry.category} (hclean : (Lexed.ofSource text).isClean = true)
    (h : (entry.parse limit (Lexed.ofSource text).tokens).outcome = .ok phrase) :
    entry.ofText limit text = ⟨some phrase, []⟩ := by
  simp only [ofText, hclean, if_true, h]

/-- Wherever an expression stands in what an entry reads of a text, its span denotes a slice of the
text, and of this slice alone the same expression is read under the same limit. -/
theorem subexpression_stands_alone (entry : Entry) (limit : Nat) (source : String)
    {phrase : Phrase entry.category} (h : (entry.ofText limit source).phrase? = some phrase)
    {expression : Phrase .expression} (hexpression : ⟨.expression, expression⟩ ∈ phrase.phrases) :
    ∃ slice, Text.slice? source.toList expression.span.start expression.span.stop = some slice ∧
      ∃ alone, Entry.expression.ofText limit (String.ofList slice) = ⟨some alone, []⟩ ∧
        expression.same alone = true := by
  have hclean := isClean_of_phrase? h
  have hlaid := Lexed.laid_ofSource source
  obtain ⟨hcovers, hempty⟩ := charted_of_outcome hlaid (fun room ↦ within_climbing)
    (outcome_of_phrase? h)
  by_cases hnil : (Lexed.ofSource source).tokens.dropLast = []
  · obtain ⟨rfl, hphrases, -⟩ := hempty hnil
    rw [hphrases, List.mem_singleton] at hexpression
    cases hexpression
  · obtain ⟨first, last, -, hlast, hcover⟩ := (hcovers hnil).of_mem_phrases hexpression
    obtain ⟨hclimbed, hleads⟩ : (Place.ofTokens (Lexed.ofSource source).tokens).climbing limit
      expression first last := hcover.holds
    have hlt : first < last := hcover.lt
    obtain ⟨before, slice, after, hcrop⟩ := Lexed.exists_crop hclean hlt hlast
    have hspan := hcover.span_eq
    rw [show expression.span = _ from hspan.trans hcrop.extent_eq]
    refine ⟨slice, ?_, ?_⟩
    · rw [hcrop.text_eq]
      exact Text.slice?_append before slice after
    · rw [← Nat.add_sub_cancel' hlt.le] at hclimbed
      have hparse := parse_excerpt (hcrop.excerpt hlt hlast hleads) hclimbed
      have hsame := layout_invariant .expression limit
        ((Lexed.laid_ofChars slice).relaid_shift (Text.byteLength before))
      have htext : (String.ofList slice).toList = slice := String.toList_ofList
      cases hread : (Entry.expression.parse limit (Lexed.ofChars slice).tokens).outcome with
      | error failure =>
        rw [hparse, hread] at hsame
        cases hsame
      | ok alone =>
        rw [hparse, hread] at hsame
        cases hsame with
        | ok hsame =>
          refine ⟨alone, ofText_of_outcome ?_ ?_, hsame⟩
          · rw [Lexed.ofSource, htext]
            exact hcrop.clean
          · rw [Lexed.ofSource, htext]
            exact hread

/-- In the constraint of a node a sum is continued, and up to there it is read alone. -/
theorem subexpression_stands_alone_of_left_operand :
    let source := "[!a - b * c + d]"
    ∃ phrase, (Entry.nodeStatement.ofText 32 source).phrase? = some phrase ∧
      ∃ expression : Phrase .expression, ⟨.expression, expression⟩ ∈ phrase.phrases ∧
        expression.span = ⟨1, 11⟩ ∧
          ∃ alone, Entry.expression.ofText 32 "!a - b * c" = ⟨some alone, []⟩ ∧
            expression.same alone = true := by
  intro source
  obtain ⟨phrase, hphrase⟩ := Option.isSome_iff_exists.mp
    (show (Entry.nodeStatement.ofText 32 source).phrase?.isSome = true by decide +kernel)
  have hany : ((Entry.nodeStatement.ofText 32 source).phrase?.elim false fun phrase ↦
      phrase.phrases.any fun node ↦ node.1 == .expression && node.2.span == ⟨1, 11⟩) = true := by
    decide +kernel
  rw [hphrase, Option.elim_some, List.any_eq_true] at hany
  obtain ⟨⟨category, expression⟩, hexpression, hnode⟩ := hany
  rw [Bool.and_eq_true, beq_iff_eq, beq_iff_eq] at hnode
  obtain ⟨rfl, hspan⟩ := hnode
  obtain ⟨slice, hslice, hread⟩ :=
    subexpression_stands_alone .nodeStatement 32 source hphrase hexpression
  rw [hspan, show Text.slice? source.toList 1 11 = some "!a - b * c".toList by decide +kernel,
    Option.some.injEq] at hslice
  rw [← hslice, String.ofList_toList] at hread
  exact ⟨phrase, hphrase, expression, hexpression, hspan, hread⟩

end Entry

end CorpusQuery
