import CorpusQuery.Proofs.Construction.Run
import CorpusQuery.Proofs.Spelling.Wording

/-!
A token list and its copy. The tokens of a query spell some wordings, and the copy spells the same
wordings as they are printed: each in its usual way, with a gap behind it (`Printed`). The two lists
begin alike wherever a wording begins, up to the choice between synonyms and the plus of an argument
(`Spells.first`), so what a parser decides by looking at the first tokens it decides for both
alike as long as it does not tell synonyms apart.
-/

set_option autoImplicit false
set_option relaxedAutoImplicit false

namespace CorpusQuery

/-! ### Printed tokens -/

/-- There is a gap between the last token of a chunk and what follows, unless that is the end of the
input. -/
def Apart (chunk tokens : List Token) : Prop :=
  ∀ last ∈ chunk.getLast?, ∀ next ∈ tokens.head?, next.kind ≠ .endOfInput → ¬ last.Touches next

theorem Apart.tail {token : Token} {chunk tokens : List Token} (h : Apart (token :: chunk) tokens) :
    Apart chunk tokens := by
  intro last hlast
  refine h last ?_
  rw [List.getLast?_cons, Option.mem_def.mp hlast]
  rfl

/-- Tokens that write wordings in the usual way, with a gap behind each of them. -/
inductive Printed : List Wording → List Token → Prop
  | nil : Printed [] []
  | cons {wording : Wording} {wordings : List Wording} {chunk tokens : List Token}
      (hchunk : Written wording.usual chunk) (hgap : Apart chunk tokens)
      (h : Printed wordings tokens) : Printed (wording :: wordings) (chunk ++ tokens)

/-! ### Single tokens -/

theorem Written.singleton {lexeme : Lexeme} {chunk : List Token} (h : Written [lexeme] chunk) :
    ∃ token, chunk = [token] ∧ token.lexeme = lexeme := by
  obtain ⟨hlexemes, -⟩ := h
  match chunk, hlexemes with
  | [token], hlexemes => exact ⟨token, rfl, by simpa using hlexemes⟩

theorem Wording.usual_mem_ways (wording : Wording) : wording.usual ∈ wording.ways := by
  unfold ways
  split
  · exact List.mem_cons_self
  · split <;> exact List.mem_cons_self
  · exact List.mem_cons_self

theorem Spells.uncons {wording : Wording} {wordings : List Wording} {tokens : List Token}
    (h : Spells (wording :: wordings) tokens) :
    ∃ way ∈ wording.ways, ∃ chunk rest, tokens = chunk ++ rest ∧ Written way chunk ∧
      Spells wordings rest := by
  cases h with
  | cons hway hchunk h => exact ⟨_, hway, _, _, rfl, hchunk, h⟩

theorem Printed.uncons {wording : Wording} {wordings : List Wording} {tokens : List Token}
    (h : Printed (wording :: wordings) tokens) :
    ∃ chunk rest, tokens = chunk ++ rest ∧ Written wording.usual chunk ∧ Apart chunk rest ∧
      Printed wordings rest := by
  cases h with
  | cons hchunk hgap h => exact ⟨_, _, rfl, hchunk, hgap, h⟩

theorem Spells.lexeme {kind : Kind} {text : String} {wordings : List Wording}
    {tokens : List Token} (h : Spells (.lexeme kind text :: wordings) tokens) :
    ∃ token rest, tokens = token :: rest ∧ token.lexeme = ⟨kind, text⟩ ∧ Spells wordings rest := by
  obtain ⟨way, hway, chunk, rest, rfl, hchunk, hrest⟩ := h.uncons
  rw [List.mem_singleton.mp hway] at hchunk
  obtain ⟨token, rfl, htoken⟩ := hchunk.singleton
  exact ⟨token, rest, rfl, htoken, hrest⟩

theorem Spells.choice {synonym : Synonym} {wordings : List Wording} {tokens : List Token}
    (h : Spells (.choice synonym :: wordings) tokens) :
    ∃ token rest, tokens = token :: rest ∧
      (token.kind = synonym.usual ∨ token.kind = synonym.other) ∧ Spells wordings rest := by
  obtain ⟨way, hway, chunk, rest, rfl, hchunk, hrest⟩ := h.uncons
  rcases List.mem_pair.mp hway with rfl | rfl
  · obtain ⟨token, rfl, htoken⟩ := hchunk.singleton
    exact ⟨token, rest, rfl, .inl (congrArg Lexeme.kind htoken), hrest⟩
  · obtain ⟨token, rfl, htoken⟩ := hchunk.singleton
    exact ⟨token, rest, rfl, .inr (congrArg Lexeme.kind htoken), hrest⟩

/-- The copy of a wording of one token. -/
theorem Printed.single {wording : Wording} {lexeme : Lexeme} {wordings : List Wording}
    {tokens : List Token} (h : Printed (wording :: wordings) tokens)
    (husual : wording.usual = [lexeme]) :
    ∃ token rest, tokens = token :: rest ∧ token.lexeme = lexeme ∧ Apart [token] rest ∧
      Printed wordings rest := by
  obtain ⟨chunk, rest, rfl, hchunk, hgap, hrest⟩ := h.uncons
  rw [husual] at hchunk
  obtain ⟨token, rfl, htoken⟩ := hchunk.singleton
  exact ⟨token, rest, rfl, htoken, hgap, hrest⟩

/-! ### First tokens -/

theorem Written.first {lexemes : List Lexeme} {first : Lexeme} {chunk : List Token}
    (h : Written (first :: lexemes) chunk) :
    ∃ token rest, chunk = token :: rest ∧ token.lexeme = first ∧ Written lexemes rest := by
  obtain ⟨hlexemes, hchain⟩ := h
  match chunk, hlexemes with
  | token :: rest, hlexemes =>
    rw [List.map_cons, List.cons.injEq] at hlexemes
    exact ⟨token, rest, rfl, hlexemes.1, hlexemes.2, hchain.tail⟩

namespace Wording

/-- Whether a wording is an argument, the only one that can begin with a sign of its own. -/
def isArgument : Wording → Bool
  | .argument _ => true
  | _ => false

/-- The kind of the token with which the usual way begins. -/
def kind (wording : Wording) : Kind := (wording.usual.headD (.mark .endOfInput)).kind

theorem lexemes_ne_nil (numeral : Numeral) : numeral.lexemes ≠ [] := by
  cases numeral <;> nofun

theorem usual_ne_nil (wording : Wording) : wording.usual ≠ [] := by
  cases wording with
  | number numeral => exact lexemes_ne_nil numeral
  | argument numeral =>
    simp only [usual]
    split
    · nofun
    · exact lexemes_ne_nil numeral
  | _ => nofun

theorem usual_eq_cons (wording : Wording) :
    ∃ first rest, wording.usual = first :: rest ∧ wording.kind = first.kind := by
  cases h : wording.usual with
  | nil => exact absurd h wording.usual_ne_nil
  | cons first rest => exact ⟨first, rest, rfl, by rw [kind, h]; rfl⟩

end Wording

theorem Printed.first {wording : Wording} {wordings : List Wording} {tokens : List Token}
    (h : Printed (wording :: wordings) tokens) :
    ∃ token rest, tokens = token :: rest ∧ token.kind = wording.kind := by
  cases h with
  | cons hchunk _ _ =>
    obtain ⟨first, lexemes, husual, hkind⟩ := wording.usual_eq_cons
    rw [husual] at hchunk
    obtain ⟨token, rest, rfl, htoken, -⟩ := hchunk.first
    exact ⟨token, _, rfl, (congrArg Lexeme.kind htoken).trans hkind.symm⟩

/-- The first token of a wording is of the usual kind, or it is a synonym, or the wording is an
argument and the token its plus. -/
theorem Spells.first {wording : Wording} {wordings : List Wording} {tokens : List Token}
    (h : Spells (wording :: wordings) tokens) :
    ∃ token rest, tokens = token :: rest ∧
      (token.kind = wording.kind ∨
        (∃ synonym, wording = .choice synonym ∧ token.kind = synonym.other) ∨
        (wording.isArgument = true ∧ token.kind = .symbol .plus)) := by
  cases h with
  | @cons _ _ way _ tokens hway hchunk _ =>
    by_cases husual : way = wording.usual
    · obtain ⟨first, lexemes, hfirst, hkind⟩ := wording.usual_eq_cons
      rw [husual, hfirst] at hchunk
      obtain ⟨token, rest, rfl, htoken, -⟩ := hchunk.first
      exact ⟨token, _, rfl, .inl ((congrArg Lexeme.kind htoken).trans hkind.symm)⟩
    · cases wording with
      | choice synonym =>
        rw [(List.mem_pair.mp hway).resolve_left husual] at hchunk
        obtain ⟨token, rest, rfl, htoken, -⟩ := hchunk.first
        exact ⟨token, _, rfl, .inr (.inl ⟨synonym, rfl, congrArg Lexeme.kind htoken⟩)⟩
      | argument numeral =>
        simp only [Wording.ways] at hway
        split at hway
        · exact absurd (List.mem_singleton.mp hway) husual
        · rw [(List.mem_pair.mp hway).resolve_left husual] at hchunk
          obtain ⟨token, rest, rfl, htoken, -⟩ := hchunk.first
          exact ⟨token, _, rfl, .inr (.inr ⟨rfl, congrArg Lexeme.kind htoken⟩)⟩
      | lexeme kind text => exact absurd (List.mem_singleton.mp hway) husual
      | pair first second => exact absurd (List.mem_singleton.mp hway) husual
      | number numeral => exact absurd (List.mem_singleton.mp hway) husual

/-- Whether a kind has a synonym. -/
def Kind.isSynonym (kind : Kind) : Bool :=
  [Synonym.negation, .universal, .disjunction, .conjunction].any fun synonym ↦
    kind == synonym.usual || kind == synonym.other

theorem Kind.ne_of_isSynonym {kind : Kind} (h : kind.isSynonym = false) (synonym : Synonym) :
    synonym.other ≠ kind ∧ synonym.usual ≠ kind := by
  refine ⟨?_, ?_⟩
  all_goals
    rintro rfl
    cases synonym <;> cases h

/-! ### Orderly wordings -/

/-- How wordings may follow each other: a point belongs to a path, and an argument stands in the
parentheses of a marker. -/
def Wording.Follows (wording next : Wording) : Prop :=
  (wording = sign .dot → ∃ name, next = .lexeme .identifier name) ∧
    (next.isArgument = true → wording = sign .leftParen ∨ wording = sign .comma)

/-- Whether two symbols are an end of an edge. -/
def Symbol.isEdgeEnd : Symbol → Symbol → Bool
  | .less, .minus | .minus, .minus | .minus, .greater => true
  | _, _ => false

theorem Symbol.of_isEdgeEnd {first second : Symbol} (h : first.isEdgeEnd second = true) :
    first = .less ∨ first = .minus := by
  unfold isEdgeEnd at h
  split at h
  · exact .inl rfl
  · exact .inr rfl
  · exact .inr rfl
  · cases h

/-- Wordings in order. Only the ends of edges are pairs. -/
structure Orderly (wordings : List Wording) : Prop where
  chain : wordings.IsChain Wording.Follows
  pairs : ∀ first second, .pair first second ∈ wordings → first.isEdgeEnd second = true

/-- Wordings in order that do not begin with an argument. -/
structure Settled (wordings : List Wording) : Prop extends Orderly wordings where
  head : ∀ wording ∈ wordings.head?, wording.isArgument = false

/-- Wordings in order that begin neither with an argument nor with the connective of a marker. -/
structure Plain (wordings : List Wording) : Prop extends Settled wordings where
  head_ne : ∀ wording ∈ wordings.head?, wording ≠ .choice .conjunction

/-- Whether a wording is neither an argument nor a pair that no edge has. -/
def Wording.isFree : Wording → Bool
  | .argument _ => false
  | .pair first second => first.isEdgeEnd second
  | _ => true

theorem Wording.isArgument_of_isFree {wording : Wording} (h : wording.isFree = true) :
    wording.isArgument = false := by
  cases wording with
  | argument numeral => cases h
  | _ => rfl

theorem Orderly.tail {wording : Wording} {wordings : List Wording}
    (h : Orderly (wording :: wordings)) : Orderly wordings :=
  ⟨h.chain.tail, fun first second hmem ↦ h.pairs first second (List.mem_cons_of_mem _ hmem)⟩

theorem Orderly.cons {wording : Wording} {wordings : List Wording} (h : Orderly wordings)
    (hfree : wording.isFree = true)
    (hfollows : ∀ next ∈ wordings.head?, wording.Follows next) : Orderly (wording :: wordings) := by
  refine ⟨List.isChain_cons.mpr ⟨hfollows, h.chain⟩, fun first second hmem ↦ ?_⟩
  rcases List.mem_cons.mp hmem with rfl | hmem
  · exact hfree
  · exact h.pairs first second hmem

theorem Settled.cons {wording : Wording} {wordings : List Wording} (h : Settled wordings)
    (hfree : wording.isFree = true) (hdot : wording ≠ .sign .dot) :
    Settled (wording :: wordings) where
  toOrderly := by
    refine h.toOrderly.cons hfree fun next hnext ↦ ⟨fun heq ↦ absurd heq hdot, fun harg ↦ ?_⟩
    rw [h.head next hnext] at harg
    cases harg
  head next hnext := by
    cases hnext
    exact Wording.isArgument_of_isFree hfree

theorem Plain.cons {wording : Wording} {wordings : List Wording} (h : Settled wordings)
    (hfree : wording.isFree = true) (hdot : wording ≠ .sign .dot)
    (hconjunction : wording ≠ .choice .conjunction) : Plain (wording :: wordings) where
  toSettled := h.cons hfree hdot
  head_ne next hnext := by
    cases hnext
    exact hconjunction

theorem Plain.lexeme {kind : Kind} {text : String} {wordings : List Wording} (h : Settled wordings)
    (hdot : kind ≠ .symbol .dot) : Plain (.lexeme kind text :: wordings) :=
  .cons h rfl (fun heq ↦ hdot (Wording.lexeme.inj heq).1) nofun

/-- A point is followed by a name. -/
theorem Plain.dot {name : String} {wordings : List Wording} (h : Settled wordings) :
    Plain (.sign .dot :: .lexeme .identifier name :: wordings) where
  toOrderly := by
    have hname : Settled (.lexeme .identifier name :: wordings) := h.cons rfl nofun
    refine hname.toOrderly.cons rfl fun next hnext ↦ ?_
    cases hnext
    exact ⟨fun _ ↦ ⟨name, rfl⟩, nofun⟩
  head wording hwording := by
    cases hwording
    rfl
  head_ne wording hwording := by
    cases hwording
    nofun

theorem Plain.number {value : Numeral} {later : List Wording} (h : Plain later) :
    Plain (.number value :: later) :=
  .cons h.toSettled rfl nofun nofun

/-- Where no argument begins, the tokens of a list and of its copy begin with the same kind, or with
a symbol and the word that is a synonym of it. -/
theorem Settled.alias_head {wordings : List Wording} {token token' : Token}
    {rest rest' : List Token} (h : Settled wordings) (hspells : Spells wordings (token :: rest))
    (hprinted : Printed wordings (token' :: rest')) :
    token.kind = token'.kind ∨ ∃ synonym, wordings.head? = some (.choice synonym) ∧
      token.kind = synonym.other ∧ token'.kind = synonym.usual := by
  cases wordings with
  | nil => cases hspells
  | cons wording wordings =>
    obtain ⟨_, _, heq, hfirst⟩ := hspells.first
    obtain ⟨_, _, heq', hfirst'⟩ := hprinted.first
    cases heq
    cases heq'
    rcases hfirst with hkind | ⟨synonym, rfl, hkind⟩ | ⟨hargument, -⟩
    · exact .inl (hkind.trans hfirst'.symm)
    · exact .inr ⟨synonym, rfl, hkind, hfirst'⟩
    · rw [h.head wording rfl] at hargument
      cases hargument

/-- What does not tell synonyms apart sees the same in a list and in its copy. -/
theorem Settled.kind_eq {α : Type} (view : Kind → α)
    (hview : ∀ synonym : Synonym, view synonym.other = view synonym.usual)
    {wordings : List Wording} {token token' : Token} {rest rest' : List Token}
    (h : Settled wordings) (hspells : Spells wordings (token :: rest))
    (hprinted : Printed wordings (token' :: rest')) : view token.kind = view token'.kind := by
  rcases h.alias_head hspells hprinted with heq | ⟨synonym, -, hkind, hkind'⟩
  · rw [heq]
  · rw [hkind, hkind', hview]

/-- Outside of markers it does no harm to tell their connectives apart. -/
theorem Plain.kind_eq {α : Type} (view : Kind → α)
    (hview : ∀ synonym : Synonym, synonym ≠ .conjunction →
      view synonym.other = view synonym.usual)
    {wordings : List Wording} {token token' : Token} {rest rest' : List Token}
    (h : Plain wordings) (hspells : Spells wordings (token :: rest))
    (hprinted : Printed wordings (token' :: rest')) : view token.kind = view token'.kind := by
  rcases h.alias_head hspells hprinted with heq | ⟨synonym, hhead, hkind, hkind'⟩
  · rw [heq]
  · rw [hkind, hkind']
    refine hview synonym fun heq ↦ ?_
    rw [heq] at hhead
    exact h.head_ne _ hhead rfl

/-- Whether a set does not tell synonyms apart, the connectives of markers aside. -/
def KindSet.isFair (kinds : KindSet) : Bool :=
  [Synonym.negation, .universal, .disjunction].all fun synonym ↦
    kinds.contains synonym.other == kinds.contains synonym.usual

theorem Plain.contains_eq {kinds : KindSet} (hkinds : kinds.isFair = true)
    {wordings : List Wording} {token token' : Token} {rest rest' : List Token}
    (h : Plain wordings) (hspells : Spells wordings (token :: rest))
    (hprinted : Printed wordings (token' :: rest')) :
    kinds.contains token.kind = kinds.contains token'.kind := by
  refine h.kind_eq kinds.contains (fun synonym hsynonym ↦ ?_) hspells hprinted
  refine beq_iff_eq.mp (List.all_eq_true.mp hkinds synonym ?_)
  cases synonym with
  | conjunction => exact absurd rfl hsynonym
  | _ => decide

/-! ### Token by token -/

/-- A token and its copy: they are of the same kind, or the copy is the word for a symbol. -/
def Kin (token token' : Token) : Prop :=
  token.kind = token'.kind ∨
    ∃ synonym : Synonym, token.kind = synonym.other ∧ token'.kind = synonym.usual

/-- The words that are usual for a symbol. -/
def Kind.isUsual : Kind → Bool
  | .keyword .not | .keyword .all | .keyword .or | .keyword .and => true
  | _ => false

/-- The symbols for which a word is usual. -/
def Kind.isOther : Kind → Bool
  | .symbol .bang | .symbol .star | .symbol .doublePipe | .symbol .doubleAmpersand => true
  | _ => false

/-- What does not tell synonyms apart sees the same in a token and in its copy. -/
theorem Kin.view_eq {α : Type} {token token' : Token} (h : Kin token token') (view : Kind → α)
    (hview : ∀ synonym : Synonym, view synonym.other = view synonym.usual) :
    view token.kind = view token'.kind := by
  rcases h with heq | ⟨synonym, hother, husual⟩
  · rw [heq]
  · rw [hother, husual, hview]

theorem Kin.eq_of_usual {token token' : Token} (h : Kin token token')
    (husual : token'.kind.isUsual = false) : token.kind = token'.kind := by
  rcases h with heq | ⟨synonym, -, hkind⟩
  · exact heq
  · rw [hkind] at husual
    cases synonym <;> cases husual

theorem Kin.eq_of_other {token token' : Token} (h : Kin token token')
    (hother : token.kind.isOther = false) : token'.kind = token.kind := by
  rcases h with heq | ⟨synonym, hkind, -⟩
  · exact heq.symm
  · rw [hkind] at hother
    cases synonym <;> cases hother

theorem Kind.of_isSynonym {kind : Kind} (h : kind.isSynonym = false) :
    kind.isOther = false ∧ kind.isUsual = false := by
  refine ⟨?_, ?_⟩
  · unfold isOther
    split
    iterate 4 cases h
    rfl
  · unfold isUsual
    split
    iterate 4 cases h
    rfl

theorem Settled.kin_head {wordings : List Wording} {token token' : Token}
    {rest rest' : List Token} (h : Settled wordings) (hspells : Spells wordings (token :: rest))
    (hprinted : Printed wordings (token' :: rest')) : Kin token token' :=
  (h.alias_head hspells hprinted).imp_right fun ⟨synonym, _, hkinds⟩ ↦ ⟨synonym, hkinds⟩

/-- Where the copy has a kind, the tokens have it as well. -/
def Echoes (kind : Kind) (wordings : List Wording) : Prop :=
  ∀ token token' rest rest', Spells wordings (token :: rest) → Printed wordings (token' :: rest') →
    token'.kind = kind → token.kind = kind

theorem Settled.reads {wordings : List Wording} (h : Settled wordings) {kind : Kind}
    (hkind : kind.isUsual = false) : Echoes kind wordings := by
  intro token token' rest rest' hspells hprinted heq
  exact ((h.kin_head hspells hprinted).eq_of_usual (heq ▸ hkind)).trans heq

theorem Plain.reads_and {wordings : List Wording} (h : Plain wordings) :
    Echoes (.keyword .and) wordings := by
  intro token token' rest rest' hspells hprinted heq
  rcases h.alias_head hspells hprinted with hsame | ⟨synonym, hhead, -, husual⟩
  · exact hsame.trans heq
  · rw [heq] at husual
    cases synonym with
    | conjunction => exact absurd rfl (h.head_ne _ hhead)
    | _ => cases husual

/-- The tokens that are all kind, have no synonym and may be followed by anything. -/
def Kind.isMark (kind : Kind) : Bool :=
  !kind.hasText && kind != .endOfInput && kind != .symbol .dot && !kind.isSynonym

theorem Kind.isMark_iff {kind : Kind} : kind.isMark = true ↔
    kind.hasText = false ∧ kind ≠ .endOfInput ∧ kind ≠ .symbol .dot ∧ kind.isSynonym = false := by
  simp [isMark, and_assoc]

theorem Plain.mark {kind : Kind} {wordings : List Wording} (h : Plain wordings)
    (hkind : kind.isMark = true) : Plain (.lexeme kind "" :: wordings) :=
  .lexeme h.toSettled (Kind.isMark_iff.mp hkind).2.2.1

theorem Plain.reads {kind : Kind} {wordings : List Wording} (h : Plain wordings)
    (hkind : kind.isMark = true) : Echoes kind wordings :=
  h.toSettled.reads (Kind.of_isSynonym (Kind.isMark_iff.mp hkind).2.2.2).2

/-- The kinds with which an argument may begin. -/
def Kind.beginsArgument : Kind → Bool
  | .symbol .plus | .symbol .minus | .pureDigits | .digits => true
  | _ => false

/-- The tokens before which an argument may stand. -/
def Kind.leadsArgument : Kind → Bool
  | .symbol .leftParen | .symbol .comma => true
  | _ => false

/-- Two lists that go along token by token up to the first argument. Where two tokens of the second
list touch, those of the first list do so as well. -/
inductive Twin : List Token → List Token → Prop
  | nil : Twin [] []
  | cons {token token' : Token} {rest rest' : List Token} (hkin : Kin token token')
      (htouch : ∀ next ∈ rest.head?, ∀ next' ∈ rest'.head?, next'.kind ≠ .endOfInput →
        token'.Touches next' → token.Touches next)
      (h : Twin rest rest') : Twin (token :: rest) (token' :: rest')
  | argument {token token' next next' : Token} {rest rest' : List Token}
      (hkind : token.kind = token'.kind) (hleads : token'.kind.leadsArgument = true)
      (hbegins : next.kind.beginsArgument = true) (hbegins' : next'.kind.beginsArgument = true)
      (hgap : ¬ token'.Touches next') : Twin (token :: next :: rest) (token' :: next' :: rest')

theorem Twin.kin {token token' : Token} {rest rest' : List Token}
    (h : Twin (token :: rest) (token' :: rest')) : Kin token token' := by
  cases h with
  | cons hkin _ _ => exact hkin
  | argument hkind _ _ _ _ => exact .inl hkind

/-- The lists go along behind a token before which no argument stands. -/
theorem Twin.tail {token token' : Token} {rest rest' : List Token}
    (h : Twin (token :: rest) (token' :: rest')) (hleads : token'.kind.leadsArgument = false) :
    Twin rest rest' := by
  cases h with
  | cons _ _ h => exact h
  | argument _ hleads' _ _ _ =>
    rw [hleads] at hleads'
    cases hleads'

theorem Twin.append_of_written {lexemes : List Lexeme} {chunk chunk' rest rest' : List Token}
    (hchunk : Written lexemes chunk) (hchunk' : Written lexemes chunk') (hgap : Apart chunk' rest')
    (h : Twin rest rest') : Twin (chunk ++ rest) (chunk' ++ rest') := by
  induction lexemes generalizing chunk chunk' with
  | nil =>
    obtain rfl := List.map_eq_nil_iff.mp hchunk.1
    obtain rfl := List.map_eq_nil_iff.mp hchunk'.1
    exact h
  | cons lexeme lexemes ih =>
    obtain ⟨token, tokens, rfl, htoken, htokens⟩ := hchunk.first
    obtain ⟨token', tokens', rfl, htoken', htokens'⟩ := hchunk'.first
    have hkin : Kin token token' := .inl (congrArg Lexeme.kind (htoken.trans htoken'.symm))
    refine .cons hkin ?_ (ih htokens htokens' hgap.tail)
    intro next hnext next' hnext' hend htouch
    cases tokens with
    | cons second others =>
      -- Within one wording the tokens of both lists touch.
      cases hnext
      exact (List.isChain_cons_cons.mp hchunk.2).1
    | nil =>
      obtain rfl := List.map_eq_nil_iff.mp (htokens'.1.trans htokens.1.symm)
      exact absurd htouch (hgap token' rfl next' hnext' hend)

theorem Wording.beginsArgument_kind {wording : Wording} (h : wording.isArgument = true) :
    wording.kind.beginsArgument = true := by
  have hdigits (numeral : Numeral) :
      (numeral.lexemes.headD (.mark .endOfInput)).kind.beginsArgument = true := by
    have hfirst (text : List Char) : (Lexeme.digits text).kind.beginsArgument = true := by
      unfold Lexeme.digits
      split <;> rfl
    cases numeral <;> exact hfirst _
  cases wording with
  | argument numeral =>
    simp only [kind, usual]
    split
    · rfl
    · exact hdigits numeral
  | _ => cases h

/-- Tokens and printed tokens of the same wordings go along. -/
theorem Settled.twin {wordings : List Wording} {tokens tokens' : List Token}
    (h : Settled wordings) (hspells : Spells wordings tokens)
    (hprinted : Printed wordings tokens') : Twin tokens tokens' := by
  induction wordings generalizing tokens tokens' with
  | nil =>
    cases hspells
    cases hprinted
    exact .nil
  | cons wording wordings ih =>
    obtain ⟨way, hway, chunk, rest, rfl, hchunk, hrest⟩ := hspells.uncons
    obtain ⟨chunk', rest', rfl, hchunk', hgap, hrest'⟩ := hprinted.uncons
    have hchain := List.isChain_cons.mp h.chain
    have hargument := h.head wording rfl
    by_cases hnext : ∃ next ∈ wordings.head?, next.isArgument = true
    · obtain ⟨next, hnext, hbegins⟩ := hnext
      obtain ⟨mark, hmark, hleads⟩ : ∃ mark : Symbol, wording = .sign mark ∧
          (Kind.symbol mark).leadsArgument = true := by
        rcases (hchain.1 next hnext).2 hbegins with heq | heq
        · exact ⟨_, heq, rfl⟩
        · exact ⟨_, heq, rfl⟩
      subst hmark
      rw [List.mem_singleton.mp hway] at hchunk
      obtain ⟨token, rfl, htoken⟩ := hchunk.singleton
      obtain ⟨token', rfl, htoken'⟩ := hchunk'.singleton
      have hkind : token'.kind = .symbol mark := congrArg Lexeme.kind htoken'
      obtain ⟨others, rfl⟩ : ∃ others, wordings = next :: others := by
        cases wordings with
        | nil => cases hnext
        | cons first others =>
          cases hnext
          exact ⟨others, rfl⟩
      have hbegins' := Wording.beginsArgument_kind hbegins
      obtain ⟨first, firsts, rfl, hfirst⟩ := hrest.first
      obtain ⟨first', firsts', rfl, hfirst'⟩ := hrest'.first
      have hend : first'.kind ≠ .endOfInput := by
        intro heq
        rw [← hfirst', heq] at hbegins'
        cases hbegins'
      refine .argument (congrArg Lexeme.kind (htoken.trans htoken'.symm)) (hkind ▸ hleads) ?_
        (hfirst' ▸ hbegins') (hgap token' rfl first' rfl hend)
      rcases hfirst with heq | ⟨synonym, rfl, -⟩ | ⟨-, heq⟩
      · exact heq ▸ hbegins'
      · cases hbegins
      · rw [heq]
        rfl
    · have hsettled : Settled wordings :=
        ⟨h.toOrderly.tail, fun next hhead ↦
          Bool.eq_false_iff.mpr fun heq ↦ hnext ⟨next, hhead, heq⟩⟩
      have htwin := ih hsettled hrest hrest'
      by_cases husual : way = wording.usual
      · rw [husual] at hchunk
        exact .append_of_written hchunk hchunk' hgap htwin
      · cases wording with
        | choice synonym =>
          rw [(List.mem_pair.mp hway).resolve_left husual] at hchunk
          obtain ⟨token, rfl, htoken⟩ := hchunk.singleton
          obtain ⟨token', rfl, htoken'⟩ := hchunk'.singleton
          refine .cons (.inr ⟨synonym, congrArg Lexeme.kind htoken, congrArg Lexeme.kind htoken'⟩)
            ?_ htwin
          exact fun _ _ next' hnext' hend htouch ↦ absurd htouch (hgap token' rfl next' hnext' hend)
        | argument numeral => cases hargument
        | lexeme kind text => exact absurd (List.mem_singleton.mp hway) husual
        | pair first second => exact absurd (List.mem_singleton.mp hway) husual
        | number numeral => exact absurd (List.mem_singleton.mp hway) husual

/-- Kinds with which the copy begins are those with which the tokens themselves begin, unless one
of them is the word for a symbol. -/
theorem Twin.prefix_of_copy {kinds : List Kind} {tokens tokens' : List Token}
    (h : Twin tokens tokens') (husual : ∀ kind ∈ kinds, kind.isUsual = false)
    (hargument : kinds.IsChain fun kind next ↦
      kind.leadsArgument = true → next.beginsArgument = false)
    (hinitial : kinds <+: tokens'.map Token.kind) : kinds <+: tokens.map Token.kind := by
  induction kinds generalizing tokens tokens' with
  | nil => exact List.nil_prefix
  | cons kind kinds ih =>
    cases h with
    | nil => cases List.prefix_nil.mp hinitial
    | @cons token token' rest rest' hkin _ hrest =>
      rw [List.map_cons, List.cons_prefix_cons] at hinitial ⊢
      obtain ⟨rfl, hinitial⟩ := hinitial
      refine ⟨(hkin.eq_of_usual (husual _ List.mem_cons_self)).symm, ?_⟩
      exact ih hrest (fun kind hmem ↦ husual kind (List.mem_cons_of_mem _ hmem)) hargument.tail
        hinitial
    | @argument token token' next next' rest rest' hkind hleads _ hbegins _ =>
      rw [List.map_cons, List.cons_prefix_cons] at hinitial ⊢
      obtain ⟨rfl, hinitial⟩ := hinitial
      refine ⟨hkind.symm, ?_⟩
      cases kinds with
      | nil => exact List.nil_prefix
      | cons next kinds =>
        rw [List.map_cons, List.cons_prefix_cons] at hinitial
        have hfalse := (List.isChain_cons_cons.mp hargument).1 hleads
        rw [hinitial.1, hbegins] at hfalse
        cases hfalse

/-- Kinds with which the tokens begin are those with which the copy begins, unless one of them is a
symbol for which there is a word. -/
theorem Twin.prefix_of_tokens {kinds : List Kind} {tokens tokens' : List Token}
    (h : Twin tokens tokens') (hother : ∀ kind ∈ kinds, kind.isOther = false)
    (hargument : kinds.IsChain fun kind next ↦
      kind.leadsArgument = true → next.beginsArgument = false)
    (hinitial : kinds <+: tokens.map Token.kind) : kinds <+: tokens'.map Token.kind := by
  induction kinds generalizing tokens tokens' with
  | nil => exact List.nil_prefix
  | cons kind kinds ih =>
    cases h with
    | nil => cases List.prefix_nil.mp hinitial
    | @cons token token' rest rest' hkin _ hrest =>
      rw [List.map_cons, List.cons_prefix_cons] at hinitial ⊢
      obtain ⟨rfl, hinitial⟩ := hinitial
      refine ⟨(hkin.eq_of_other (hother _ List.mem_cons_self)).symm, ?_⟩
      exact ih hrest (fun kind hmem ↦ hother kind (List.mem_cons_of_mem _ hmem)) hargument.tail
        hinitial
    | @argument token token' next next' rest rest' hkind hleads hbegins _ _ =>
      rw [List.map_cons, List.cons_prefix_cons] at hinitial ⊢
      obtain ⟨rfl, hinitial⟩ := hinitial
      refine ⟨hkind, ?_⟩
      cases kinds with
      | nil => exact List.nil_prefix
      | cons next kinds =>
        rw [List.map_cons, List.cons_prefix_cons] at hinitial
        have hfalse := (List.isChain_cons_cons.mp hargument).1 (hkind ▸ hleads)
        rw [hinitial.1, hbegins] at hfalse
        cases hfalse

/-- Kinds without synonyms with which the tokens or the copy begin. -/
theorem Twin.prefix_iff {kinds : List Kind} {tokens tokens' : List Token} (h : Twin tokens tokens')
    (hsynonym : ∀ kind ∈ kinds, kind.isSynonym = false)
    (hargument : kinds.IsChain fun kind next ↦
      kind.leadsArgument = true → next.beginsArgument = false) :
    kinds <+: tokens.map Token.kind ↔ kinds <+: tokens'.map Token.kind := by
  exact ⟨h.prefix_of_tokens (fun kind hkind ↦ (Kind.of_isSynonym (hsynonym kind hkind)).1)
      hargument,
    h.prefix_of_copy (fun kind hkind ↦ (Kind.of_isSynonym (hsynonym kind hkind)).2) hargument⟩

end CorpusQuery
