import CorpusQuery.Proofs.Nesting.Progress
import CorpusQuery.Proofs.Spelling.Copy

/-!
A session and its copies. While a query is read, the tokens still to come spell some wordings, and a
copy of the session has the same wordings ahead as they are printed (`Ready`). A token that is a
wording on its own is passed in both alike (`Wording.Says.pass`).
-/

set_option autoImplicit false
set_option relaxedAutoImplicit false

namespace CorpusQuery

/-! ### The rest of a session -/

namespace Token

/-- What every token of a text has that is not its end: digits are classed by their separators and
hold neither a point nor a sign. -/
structure Regular (token : Token) : Prop where
  kind_ne : token.kind ≠ .endOfInput
  digits : token.kind = .pureDigits ∨ token.kind = .digits →
    token.lexeme = .digits token.text.toList ∧ '.' ∉ token.text.toList ∧ '-' ∉ token.text.toList

end Token

/-- The tokens of a text: any regular ones and then the end. -/
inductive Closing : List Token → Prop
  | last {token : Token} (h : token.kind = .endOfInput) : Closing [token]
  | cons {token : Token} {rest : List Token} (htoken : token.Regular) (h : Closing rest) :
      Closing (token :: rest)

namespace Session

/-- The tokens from the one at hand on. -/
def rest (session : Session) : List Token := session.cursor.here :: session.cursor.ahead

@[simp] theorem rest_tested (session : Session) (kinds : KindSet) :
    (session.tested kinds).rest = session.rest := rfl

@[simp] theorem overflow_tested (session : Session) (kinds : KindSet) :
    (session.tested kinds).overflow = session.overflow := rfl

@[simp] theorem overflow_passed (session : Session) : session.passed.overflow = session.overflow :=
  rfl

theorem rest_passed {session : Session} {next : Token} {rest : List Token}
    (h : session.cursor.ahead = next :: rest) : session.passed.rest = next :: rest := by
  rw [Session.rest, passed, Cursor.advance_of_cons h]

/-- The kinds of the tokens from the one at hand on. -/
def kinds (session : Session) : List Kind := session.rest.map Token.kind

theorem behind_passed {session : Session} {next : Token} {rest : List Token}
    (h : session.cursor.ahead = next :: rest) :
    session.passed.cursor.behind = session.cursor.here :: session.cursor.behind := by
  rw [passed, Cursor.advance_of_cons h]

end Session

/-- A token that is not the end has another one behind it. -/
theorem Closing.ahead {session : Session} (h : Closing session.rest)
    (hkind : session.cursor.kind ≠ .endOfInput) :
    ∃ next rest, session.cursor.ahead = next :: rest ∧ Closing (next :: rest) ∧
      session.cursor.here.Regular := by
  rw [Session.rest] at h
  cases hahead : session.cursor.ahead with
  | nil =>
    rw [hahead] at h
    cases h with
    | last hend => exact absurd hend hkind
    | cons _ h => cases h
  | cons next rest =>
    rw [hahead] at h
    cases h with
    | cons htoken h => exact ⟨next, rest, rfl, h, htoken⟩

theorem Closing.of_cons {token : Token} {rest : List Token} (h : Closing (token :: rest))
    (hkind : token.kind ≠ .endOfInput) : token.Regular ∧ Closing rest := by
  cases h with
  | last hend => exact absurd hend hkind
  | cons htoken h => exact ⟨htoken, h⟩

/-- The end of the input is the last token, so it is never passed. -/
theorem Closing.passed_eq {session : Session} (h : Closing session.rest)
    (hkind : session.cursor.kind = .endOfInput) : session.passed = session := by
  rw [Session.rest] at h
  cases hahead : session.cursor.ahead with
  | nil => rw [Session.passed, Cursor.advance_of_nil hahead]
  | cons next rest =>
    rw [hahead] at h
    cases h with
    | cons htoken _ => exact absurd hkind htoken.kind_ne

/-- Two kinds in a row, of which the second is not the end. -/
theorem Closing.two_kinds {session : Session} {first second : Kind} (h : Closing session.rest)
    (hsecond : second ≠ .endOfInput) :
    [first, second] <+: session.kinds ↔
      session.cursor.kind = first ∧ session.cursor.peekKind 1 = second := by
  rw [Session.kinds, Session.rest, List.map_cons, List.cons_prefix_cons]
  rw [Session.rest] at h
  refine and_congr eq_comm ?_
  unfold Place.peekKind Place.peek
  cases hahead : session.cursor.ahead with
  | nil =>
    rw [hahead] at h
    cases h with
    | last hend => simpa [Place.along, hend] using hsecond.symm
    | cons _ h => cases h
  | cons next rest => cases rest <;> simp [Place.along, eq_comm]

/-- Three kinds in a row, of which the last is not the end. -/
theorem Closing.three_kinds {session : Session} {first second third : Kind}
    (h : Closing session.rest) (hthird : third ≠ .endOfInput) :
    [first, second, third] <+: session.kinds ↔
      session.cursor.kind = first ∧ session.cursor.peekKind 1 = second ∧
        session.cursor.peekKind 2 = third := by
  rw [Session.kinds, Session.rest, List.map_cons, List.cons_prefix_cons]
  rw [Session.rest] at h
  refine and_congr eq_comm ?_
  unfold Place.peekKind Place.peek
  cases hahead : session.cursor.ahead with
  | nil =>
    rw [hahead] at h
    cases h with
    | last hend => simpa [Place.along, hend] using fun _ ↦ hthird.symm
    | cons _ h => cases h
  | cons next rest =>
    cases rest with
    | nil =>
      rw [hahead] at h
      cases h with
      | cons _ h =>
        cases h with
        | last hend => simpa [Place.along, hend] using fun _ ↦ hthird.symm
        | cons _ h => cases h
    | cons last rest => cases rest <;> simp [Place.along, eq_comm]

/-- The place of a session is closed by the end of the input. -/
theorem Closing.closed {session : Session} (h : Closing session.rest) : session.cursor.Closed := by
  have hlast : ∀ {tokens : List Token}, Closing tokens →
      ∀ token ∈ tokens.getLast?, token.kind = .endOfInput := by
    intro tokens h
    induction h with
    | last hend =>
      rintro _ ⟨⟩
      exact hend
    | @cons token rest _ h ih =>
      intro last hlast
      refine ih last ?_
      cases rest with
      | nil => cases h
      | cons next rest => rwa [List.getLast?_cons_cons] at hlast
  refine hlast h _ ?_
  rw [Session.rest, List.getLast?_cons, List.getLastD_eq_getLast?]
  rfl

namespace Twin

variable {here here' : Token} {ahead ahead' : List Token}

theorem kin_along_one (h : Twin (here :: ahead) (here' :: ahead'))
    (hleads : here'.kind.leadsArgument = false) :
    Kin (Place.along here ahead 1) (Place.along here' ahead' 1) := by
  cases h.tail hleads with
  | nil => exact h.kin
  | cons hkin _ _ =>
    rw [Place.along, Place.along, Place.along_zero, Place.along_zero]
    exact hkin
  | argument hkind _ _ _ _ => exact .inl hkind

theorem kin_along_two (h : Twin (here :: ahead) (here' :: ahead'))
    (hleads : here'.kind.leadsArgument = false)
    (hleads' : (Place.along here' ahead' 1).kind.leadsArgument = false) :
    Kin (Place.along here ahead 2) (Place.along here' ahead' 2) := by
  have htail := h.tail hleads
  cases ahead with
  | nil =>
    cases htail
    exact h.kin
  | cons next ahead =>
    cases ahead' with
    | nil => cases htail
    | cons next' ahead' =>
      rw [Place.along, Place.along_zero] at hleads'
      exact htail.kin_along_one hleads'

end Twin

/-! ### Two sessions side by side -/

/-- The word for a kind that has one as a synonym. -/
def Kind.canonical : Kind → Kind
  | .symbol .bang => .keyword .not
  | .symbol .star => .keyword .all
  | .symbol .doublePipe => .keyword .or
  | .symbol .doubleAmpersand => .keyword .and
  | kind => kind

/-- The kind of the token just passed, up to synonyms. -/
def Session.previous (session : Session) : Option Kind :=
  session.cursor.previousKind?.map Kind.canonical

/-- A session on printed tokens that is where another session is, with the given wordings ahead. -/
structure Ready (session copy : Session) (wordings : List Wording) : Prop where
  overflow : copy.overflow = none
  previous : copy.previous = session.previous
  closing : Closing copy.rest
  printed : Printed wordings copy.rest

namespace Ready

variable {session copy : Session} {later : List Wording}

theorem twin (h : Ready session copy later) (hsettled : Settled later)
    (hspells : Spells later session.rest) : Twin session.rest copy.rest :=
  hsettled.twin hspells h.printed

theorem kin (h : Ready session copy later) (hsettled : Settled later)
    (hspells : Spells later session.rest) : Kin session.cursor.here copy.cursor.here :=
  (h.twin hsettled hspells).kin

/-- The tokens behind the one at hand go along as well. -/
theorem kin_one (h : Ready session copy later) (hsettled : Settled later)
    (hspells : Spells later session.rest) (hleads : copy.cursor.kind.leadsArgument = false) :
    Kin (session.cursor.peek 1) (copy.cursor.peek 1) :=
  (h.twin hsettled hspells).kin_along_one hleads

theorem kin_two (h : Ready session copy later) (hsettled : Settled later)
    (hspells : Spells later session.rest) (hleads : copy.cursor.kind.leadsArgument = false)
    (hleads' : (copy.cursor.peekKind 1).leadsArgument = false) :
    Kin (session.cursor.peek 2) (copy.cursor.peek 2) :=
  (h.twin hsettled hspells).kin_along_two hleads hleads'

/-- Two kinds in a row are there for a session if they are there for its copy. -/
theorem two_kinds {first second : Kind} (h : Ready session copy later) (hsettled : Settled later)
    (hspells : Spells later session.rest) (hclosing : Closing session.rest)
    (hfirst : first.isSynonym = false) (hsecond : second.isSynonym = false)
    (hend : second ≠ .endOfInput)
    (hargument : first.leadsArgument = true → second.beginsArgument = false) :
    session.cursor.kind = first ∧ session.cursor.peekKind 1 = second ↔
      copy.cursor.kind = first ∧ copy.cursor.peekKind 1 = second := by
  rw [← hclosing.two_kinds hend, ← h.closing.two_kinds hend]
  refine (h.twin hsettled hspells).prefix_iff ?_ (.cons_cons hargument (.singleton _))
  simp [hfirst, hsecond]

/-- Three kinds in a row are there for a session if they are there for its copy. -/
theorem three_kinds {first second third : Kind} (h : Ready session copy later)
    (hsettled : Settled later) (hspells : Spells later session.rest)
    (hclosing : Closing session.rest) (hfirst : first.isSynonym = false)
    (hsecond : second.isSynonym = false) (hthird : third.isSynonym = false)
    (hend : third ≠ .endOfInput)
    (hargument : first.leadsArgument = true → second.beginsArgument = false)
    (hargument' : second.leadsArgument = true → third.beginsArgument = false) :
    session.cursor.kind = first ∧ session.cursor.peekKind 1 = second ∧
        session.cursor.peekKind 2 = third ↔
      copy.cursor.kind = first ∧ copy.cursor.peekKind 1 = second ∧
        copy.cursor.peekKind 2 = third := by
  rw [← hclosing.three_kinds hend, ← h.closing.three_kinds hend]
  refine (h.twin hsettled hspells).prefix_iff ?_
    (.cons_cons hargument (.cons_cons hargument' (.singleton _)))
  simp [hfirst, hsecond, hthird]

end Ready

/-- A session at the same place, where other kinds may have been tested and other events noted. -/
structure Session.Still (session other : Session) : Prop where
  place : other.cursor.toPlace = session.cursor.toPlace
  overflow : other.overflow = session.overflow

namespace Session.Still

theorem refl (session : Session) : Still session session := ⟨rfl, rfl⟩

theorem tested (session : Session) (kinds : KindSet) : Still session (session.tested kinds) :=
  ⟨rfl, rfl⟩

variable {session other last copy copy' : Session}

theorem trans (h : Still session other) (hlast : Still other last) : Still session last :=
  ⟨hlast.place.trans h.place, hlast.overflow.trans h.overflow⟩

theorem rest (h : Still session other) : other.rest = session.rest := by
  rw [Session.rest, Session.rest, h.place]

theorem closing (h : Still session other) (hclosing : Closing session.rest) :
    Closing other.rest :=
  h.rest.symm ▸ hclosing

theorem ready (h : Still session other) (hcopy : Still copy copy') {wordings : List Wording}
    (hready : Ready session copy wordings) : Ready other copy' wordings := by
  refine ⟨hcopy.overflow.trans hready.overflow, ?_, hcopy.closing hready.closing,
    hcopy.rest.symm ▸ hready.printed⟩
  rw [Session.previous, Session.previous, h.place, hcopy.place]
  exact hready.previous

end Session.Still

/-! ### Passing tokens -/

/-- A session in which tokens have been passed. -/
structure Session.Passes (session : Session) (chunk : List Token) (last : Session) : Prop where
  rest : session.rest = chunk ++ last.rest
  behind : last.cursor.behind = chunk.reverse ++ session.cursor.behind
  overflow : last.overflow = session.overflow

theorem Closing.of_append {chunk rest : List Token} (h : Closing (chunk ++ rest))
    (hrest : rest ≠ []) : Closing rest := by
  induction chunk with
  | nil => exact h
  | cons token chunk ih =>
    generalize htokens : chunk ++ rest = tokens at h ih
    rw [List.cons_append, htokens] at h
    cases h with
    | last _ => exact absurd (List.append_eq_nil_iff.mp htokens).2 hrest
    | cons _ h => exact ih h

namespace Session.Passes

variable {session between last : Session} {chunk others : List Token}

theorem of_still (h : session.Still last) : Passes session [] last :=
  ⟨h.rest.symm, by rw [h.place]; rfl, h.overflow⟩

theorem trans (h : Passes session chunk between) (hlast : Passes between others last) :
    Passes session (chunk ++ others) last where
  rest := by rw [h.rest, hlast.rest, List.append_assoc]
  behind := by rw [hlast.behind, h.behind, List.reverse_append, List.append_assoc]
  overflow := hlast.overflow.trans h.overflow

theorem closing (h : Passes session chunk last) (hclosing : Closing session.rest) :
    Closing last.rest :=
  Closing.of_append (h.rest ▸ hclosing) (by rw [Session.rest]; nofun)

theorem here_eq (h : Passes session chunk last) {first : Token} (hfirst : first ∈ chunk.head?) :
    session.cursor.here = first := by
  have hrest := h.rest
  cases chunk with
  | nil => cases hfirst
  | cons token chunk =>
    cases hfirst
    exact (List.cons.inj hrest).1

/-- The kind of the last token passed is that of the previous token, up to synonyms. -/
theorem previous_eq (h : Passes session chunk last) {lexemes : List Lexeme}
    (hchunk : Written lexemes chunk) (hne : lexemes ≠ []) :
    last.previous = lexemes.getLast?.map (·.kind.canonical) := by
  have hlexemes : lexemes.getLast? = chunk.getLast?.map Token.lexeme := by
    rw [← hchunk.1, List.getLast?_map]
  cases hlast : chunk.getLast? with
  | none =>
    rw [hlast, Option.map_none, List.getLast?_eq_none_iff] at hlexemes
    exact absurd hlexemes hne
  | some token =>
    rw [hlast, Option.map_some] at hlexemes
    rw [hlexemes, Session.previous, Place.previousKind?, h.behind, List.head?_append,
      List.head?_reverse, hlast]
    rfl

/-- The token at hand has been passed, and another one is behind it. -/
theorem passed (hclosing : Closing session.rest) (hkind : session.cursor.kind ≠ .endOfInput) :
    Passes session [session.cursor.here] session.passed := by
  obtain ⟨next, rest, hahead, -⟩ := hclosing.ahead hkind
  refine ⟨?_, ?_, rfl⟩
  · rw [Session.rest_passed hahead, Session.rest, hahead]
    rfl
  · rw [Session.behind_passed hahead]
    rfl

/-- The first of the tokens ahead has been passed. -/
theorem of_cons {token : Token} {rest : List Token} (hclosing : Closing session.rest)
    (hrest : session.rest = token :: rest) (hkind : token.kind ≠ .endOfInput) :
    session.cursor.here = token ∧ session.passed.rest = rest ∧
      Passes session [token] session.passed := by
  obtain ⟨rfl, -⟩ := List.cons.inj hrest
  have hpasses := passed hclosing hkind
  refine ⟨rfl, ?_, hpasses⟩
  rw [hpasses.rest] at hrest
  exact List.tail_eq_of_cons_eq hrest

/-- The first three of the tokens ahead have been passed. -/
theorem of_three {first second third : Token} {rest : List Token} (hclosing : Closing session.rest)
    (hrest : session.rest = first :: second :: third :: rest) (hfirst : first.kind ≠ .endOfInput)
    (hsecond : second.kind ≠ .endOfInput) (hthird : third.kind ≠ .endOfInput) :
    session.cursor.here = first ∧ session.passed.passed.cursor.here = third ∧
      Passes session [first, second, third] session.passed.passed.passed := by
  obtain ⟨hhere, hrest', hpasses⟩ := of_cons hclosing hrest hfirst
  have hclosing' := hpasses.closing hclosing
  obtain ⟨-, hrest'', hpasses'⟩ := of_cons hclosing' hrest' hsecond
  obtain ⟨hhere'', -, hpasses''⟩ := of_cons (hpasses'.closing hclosing') hrest'' hthird
  exact ⟨hhere, hhere'', (hpasses.trans hpasses').trans hpasses''⟩

end Session.Passes

/-- The wording of a token on its own. -/
def Token.wording (token : Token) : Wording := .lexeme token.lexeme.kind token.lexeme.text

/-- A wording of one token that may be the given one. -/
structure Wording.Says (wording : Wording) (token : Token) : Prop where
  mem_ways : [token.lexeme] ∈ wording.ways
  usual : ∃ lexeme, wording.usual = [lexeme] ∧ lexeme.kind.canonical = token.kind.canonical

theorem Token.says_wording (token : Token) : token.wording.Says token :=
  ⟨List.mem_singleton.mpr rfl, token.lexeme, rfl, rfl⟩

theorem Wording.says_choice {synonym : Synonym} {token : Token}
    (h : token.kind = synonym.usual ∨ token.kind = synonym.other) :
    (Wording.choice synonym).Says token := by
  have htext : token.kind.hasText = false := by
    rcases h with h | h <;> rw [h] <;> cases synonym <;> rfl
  refine ⟨List.mem_pair.mpr ?_, .mark synonym.usual, rfl, ?_⟩
  · rw [Token.lexeme, htext]
    rcases h with h | h
    · exact .inl (by rw [h]; rfl)
    · exact .inr (by rw [h]; rfl)
  · rcases h with h | h <;> rw [h] <;> cases synonym <;> rfl

theorem Token.wording_of_kind {token : Token} {kind : Kind} (h : token.kind = kind)
    (htext : kind.hasText = false) : token.wording = .lexeme kind "" := by
  rw [wording, lexeme, h, htext]
  rfl

theorem Wording.says_mark {token : Token} {kind : Kind} (h : token.kind = kind)
    (htext : kind.hasText = false) : (Wording.lexeme kind "").Says token :=
  Token.wording_of_kind h htext ▸ token.says_wording

theorem Token.wording_of_hasText {token : Token} {kind : Kind} (h : token.kind = kind)
    (htext : kind.hasText = true) : token.wording = .lexeme kind token.text := by
  rw [wording, lexeme, h, htext]
  rfl

theorem Token.of_lexeme_eq {token : Token} {kind : Kind} {text : String}
    (htext : kind.hasText = true) (h : token.lexeme = ⟨kind, text⟩) :
    token.kind = kind ∧ token.text = text := by
  have hkind : token.kind = kind := congrArg Lexeme.kind h
  have htext' : token.lexeme.text = text := congrArg Lexeme.text h
  rw [lexeme, hkind, htext] at htext'
  exact ⟨hkind, htext'⟩

theorem Kind.ne_endOfInput_of_canonical {kind other : Kind} (h : kind.canonical = other.canonical)
    (hother : other ≠ .endOfInput) : kind ≠ .endOfInput := by
  rintro rfl
  have hother' : other.canonical = .endOfInput := h.symm
  unfold canonical at hother'
  split at hother'
  iterate 4 cases hother'
  exact hother hother'

/-- Passing a token that is a wording on its own, in a session and in its copies. -/
theorem Wording.Says.pass {session : Session} {wording : Wording}
    (hword : wording.Says session.cursor.here) (hclosing : Closing session.rest)
    (hkind : session.cursor.kind ≠ .endOfInput) :
    Closing session.passed.rest ∧ ∀ later, Spells later session.passed.rest →
      Spells (wording :: later) session.rest ∧ ∀ copy, Ready session copy (wording :: later) →
        wording.usual = [copy.cursor.here.lexeme] ∧ Ready session.passed copy.passed later := by
  obtain ⟨next, rest, hahead, hnext, -⟩ := hclosing.ahead hkind
  rw [Session.rest_passed hahead]
  refine ⟨hnext, fun later hlater ↦ ⟨?_, fun copy hcopy ↦ ?_⟩⟩
  · rw [Session.rest, hahead]
    exact .cons hword.mem_ways ⟨rfl, .singleton _⟩ hlater
  · obtain ⟨lexeme, husual, hcanonical⟩ := hword.usual
    obtain ⟨token, tokens, heq, htoken, -, hprinted⟩ := hcopy.printed.single husual
    obtain ⟨rfl, rfl⟩ := List.cons.inj heq
    refine ⟨by rw [husual, htoken], ?_⟩
    rw [← htoken] at hcanonical
    obtain ⟨next', rest', hahead', hnext', -⟩ :=
      hcopy.closing.ahead (Kind.ne_endOfInput_of_canonical hcanonical hkind)
    refine ⟨hcopy.overflow, ?_, ?_, ?_⟩
    · simp only [Session.previous, Place.previousKind?, Session.behind_passed hahead,
        Session.behind_passed hahead', List.head?_cons, Option.map_some]
      exact congrArg some hcanonical
    · rwa [Session.rest_passed hahead']
    · rwa [Session.rest_passed hahead', ← hahead']

end CorpusQuery
