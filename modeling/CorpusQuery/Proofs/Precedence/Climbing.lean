import CorpusQuery.Proofs.Diagnosis.Failure
import CorpusQuery.Proofs.Precedence.Chain
import CorpusQuery.Proofs.Spelling.ConstraintAttempt
import CorpusQuery.Proofs.Standalone.Grammar

/-!
Chains of operators are parsed to the trees that they stand for (`Entry.expression_of_chain`). The
loop behind an operand goes from left to right, and what it has read so far is itself a chain: every
operator in it binds at least as tightly as the next one, so the next one is the rightmost operator
of the least level once its own right operand has taken all that binds more tightly. How deeply this
nests depends on the levels alone, for an expression nested in another one asks for a greater level.
-/

set_option autoImplicit false
set_option relaxedAutoImplicit false

namespace CorpusQuery

open CorpusQuery.Parser CorpusQuery.Grammar CorpusQuery.Chain

/-! ### Operands -/

namespace Chain

variable {scope : Scope} {session : Session} {next : Token} {rest : List Token}

/-- A session in which an expression has been read, with some links and the end still to come. -/
structure Reached (session : Session) (expression : Phrase .expression) (links : List Link)
    (last : Token) (after : Session) : Prop where
  rest : after.rest = tokensOf links ++ [last]
  overflow : after.overflow = session.overflow
  stop : after.cursor.previousStop = expression.span.stop

/-- The session behind the token at hand. -/
def behind (session : Session) (next : Token) (rest : List Token) : Session :=
  { session with cursor := ⟨⟨session.cursor.here :: session.cursor.behind, next, rest⟩, ∅⟩ }

theorem passed_eq_behind {token : Token} (h : session.rest = token :: next :: rest)
    (kinds : KindSet) : (session.tested kinds).passed = behind session next rest := by
  have hahead : (session.tested kinds).cursor.ahead = next :: rest := (List.cons.inj h).2
  rw [Session.passed, Cursor.advance_of_cons hahead]
  rfl

theorem advance_eq_behind {token : Token} (h : session.rest = token :: next :: rest) :
    advance session = .ok token (behind session next rest) := by
  obtain ⟨hhere, hahead⟩ := List.cons.inj h
  simp only [advance, onCursor, Cursor.advance_of_cons hahead, hhere, behind]

theorem expect_eq_behind {token : Token} {kind : Kind} (hkind : session.cursor.kind = kind)
    (h : session.rest = token :: next :: rest) :
    expect kind session = .ok token (behind session next rest) := by
  rw [expect_of_kind hkind, passed_eq_behind h, (List.cons.inj h).1]

/-- Behind digits with no point behind them an integer has been read. -/
theorem numeral_of_rest {token : Token} (h : session.rest = token :: next :: rest)
    (hdigits : digitKinds.contains token.kind = true) (hdot : next.kind ≠ .symbol .dot) :
    numeral session = .ok (.integer token.text) (behind session next rest) := by
  obtain ⟨rfl, hahead⟩ := List.cons.inj h
  have hpeek : session.cursor.peekKind 1 = next.kind := by
    rw [Place.peekKind, Place.peek, hahead, Place.along, Place.along_zero]
  have hdecimal : atDecimal session.cursor.toPlace = false := by
    have hne : (next.kind == Kind.symbol .dot) = false := beq_false_of_ne hdot
    simp only [atDecimal, hpeek, hne, Bool.and_false, Bool.false_and]
  rw [numeral_of_not_decimal hdecimal, map_eq_pure_bind,
    bind_of_ok (integer_of_digits hdigits), passed_eq_behind h]
  rfl

/-- An operand is neither wrapped nor a loop, and no operator stands before it. -/
theorem Operand.opens (first : Operand) : first.token.kind ≠ .symbol .leftParen ∧
    first.token.kind ≠ .keyword .foreach ∧ unaryOperator? first.token.kind = none := by
  obtain ⟨token, draft, hdraft⟩ := first
  unfold Token.operand? at hdraft
  split at hdraft <;> rename_i hkind <;> cases hdraft
  all_goals
    rw [hkind]
    exact ⟨nofun, nofun, rfl⟩

/-- A token that is an expression on its own is read as that expression. -/
theorem primary_of_rest (first : Operand) (h : session.rest = first.token :: next :: rest)
    (hdot : next.kind ≠ .symbol .dot) (hcolon : next.kind ≠ .symbol .doubleColon) :
    primary scope session = .ok first.draft (behind session next rest) := by
  obtain ⟨token, draft, hdraft⟩ := first
  dsimp only at h ⊢
  have hlook {kind : Kind} (hkind : token.kind = kind) :
      look Place.kind session = .ok kind session := by
    obtain ⟨rfl, -⟩ := List.cons.inj h
    rw [← hkind]
    rfl
  have hexpect {kind : Kind} (hkind : token.kind = kind) :
      expect kind session = .ok token (behind session next rest) :=
    expect_eq_behind ((congrArg Token.kind (List.cons.inj h).1).trans hkind) h
  have hpeek : look (·.peekKind 1) session = .ok next.kind session := by
    rw [look, Place.peekKind, Place.peek, (List.cons.inj h).2, Place.along, Place.along_zero]
  have hadvance := advance_eq_behind h
  unfold Token.operand? at hdraft
  split at hdraft <;> rename_i hkind <;> cases hdraft <;>
    rw [primary, bind_of_ok (hlook hkind), bind_of_ok hpeek]
  case h_4 | h_5 => exact bind_of_ok (numeral_of_rest h (by rw [hkind]; decide) hdot) _
  case h_7 =>
    exact bind_of_ok (by rw [variableName, map_eq_pure_bind, bind_of_ok (hexpect hkind)]; rfl) _
  case h_8 =>
    exact bind_of_ok (by rw [memberName, map_eq_pure_bind, bind_of_ok (hexpect hkind)]; rfl) _
  case h_9 =>
    dsimp only
    rw [bind_of_ok hadvance, if_neg hcolon]
    rfl
  all_goals exact bind_of_ok hadvance _

theorem operand_of_rest (scope : Scope) (first : Operand)
    (h : session.rest = first.token :: next :: rest) (hdot : next.kind ≠ .symbol .dot)
    (hcolon : next.kind ≠ .symbol .doubleColon) :
    operand scope session = .ok first.phrase (behind session next rest) := by
  have hhere : session.cursor.here = first.token := (List.cons.inj h).1
  have hkind : session.cursor.kind = first.token.kind := congrArg Token.kind hhere
  have hopens := first.opens
  rw [← hkind] at hopens
  rw [operand_of_primary hopens.1 hopens.2.1 hopens.2.2, Parser.phrase, bind_look, phraseFrom,
    bind_of_ok (primary_of_rest first h hdot hcolon), bind_look]
  simp only [behind, Place.previousStop, hhere]
  rfl

/-! ### Continuations -/

/-- The token behind an operand of a chain is an operator of the chain or the end. -/
theorem exists_next (links : List Link) {last : Token} (hlast : last.kind = .endOfInput) :
    ∃ next rest, tokensOf links ++ [last] = next :: rest ∧ next.kind ≠ .symbol .dot ∧
      next.kind ≠ .symbol .doubleColon := by
  cases links with
  | nil => exact ⟨last, [], rfl, by rw [hlast]; nofun, by rw [hlast]; nofun⟩
  | cons link links =>
    refine ⟨link.token, _, rfl, fun hkind ↦ ?_, fun hkind ↦ ?_⟩
    all_goals
      have hjoint := link.ofKind?_eq
      rw [hkind] at hjoint
      cases hjoint

/-- An operand neither negates nor is it `IN`, so a star before it multiplies. -/
theorem Operand.follows_star (operand : Operand) :
    Continuation.isNegation operand.token.kind = false ∧ operand.token.kind ≠ .keyword .inKw := by
  obtain ⟨token, draft, hdraft⟩ := operand
  unfold Token.operand? at hdraft
  split at hdraft <;> rename_i hkind <;> cases hdraft
  all_goals
    rw [hkind]
    exact ⟨rfl, nofun⟩

/-- A binary operator before an operand opens no set predicate. -/
theorem atSetPredicate_of_binary {place : Place} {operator : BinaryOperator}
    (hoperator : binaryOperator? place.kind = some operator) (operand : Operand)
    (hnext : place.peekKind 1 = operand.token.kind) :
    Continuation.atSetPredicate place = false := by
  obtain ⟨hnegation, hin⟩ := operand.follows_star
  have hzero : place.peekKind 0 = place.kind := congrArg Token.kind (Place.along_zero _ _)
  have hkind : Continuation.isNegation place.kind = false ∧ place.kind ≠ .keyword .inKw := by
    unfold binaryOperator? at hoperator
    split at hoperator <;> rename_i hkind <;> cases hoperator
    all_goals
      rw [hkind]
      exact ⟨rfl, nofun⟩
  unfold Continuation.atSetPredicate
  cases Continuation.isUniversal place.kind with
  | true =>
    simp only [if_true, hnext, hnegation, Bool.false_eq_true, if_false]
    exact beq_false_of_ne hin
  | false =>
    simp only [Bool.false_eq_true, if_false, hzero, hkind.1]
    exact beq_false_of_ne hkind.2

/-- A plain `IN` opens a set predicate. -/
theorem atSetPredicate_of_in {place : Place} (h : place.kind = .keyword .inKw) :
    Continuation.atSetPredicate place = true := by
  have hzero : place.peekKind 0 = .keyword .inKw :=
    (congrArg Token.kind (Place.along_zero _ _)).trans h
  have huniversal : Continuation.isUniversal (.keyword .inKw) = false := rfl
  have hnegation : Continuation.isNegation (.keyword .inKw) = false := rfl
  simp only [Continuation.atSetPredicate, h, huniversal, Bool.false_eq_true, if_false, hzero,
    hnegation, beq_self_eq_true]

/-- Before a link an expression goes on as the operator of the link says. -/
theorem at?_of_link {link : Link}
    (h : session.rest = link.token :: link.operand.token :: rest) :
    Continuation.at? session.cursor.toPlace = some link.joint.continuation := by
  obtain ⟨token, joint, hjoint, operand⟩ := link
  obtain ⟨rfl, hahead⟩ := List.cons.inj h
  dsimp only at hahead ⊢
  have hnext : session.cursor.peekKind 1 = operand.token.kind := by
    rw [Place.peekKind, Place.peek, hahead, Place.along, Place.along_zero]
  unfold Continuation.at?
  cases joint with
  | membership =>
    rw [atSetPredicate_of_in (Joint.kind_of_membership hjoint)]
    rfl
  | binary operator =>
    have hoperator : binaryOperator? session.cursor.kind = some operator :=
      Joint.binaryOperator?_of_binary hjoint
    rw [atSetPredicate_of_binary hoperator operand hnext]
    simp only [Bool.false_eq_true, if_false]
    split <;> rename_i hkind
    case h_7 =>
      rw [hoperator]
      rfl
    all_goals
      rw [hkind] at hoperator
      cases hoperator

/-- Behind a chain nothing goes on that binds at least as tightly as a level, if the next link does
not. -/
theorem continuation_of_looser (scope : Scope) {least : Nat} (left : Phrase .expression)
    {links : List Link} {last : Token} (hlast : last.kind = .endOfInput)
    (h : session.rest = tokensOf links ++ [last])
    (hlooser : ∀ link ∈ links.head?, link.level < least) :
    continuation scope least left session = .ok none session := by
  rw [continuation, bind_look]
  cases links with
  | nil =>
    have hkind : session.cursor.kind = .endOfInput :=
      (congrArg Token.kind (List.cons.inj h).1).trans hlast
    rw [Continuation.at?_of_endOfInput hkind]
    rfl
  | cons link links =>
    have hlt : link.joint.continuation.level < least :=
      link.joint.level_continuation.trans_lt (hlooser link rfl)
    rw [at?_of_link h]
    exact congrFun (if_pos hlt) session

theorem consumeEither_of_ne {first second : Kind} (hfirst : session.cursor.kind ≠ first)
    (hsecond : session.cursor.kind ≠ second) :
    consumeEither first second session =
      .ok false ((session.tested (.single first)).tested (.single second)) := by
  rw [consumeEither, bind_of_ok (consume_of_ne hfirst)]
  exact consume_of_ne hsecond

/-- What is read behind a plain `IN` is the set. -/
theorem setPredicate_of_in {token : Token} {left right : Phrase .expression} {after : Session}
    (hkind : session.cursor.kind = .keyword .inKw) (h : session.rest = token :: next :: rest)
    (hrun : scope.expression (Continuation.setPredicate.level + 1) (behind session next rest) =
      .ok right after) :
    Continuation.setPredicate.draft scope left session =
      .ok ⟨.setPredicate false false, .one left (.one right .nil)⟩ after := by
  have hne {kind : Kind} (h : kind ≠ .keyword .inKw) : session.cursor.kind ≠ kind :=
    hkind.trans_ne h.symm
  -- Neither the universal nor the negation is there; testing for them moves nothing.
  let unquantified := (session.tested (.single (.keyword .all))).tested (.single (.symbol .star))
  let affirmed :=
    (unquantified.tested (.single (.keyword .not))).tested (.single (.symbol .bang))
  have hall : consumeEither (.keyword .all) (.symbol .star) session = .ok false unquantified :=
    consumeEither_of_ne (hne nofun) (hne nofun)
  have hnot : consumeEither (.keyword .not) (.symbol .bang) unquantified = .ok false affirmed :=
    consumeEither_of_ne (hne nofun) (hne nofun)
  have hin : expect (.keyword .inKw) affirmed = .ok token (behind affirmed next rest) :=
    expect_eq_behind hkind h
  rw [Continuation.draft, bind_of_ok hall, bind_of_ok hnot, bind_of_ok hin]
  exact bind_of_ok hrun _

/-! ### Climbing -/

/-- Some links are taken and the others are left: each that is taken binds at least as tightly as a
level, and the first that is left does not. -/
structure Parted (least : Nat) (links taken left : List Link) : Prop where
  append_eq : links = taken ++ left
  taken_le : ∀ link ∈ taken, least ≤ link.level
  left_lt : ∀ link ∈ left.head?, link.level < least

/-- The parser reads every chain up to the first link that binds more loosely than a level, and
returns the tree of what it has read. -/
def Climbs (least : Nat) (parser : Parser (Phrase .expression)) : Prop :=
  ∀ (first : Operand) (links : List Link) (last : Token) (session : Session),
    last.kind = .endOfInput → session.rest = first.token :: (tokensOf links ++ [last]) →
      ∃ taken left after, parser session = .ok (treeOf first taken) after ∧
        Parted least links taken left ∧ Reached session (treeOf first taken) left last after

/-- The right operand of a link takes all the links behind it that bind more tightly. -/
theorem draft_of_link (left : Phrase .expression) {link : Link} {links : List Link} {last : Token}
    (hlast : last.kind = .endOfInput)
    (h : session.rest = link.token :: link.operand.token :: (tokensOf links ++ [last]))
    (hclimbs : Climbs (link.level + 1) (scope.expression (link.level + 1))) :
    ∃ taken others after, link.joint.continuation.draft scope left session =
        .ok (link.joint.draft left (treeOf link.operand taken)) after ∧
      Parted (link.level + 1) links taken others ∧
        Reached session (treeOf link.operand taken) others last after := by
  obtain ⟨token, joint, hjoint, operand⟩ := link
  dsimp only [Link.level] at h hclimbs ⊢
  obtain ⟨taken, others, after, hrun, hparted, hreached⟩ :=
    hclimbs operand links last (behind session operand.token (tokensOf links ++ [last])) hlast rfl
  refine ⟨taken, others, after, ?_, hparted, hreached.rest, hreached.overflow, hreached.stop⟩
  cases joint with
  | binary operator =>
    refine (bind_of_ok (advance_eq_behind h) _).trans ?_
    rw [operator.level_eq_strength]
    exact bind_of_ok hrun _
  | membership =>
    have hkind : session.cursor.kind = .keyword .inKw :=
      (congrArg Token.kind (List.cons.inj h).1).trans (Joint.kind_of_membership hjoint)
    exact setPredicate_of_in hkind h hrun

/-- An expression goes on with a link that binds at least as tightly as the level. -/
theorem continuation_of_link {least : Nat} (left : Phrase .expression) {link : Link}
    {links : List Link} {last : Token} (hlast : last.kind = .endOfInput)
    (h : session.rest = link.token :: link.operand.token :: (tokensOf links ++ [last]))
    (hleast : least ≤ link.level)
    (hclimbs : Climbs (link.level + 1) (scope.expression (link.level + 1))) :
    ∃ taken others after, continuation scope least left session =
        .ok (some (link.joint.join left (treeOf link.operand taken))) after ∧
      Parted (link.level + 1) links taken others ∧
        Reached session (link.joint.join left (treeOf link.operand taken)) others last after := by
  obtain ⟨taken, others, after, hdraft, hparted, hreached⟩ := draft_of_link left hlast h hclimbs
  refine ⟨taken, others, after, ?_, hparted, hreached.rest, hreached.overflow, hreached.stop⟩
  have hphrase : phraseFrom left.span.start (link.joint.continuation.draft scope left) session =
      .ok (link.joint.join left (treeOf link.operand taken)) after := by
    rw [phraseFrom, bind_of_ok hdraft, bind_look, hreached.stop]
    rfl
  have hlevel : ¬ link.joint.continuation.level < least := by
    rw [link.joint.level_continuation]
    exact Nat.not_lt.mpr hleast
  rw [continuation, bind_look, at?_of_link h]
  dsimp only
  rw [if_neg hlevel, map_eq_pure_bind, bind_of_ok hphrase]
  rfl

/-- The loop behind an operand. What it has read so far is the tree of the links it has passed, each
of which binds at least as tightly as the next one. -/
theorem iterate_of_links {least : Nat} (first : Operand) {last : Token}
    (hlast : last.kind = .endOfInput)
    (hnested : ∀ link : Link, least ≤ link.level →
      Climbs (link.level + 1) (scope.expression (link.level + 1)))
    {done links : List Link} (h : session.rest = tokensOf links ++ [last])
    (hstop : session.cursor.previousStop = (treeOf first done).span.stop)
    (hleast : ∀ link ∈ done, least ≤ link.level)
    (hdone : ∀ next ∈ links.head?, ∀ link ∈ done, next.level ≤ link.level) :
    ∃ taken left after,
      iterate (continuation scope least) (treeOf first done) session =
        .ok (treeOf first taken) after ∧
      Parted least (done ++ links) taken left ∧
        Reached session (treeOf first taken) left last after := by
  induction hlength : links.length using Nat.strongRecOn generalizing done links session with
  | ind length ih =>
  by_cases hlooser : ∀ link ∈ links.head?, link.level < least
  · have hnone := continuation_of_looser scope (treeOf first done) hlast h hlooser
    exact ⟨done, links, session, iterate_of_none hnone, ⟨rfl, hleast, hlooser⟩, h, rfl, hstop⟩
  cases links with
  | nil => exact absurd (fun link hlink ↦ by cases hlink) hlooser
  | cons link links =>
    have hle : least ≤ link.level := by
      refine Nat.le_of_not_lt fun hlt ↦ hlooser fun other hother ↦ ?_
      cases hother
      exact hlt
    obtain ⟨taken, others, after, hrun, ⟨rfl, htaken, hothers⟩, hreached⟩ :=
      continuation_of_link (treeOf first done) hlast h hle (hnested link hle)
    replace hothers : ∀ other ∈ others.head?, other.level ≤ link.level :=
      fun other hother ↦ Nat.le_of_lt_succ (hothers other hother)
    -- The link is the rightmost one of the least level among those passed.
    have htree : treeOf first (done ++ link :: taken) =
        link.joint.join (treeOf first done) (treeOf link.operand taken) :=
      treeOf_of_loosest first ⟨hdone link rfl, htaken⟩
    have hcloser : after.remaining < session.remaining := by
      have hsession := congrArg List.length h
      have hafter := congrArg List.length hreached.rest
      simp only [Session.rest, tokensOf_cons, tokensOf_append, List.length_cons,
        List.length_append] at hsession hafter
      simp only [Session.remaining]
      omega
    rw [← htree] at hrun hreached
    obtain ⟨taken', left, last', hrest, ⟨hlinks, htaken', hleft⟩, hlater⟩ :=
      ih others.length (by simp only [List.length_cons, List.length_append] at hlength; omega)
        hreached.rest hreached.stop
        (List.forall_mem_append.mpr ⟨hleast, List.forall_mem_cons.mpr ⟨hle, fun other hother ↦
          hle.trans (Nat.le_of_lt (htaken other hother))⟩⟩)
        (fun next hnext ↦ List.forall_mem_append.mpr
          ⟨fun other hother ↦ (hothers next hnext).trans (hdone link rfl other hother),
            List.forall_mem_cons.mpr ⟨hothers next hnext, fun other hother ↦
              (hothers next hnext).trans (Nat.le_of_lt (htaken other hother))⟩⟩) rfl
    refine ⟨taken', left, last', ?_, ⟨?_, htaken', hleft⟩, hlater.rest,
      hlater.overflow.trans hreached.overflow, hlater.stop⟩
    · rw [iterate_of_closer hrun hcloser]
      exact hrest
    · rw [← hlinks, List.append_assoc, List.cons_append]

/-! ### Expressions -/

/-- An expression of a level reads chains if the expressions of greater levels inside it do. -/
theorem climbs_expression {least : Nat} (hnested : ∀ link : Link, least ≤ link.level →
      Climbs (link.level + 1) (scope.expression (link.level + 1))) :
    Climbs least (expression scope least) := by
  intro first links last session hlast h
  obtain ⟨next, rest, hrest, hdot, hcolon⟩ := exists_next links hlast
  rw [hrest] at h
  have hoperand := operand_of_rest scope first h hdot hcolon
  have hbehind : (behind session next rest).rest = tokensOf links ++ [last] := by
    rw [hrest]
    rfl
  have hstop : (behind session next rest).cursor.previousStop = (treeOf first []).span.stop := by
    rw [treeOf_nil]
    simp only [behind, Place.previousStop, (List.cons.inj h).1]
    rfl
  obtain ⟨taken, left, after, hrun, hparted, hreached⟩ :=
    iterate_of_links first hlast hnested hbehind hstop (List.forall_mem_nil _)
      fun _ _ ↦ List.forall_mem_nil _
  refine ⟨taken, left, after, ?_, hparted, hreached.rest, hreached.overflow, hreached.stop⟩
  rw [treeOf_nil] at hrun
  rw [expression, bind_of_ok hoperand, hrun]

/-- How many expressions are open at most while a chain is read whose operators bind at least as
tightly as a level: one for each level that is left, and the innermost one. -/
def room (least : Nat) : Nat := if least ≤ 3 then 10 else 13 - max least 5 + 1

theorem room_lt {least : Nat} {link : Link} (h : least ≤ link.level) :
    room (link.level + 1) < room least := by
  have hrange := link.joint.level_range
  change link.level = 3 ∨ (5 ≤ link.level ∧ link.level ≤ 12) at hrange
  unfold room
  split <;> split <;> omega

theorem climbs_enter {least : Nat} {parser : Parser (Phrase .expression)} (title : String)
    (depth : Nat) (h : Climbs least parser) : Climbs least (enter title depth parser) := by
  intro first links last session hlast hrest
  obtain ⟨taken, left, after, hrun, hparted, hreached⟩ :=
    h first links last (entered title depth session) hlast hrest
  exact ⟨taken, left, _, enter_of_ok hrun, hparted, hreached.rest, hreached.overflow,
    hreached.stop⟩

/-- The nesting that the expressions of a chain take up depends on their levels alone. -/
theorem climbs_run (limit : Nat) {depth least : Nat} (h : room least ≤ depth) :
    Climbs least ((Rule.expression least).run limit depth) := by
  induction depth generalizing least with
  | zero =>
    unfold room at h
    split at h <;> omega
  | succ depth ih =>
    refine climbs_enter _ _ (climbs_expression fun link hle ↦ ih ?_)
    exact Nat.le_of_lt_succ ((room_lt hle).trans_le h)

/-! ### Whole chains -/

theorem close_tokens (chain : Chain) : ∃ last, last.kind = .endOfInput ∧
    Token.close chain.tokens = chain.tokens ++ [last] := by
  refine ⟨_, rfl, if_neg fun hclosed ↦ ?_⟩
  obtain ⟨token, htoken, hkind⟩ := Option.map_eq_some_iff.mp hclosed
  exact chain.kind_ne_of_mem_tokens token (List.mem_of_getLast? htoken) hkind

theorem close_concat (chain : Chain) {last : Token} (hlast : last.kind = .endOfInput) :
    Token.close (chain.tokens ++ [last]) = chain.tokens ++ [last] := by
  refine if_pos ?_
  rw [Token.Closed, List.getLast?_concat, Option.map_some, hlast]

end Chain

theorem Session.rest_ofTokens (tokens : List Token) :
    (Session.ofTokens tokens).rest = Token.close tokens := by
  have hbehind : (Session.ofTokens tokens).cursor.behind = [] :=
    (Place.begins_ofTokens tokens).behind_eq
  have htokens : (Session.ofTokens tokens).cursor.tokens = Token.close tokens :=
    Place.tokens_ofTokens_eq_close tokens
  rw [Place.tokens, hbehind] at htokens
  exact htokens

/-- A chain that is read up to its end is parsed to its tree. -/
theorem Entry.outcome_of_close (chain : Chain) {limit : Nat} (hlimit : 10 ≤ limit)
    {tokens : List Token} {last : Token} (hlast : last.kind = .endOfInput)
    (htokens : Token.close tokens = chain.tokens ++ [last]) :
    (Entry.expression.parse limit tokens).outcome = .ok chain.tree := by
  have hclimbs : Climbs 0 ((Scope.top limit).expression 0) := climbs_run limit hlimit
  have hrest : (Session.ofTokens tokens).rest =
      chain.first.token :: (tokensOf chain.links ++ [last]) :=
    (Session.rest_ofTokens tokens).trans htokens
  obtain ⟨taken, left, after, hrun, ⟨hlinks, -, hleft⟩, hreached⟩ :=
    hclimbs chain.first chain.links last _ hlast hrest
  -- No level is too loose for the whole expression, so no link is left.
  obtain rfl : left = [] := by
    cases left with
    | nil => rfl
    | cons link left => exact absurd (hleft link rfl) (Nat.not_lt_zero _)
  rw [List.append_nil] at hlinks
  have hend : after.cursor.kind = .endOfInput :=
    (congrArg Token.kind (List.cons.inj hreached.rest).1).trans hlast
  have hcomplete : Entry.expression.complete (.top limit) (.ofTokens tokens) =
      .ok chain.tree (after.tested (.single .endOfInput)).passed := by
    rw [Chain.tree, hlinks]
    exact (bind_of_ok hrun _).trans (bind_of_ok (expect_of_kind hend) _)
  have hoverflow : (after.tested (.single .endOfInput)).passed.overflow = none :=
    hreached.overflow
  simp only [parse, hcomplete, hoverflow, Option.elim_none]

/-- However long a chain of operators is, it is parsed to the tree that it stands for, under every
limit that lets ten expressions nest, whether or not its tokens are closed by the end of the input.
The doubled ampersand is always a bitwise operator in the tree, and `AND` a conjunction. -/
theorem Entry.expression_of_chain (chain : Chain) {limit : Nat} (hlimit : 10 ≤ limit) :
    (Entry.expression.parse limit chain.tokens).outcome = .ok chain.tree ∧
      (∀ last : Token, last.kind = .endOfInput →
        (Entry.expression.parse limit (chain.tokens ++ [last])).outcome = .ok chain.tree) ∧
      ∀ link ∈ chain.links,
        (link.token.kind = .symbol .doubleAmpersand → link.joint = .binary .doubleAnd ∧
          BinaryOperator.doubleAnd.family = .bitwise ∧ chain.tree.Has (.binary .doubleAnd)) ∧
        (link.token.kind = .keyword .and → link.joint = .binary .and ∧
          BinaryOperator.and.family = .conjunction ∧ chain.tree.Has (.binary .and)) := by
  refine ⟨?_, fun last hlast ↦ outcome_of_close chain hlimit hlast (close_concat chain hlast),
    fun link hlink ↦ ⟨fun hkind ↦ ?_, fun hkind ↦ ?_⟩⟩
  · obtain ⟨last, hlast, htokens⟩ := close_tokens chain
    exact outcome_of_close chain hlimit hlast htokens
  all_goals
    have hjoint := link.ofKind?_eq
    rw [hkind] at hjoint
    obtain hjoint := Option.some.inj hjoint
    have hhas : chain.tree.Has link.joint.form := has_of_mem hlink
    rw [← hjoint] at hhas ⊢
    exact ⟨rfl, rfl, hhas⟩

/-- `a - b * c && d IN e` looks for the conjunction of bits in the set, the difference is its left
operand, and the product is what is subtracted. -/
theorem Entry.expression_of_chain_of_mixed_levels :
    let operand (name : String) (offset : Nat) : Operand :=
      ⟨⟨.identifier, name, ⟨offset, offset + 1⟩⟩, ⟨.identifier name, .nil⟩, rfl⟩
    let minus : Link := ⟨⟨.symbol .minus, "-", ⟨2, 3⟩⟩, .binary .subtract, rfl, operand "b" 4⟩
    let star : Link := ⟨⟨.symbol .star, "*", ⟨6, 7⟩⟩, .binary .multiply, rfl, operand "c" 8⟩
    let ampersands : Link :=
      ⟨⟨.symbol .doubleAmpersand, "&&", ⟨10, 12⟩⟩, .binary .doubleAnd, rfl, operand "d" 13⟩
    let membership : Link := ⟨⟨.keyword .inKw, "IN", ⟨15, 17⟩⟩, .membership, rfl, operand "e" 18⟩
    let chain : Chain := ⟨operand "a" 0, [minus, star, ampersands, membership]⟩
    let product : Phrase .expression := .phrase (.binary .multiply) ⟨4, 9⟩
      (.one (operand "b" 4).phrase (.one (operand "c" 8).phrase .nil))
    let difference : Phrase .expression := .phrase (.binary .subtract) ⟨0, 9⟩
      (.one (operand "a" 0).phrase (.one product .nil))
    let bits : Phrase .expression := .phrase (.binary .doubleAnd) ⟨0, 14⟩
      (.one difference (.one (operand "d" 13).phrase .nil))
    let predicate : Phrase .expression := .phrase (.setPredicate false false) ⟨0, 19⟩
      (.one bits (.one (operand "e" 18).phrase .nil))
    10 ≤ 10 ∧ (Entry.expression.parse 10 chain.tokens).outcome = .ok predicate := by
  intro operand minus star ampersands membership chain product difference bits predicate
  have htree : chain.tree = predicate := by
    have hmembership : split chain.links = some ⟨[minus, star, ampersands], membership, []⟩ := rfl
    have hampersands : split [minus, star, ampersands] = some ⟨[minus, star], ampersands, []⟩ := rfl
    have hminus : split [minus, star] = some ⟨[], minus, [star]⟩ := rfl
    have hstar : split [star] = some ⟨[], star, []⟩ := rfl
    rw [Chain.tree, treeOf_of_split hmembership, treeOf_of_split hampersands,
      treeOf_of_split hminus, treeOf_of_split hstar]
    simp only [treeOf_nil]
    rfl
  exact ⟨Nat.le_refl _, htree ▸ (expression_of_chain chain (Nat.le_refl 10)).1⟩

end CorpusQuery
