import CorpusQuery.Grammar.Expression.Basic
import CorpusQuery.Proofs.Extent.Discipline
import CorpusQuery.Proofs.Precedence.Level

/-!
Chains of operators, and the trees that they stand for. A chain is an operand followed by links,
each of them an operator and another operand, and every operand is a single token. Its tree is given
without reading it from left to right: the chain is split at the rightmost operator of the least
level in it, and both sides are split in the same way (`Chain.tree`). `Chain.treeOf_of_loosest` says
of any links for which an operator is known to be that one. Which tokens are operators, and how
tightly they bind, is said here without the parser (`Joint.ofKind?`, `Joint.level`), which agrees.
-/

set_option autoImplicit false
set_option relaxedAutoImplicit false

namespace CorpusQuery

open CorpusQuery.Grammar

/-! ### Operands and operators -/

/-- What a token is as an expression on its own. -/
def Token.operand? (token : Token) : Option (Draft .expression) :=
  match token.kind with
  | .keyword .null => some ⟨.null, .nil⟩
  | .keyword .true => some ⟨.boolean true, .nil⟩
  | .keyword .false => some ⟨.boolean false, .nil⟩
  | .pureDigits | .digits => some ⟨.number (.integer token.text), .nil⟩
  | .stringLiteral => some ⟨.string token.text, .nil⟩
  | .variableName => some ⟨.variableName token.text, .nil⟩
  | .memberName => some ⟨.memberName token.text, .nil⟩
  | .identifier => some ⟨.identifier token.text, .nil⟩
  | _ => none

/-- What joins two operands of a chain: a binary operator, or a plain `IN`. -/
inductive Joint where
  | binary (operator : BinaryOperator)
  | membership
  deriving DecidableEq, Repr

namespace Joint

/-- The joint that a token stands for behind an operand, by the table of the language. -/
def ofKind? : Kind → Option Joint
  | .symbol .star => some (.binary .multiply)
  | .symbol .slash => some (.binary .divide)
  | .symbol .percent => some (.binary .modulo)
  | .symbol .plus => some (.binary .add)
  | .symbol .minus => some (.binary .subtract)
  | .symbol .ampersand => some (.binary .bitAnd)
  | .symbol .doubleAmpersand => some (.binary .doubleAnd)
  | .symbol .caret => some (.binary .bitXor)
  | .symbol .pipe => some (.binary .bitOr)
  | .symbol .shiftLeft => some (.binary .shiftLeft)
  | .symbol .shiftRight => some (.binary .shiftRight)
  | .symbol .less => some (.binary .less)
  | .symbol .lessEqual => some (.binary .lessOrEqual)
  | .symbol .greater => some (.binary .greater)
  | .symbol .greaterEqual => some (.binary .greaterOrEqual)
  | .symbol .matching => some (.binary .matching)
  | .symbol .notMatching => some (.binary .notMatching)
  | .symbol .containing => some (.binary .containing)
  | .symbol .notContaining => some (.binary .notContaining)
  | .symbol .doubleEqual => some (.binary .equal)
  | .symbol .notEqual => some (.binary .notEqual)
  | .keyword .and => some (.binary .and)
  | .keyword .or | .symbol .doublePipe => some (.binary .or)
  | .keyword .inKw => some .membership
  | _ => none

example : (Kind.values.filter fun kind ↦ (ofKind? kind).isSome).length = 25 := by decide

/-- How tightly a joint binds. -/
def level : Joint → Nat
  | .binary operator => operator.strength
  | .membership => 3

/-- How an expression goes on at the joint. -/
def continuation : Joint → Continuation
  | .binary operator => .binary operator
  | .membership => .setPredicate

/-- Two expressions joined, before their place is known. -/
def draft (left right : Phrase .expression) : Joint → Draft .expression
  | .binary operator => ⟨.binary operator, .one left (.one right .nil)⟩
  | .membership => ⟨.setPredicate false false, .one left (.one right .nil)⟩

/-- Two expressions joined. -/
def join (joint : Joint) (left right : Phrase .expression) : Phrase .expression :=
  .phrase (joint.draft left right).form ⟨left.span.start, right.span.stop⟩
    (joint.draft left right).parts

/-- The form of two expressions that are joined. -/
def form : Joint → Form .expression
  | .binary operator => .binary operator
  | .membership => .setPredicate false false

/-- A plain `IN` is the loosest joint; the others have the levels of the binary operators. -/
theorem level_range (joint : Joint) : joint.level = 3 ∨ (5 ≤ joint.level ∧ joint.level ≤ 12) := by
  cases joint with
  | membership => exact .inl rfl
  | binary operator => exact .inr (by cases operator <;> decide)

/-- The parser goes on at a joint at the level of the joint. -/
theorem level_continuation (joint : Joint) : joint.continuation.level = joint.level := by
  cases joint with
  | membership => rfl
  | binary operator => exact operator.level_eq_strength

/-- Only `IN` stands for membership. -/
theorem kind_of_membership {kind : Kind} (h : ofKind? kind = some .membership) :
    kind = .keyword .inKw := by
  unfold ofKind? at h
  split at h <;> cases h
  rfl

/-- The parser takes every other token of a joint for the operator that it stands for. -/
theorem binaryOperator?_of_binary {kind : Kind} {operator : BinaryOperator}
    (h : ofKind? kind = some (.binary operator)) : binaryOperator? kind = some operator := by
  unfold ofKind? at h
  split at h <;> cases h <;> rfl

end Joint

namespace Chain

/-- A token that is an expression on its own. -/
structure Operand where
  token : Token
  draft : Draft .expression
  operand?_eq : token.operand? = some draft

/-- The expression of an operand. It spans its token. -/
def Operand.phrase (operand : Operand) : Phrase .expression :=
  .phrase operand.draft.form operand.token.span operand.draft.parts

/-- An operator and the operand behind it. -/
structure Link where
  token : Token
  joint : Joint
  ofKind?_eq : Joint.ofKind? token.kind = some joint
  operand : Operand

/-- How tightly the operator of a link binds. -/
def Link.level (link : Link) : Nat := link.joint.level

/-- The tokens of some links. -/
def tokensOf (links : List Link) : List Token :=
  links.flatMap fun link ↦ [link.token, link.operand.token]

@[simp] theorem tokensOf_nil : tokensOf [] = [] := rfl

@[simp] theorem tokensOf_cons (link : Link) (links : List Link) :
    tokensOf (link :: links) = link.token :: link.operand.token :: tokensOf links := rfl

@[simp] theorem tokensOf_append (links others : List Link) :
    tokensOf (links ++ others) = tokensOf links ++ tokensOf others :=
  List.flatMap_append

theorem Operand.kind_ne (operand : Operand) : operand.token.kind ≠ .endOfInput := by
  obtain ⟨token, draft, hdraft⟩ := operand
  intro hkind
  unfold Token.operand? at hdraft
  rw [hkind] at hdraft
  cases hdraft

theorem Link.kind_ne (link : Link) : link.token.kind ≠ .endOfInput := by
  obtain ⟨token, joint, hjoint, operand⟩ := link
  intro hkind
  rw [hkind] at hjoint
  cases hjoint

theorem kind_ne_of_mem {links : List Link} {token : Token} (h : token ∈ tokensOf links) :
    token.kind ≠ .endOfInput := by
  obtain ⟨link, -, htoken⟩ := List.mem_flatMap.mp h
  rcases List.mem_pair.mp htoken with rfl | rfl
  · exact link.kind_ne
  · exact link.operand.kind_ne

/-! ### Splitting -/

/-- A link with those before it and those behind it. -/
structure Cut where
  before : List Link
  link : Link
  after : List Link

/-- Splits some links at the rightmost one of the least level. -/
def split : List Link → Option Cut
  | [] => none
  | link :: links =>
    match split links with
    | none => some ⟨[], link, []⟩
    | some cut =>
      if link.level < cut.link.level then some ⟨[], link, links⟩
      else some { cut with before := link :: cut.before }

/-- The link of a cut is the rightmost one of the least level. -/
structure Cut.Loosest (cut : Cut) : Prop where
  before : ∀ link ∈ cut.before, cut.link.level ≤ link.level
  after : ∀ link ∈ cut.after, cut.link.level < link.level

theorem split_ne_none (link : Link) (links : List Link) : split (link :: links) ≠ none := by
  rw [split]
  split
  · nofun
  · split <;> nofun

theorem of_split {links : List Link} {cut : Cut} (h : split links = some cut) :
    links = cut.before ++ cut.link :: cut.after ∧ cut.Loosest := by
  induction links generalizing cut with
  | nil => cases h
  | cons link links ih =>
    rw [split] at h
    cases hsplit : split links with
    | none =>
      rw [hsplit] at h
      cases h
      cases links with
      | nil => exact ⟨rfl, List.forall_mem_nil _, List.forall_mem_nil _⟩
      | cons next others => exact absurd hsplit (split_ne_none next others)
    | some inner =>
      obtain ⟨hlinks, hloosest⟩ := ih hsplit
      rw [hsplit] at h
      by_cases hlt : link.level < inner.link.level
      · simp only [if_pos hlt, Option.some.injEq] at h
        subst h
        refine ⟨rfl, List.forall_mem_nil _, ?_⟩
        -- All the others bind at least as tightly as the loosest of them.
        rw [hlinks]
        refine List.forall_mem_append.mpr ⟨fun other hother ↦ ?_,
          List.forall_mem_cons.mpr ⟨hlt, fun other hother ↦ ?_⟩⟩
        · exact hlt.trans_le (hloosest.before other hother)
        · exact hlt.trans (hloosest.after other hother)
      · simp only [if_neg hlt, Option.some.injEq] at h
        subst h
        exact ⟨congrArg (link :: ·) hlinks,
          List.forall_mem_cons.mpr ⟨Nat.le_of_not_lt hlt, hloosest.before⟩, hloosest.after⟩

/-- Links can be split in only one way. -/
theorem split_of_loosest {before after : List Link} {link : Link}
    (h : Cut.Loosest ⟨before, link, after⟩) :
    split (before ++ link :: after) = some ⟨before, link, after⟩ := by
  obtain ⟨hbefore, hafter⟩ := h
  dsimp only at hbefore hafter
  induction before with
  | nil =>
    rw [List.nil_append, split]
    cases hsplit : split after with
    | none =>
      cases after with
      | nil => rfl
      | cons next others => exact absurd hsplit (split_ne_none next others)
    | some inner =>
      have hmem : inner.link ∈ after := (of_split hsplit).1 ▸
        List.mem_append_right _ List.mem_cons_self
      exact if_pos (hafter _ hmem)
  | cons first before ih =>
    obtain ⟨hfirst, hbefore⟩ := List.forall_mem_cons.mp hbefore
    rw [List.cons_append, split, ih hbefore]
    exact if_neg (Nat.not_lt.mpr hfirst)

/-! ### Trees -/

/-- The tree of an operand and some links behind it: what is split off on either side of the
rightmost operator of the least level, joined by that operator. -/
def treeOf (first : Operand) (links : List Link) : Phrase .expression :=
  match _h : split links with
  | none => first.phrase
  | some ⟨before, link, after⟩ => link.joint.join (treeOf first before) (treeOf link.operand after)
termination_by links.length
decreasing_by
  all_goals
    have hlinks := (of_split ‹split links = _›).1
    simp only [hlinks, List.length_append, List.length_cons]
    omega

theorem treeOf_nil (first : Operand) : treeOf first [] = first.phrase := by
  rw [treeOf]
  rfl

theorem treeOf_of_split {first : Operand} {links : List Link} {cut : Cut}
    (h : split links = some cut) : treeOf first links =
      cut.link.joint.join (treeOf first cut.before) (treeOf cut.link.operand cut.after) := by
  rw [treeOf]
  split
  · rename_i hnone
    cases h.symm.trans hnone
  · rename_i before link after hsome
    cases h.symm.trans hsome
    rfl

/-- The tree of some links of which one is known to be the rightmost one of the least level. -/
theorem treeOf_of_loosest (first : Operand) {before after : List Link} {link : Link}
    (h : Cut.Loosest ⟨before, link, after⟩) :
    treeOf first (before ++ link :: after) =
      link.joint.join (treeOf first before) (treeOf link.operand after) :=
  treeOf_of_split (split_of_loosest h)

end Chain

/-- An operand and the links behind it. -/
structure Chain where
  first : Chain.Operand
  links : List Chain.Link

namespace Chain

/-- The tokens of a chain. -/
def tokens (chain : Chain) : List Token := chain.first.token :: tokensOf chain.links

/-- The tree that a chain stands for. -/
def tree (chain : Chain) : Phrase .expression := treeOf chain.first chain.links

theorem kind_ne_of_mem_tokens (chain : Chain) :
    ∀ token ∈ chain.tokens, token.kind ≠ .endOfInput :=
  List.forall_mem_cons.mpr ⟨chain.first.kind_ne, fun _ ↦ kind_ne_of_mem⟩

end Chain

/-! ### What is in a tree -/

/-- Some phrase of an expression is of a form. -/
def Phrase.Has (expression : Phrase .expression) (form : Form .expression) : Prop :=
  ∃ phrase : Phrase .expression, ⟨_, phrase⟩ ∈ expression.phrases ∧ phrase.form = form

namespace Joint

theorem has_join (joint : Joint) (left right : Phrase .expression) :
    (joint.join left right).Has joint.form := by
  cases joint <;> exact ⟨_, List.mem_cons_self, rfl⟩

theorem has_join_left (joint : Joint) {left : Phrase .expression} (right : Phrase .expression)
    {form : Form .expression} (h : left.Has form) : (joint.join left right).Has form := by
  obtain ⟨phrase, hphrase, hform⟩ := h
  cases joint <;>
    exact ⟨phrase, List.mem_cons_of_mem _ (List.mem_append_left _ hphrase), hform⟩

theorem has_join_right (joint : Joint) (left : Phrase .expression) {right : Phrase .expression}
    {form : Form .expression} (h : right.Has form) : (joint.join left right).Has form := by
  obtain ⟨phrase, hphrase, hform⟩ := h
  cases joint <;>
    exact ⟨phrase,
      List.mem_cons_of_mem _ (List.mem_append_right _ (List.mem_append_left _ hphrase)), hform⟩

end Joint

/-- Every operator of a chain is in its tree. -/
theorem Chain.has_of_mem {first : Operand} {links : List Link} {link : Link} (h : link ∈ links) :
    (treeOf first links).Has link.joint.form := by
  induction hlength : links.length using Nat.strongRecOn generalizing first links with
  | ind length ih =>
  cases hsplit : split links with
  | none =>
    cases links with
    | nil => cases h
    | cons next others => exact absurd hsplit (split_ne_none next others)
  | some cut =>
    obtain ⟨hlinks, -⟩ := of_split hsplit
    have hsum : cut.before.length + (cut.after.length + 1) = length := by
      rw [← hlength, hlinks, List.length_append, List.length_cons]
    rw [treeOf_of_split hsplit]
    rw [hlinks] at h
    rcases List.mem_append.mp h with hbefore | hrest
    · exact Joint.has_join_left _ _ (ih _ (by omega) hbefore rfl)
    rcases List.mem_cons.mp hrest with rfl | hafter
    · exact Joint.has_join _ _ _
    · exact Joint.has_join_right _ _ (ih _ (by omega) hafter rfl)

end CorpusQuery
