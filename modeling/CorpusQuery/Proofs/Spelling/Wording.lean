import Mathlib.Data.List.Chain
import CorpusQuery.Phrase.Basic
import CorpusQuery.Token.Basic

/-!
How a tree is spelled. Walking a tree and writing out what the grammar puts around the parts of each
phrase gives a list of wordings (`Phrase.wordings`). Most wordings are one token. A few are several
tokens that touch each other: a number with a point, an end of an edge, and an argument of a marker
with its sign. The only choice is between synonyms, and a plus before an argument that is not
negative may be written or left out. `Spells` says that tokens are one of the spellings of a list of
wordings, and `Phrase.print` is the text of the usual spelling, one blank between two wordings.
-/

set_option autoImplicit false
set_option relaxedAutoImplicit false

namespace CorpusQuery

/-! ### Lexemes -/

/-- The kinds whose tokens carry a text of their own. -/
def Kind.hasText : Kind → Bool
  | .pureDigits | .digits | .stringLiteral | .identifier | .variableName | .memberName => true
  | _ => false

/-- What a token says: its kind, and its text if the kind has texts. -/
structure Lexeme where
  kind : Kind
  text : String
  deriving DecidableEq, Repr

def Token.lexeme (token : Token) : Lexeme :=
  ⟨token.kind, if token.kind.hasText then token.text else ""⟩

namespace Lexeme

/-- A token that is all kind. -/
def mark (kind : Kind) : Lexeme := ⟨kind, ""⟩

/-- Digits, which are pure unless they are separated. -/
def digits (text : List Char) : Lexeme :=
  ⟨if text.contains '_' then .digits else .pureDigits, String.ofList text⟩

/-- How a character of a string is written between quotes. -/
def escape (c : Char) : List Char :=
  if c = '"' then ['\\', '"']
  else if c = '\\' then ['\\', '\\']
  else if c = '\n' then ['\\', 'n']
  else [c]

/-- The characters with which a lexeme is written. -/
def chars (lexeme : Lexeme) : List Char :=
  match lexeme.kind with
  | .keyword word => word.spelling.toList
  | .symbol mark => mark.chars
  | .variableName => '@' :: lexeme.text.toList
  | .memberName => '$' :: lexeme.text.toList
  | .stringLiteral => '"' :: lexeme.text.toList.flatMap escape ++ ['"']
  | .endOfInput => []
  | .pureDigits | .digits | .identifier => lexeme.text.toList

end Lexeme

namespace Numeral

/-- The lexemes of a number without a sign. -/
def lexemes : Numeral → List Lexeme
  | .integer text => [.digits text.toList]
  | .decimal text =>
    [.digits (text.toList.takeWhile (· != '.')), .mark (.symbol .dot),
      .digits (text.toList.dropWhile (· != '.')).tail]

def isNegative (numeral : Numeral) : Bool := numeral.text.toList.head? == some '-'

/-- The number behind the sign of a negative one. -/
def unsigned (numeral : Numeral) : Numeral :=
  numeral.map fun text ↦ String.ofList text.toList.tail

end Numeral

/-! ### Wordings -/

/-- Pairs of tokens that say the same. -/
inductive Synonym where
  | negation
  | universal
  | disjunction
  | conjunction
  deriving DecidableEq, Repr

namespace Synonym

/-- The word, which is the usual one of the two. -/
def usual : Synonym → Kind
  | .negation => .keyword .not
  | .universal => .keyword .all
  | .disjunction => .keyword .or
  | .conjunction => .keyword .and

/-- The symbol. -/
def other : Synonym → Kind
  | .negation => .symbol .bang
  | .universal => .symbol .star
  | .disjunction => .symbol .doublePipe
  | .conjunction => .symbol .doubleAmpersand

end Synonym

/-- A unit of writing. The tokens of a wording touch each other. -/
inductive Wording where
  /-- One token. -/
  | lexeme (kind : Kind) (text : String)
  /-- Either of two tokens that say the same. -/
  | choice (synonym : Synonym)
  /-- The two symbols of an end of an edge. -/
  | pair (first second : Symbol)
  /-- A number without a sign. -/
  | number (numeral : Numeral)
  /-- A number with the sign that belongs to it, which may be a plus. -/
  | argument (numeral : Numeral)
  deriving DecidableEq, Repr

namespace Wording

def word (keyword : Keyword) : Wording := .lexeme (.keyword keyword) ""

def sign (symbol : Symbol) : Wording := .lexeme (.symbol symbol) ""

/-- The tokens that a wording usually is. -/
def usual : Wording → List Lexeme
  | .lexeme kind text => [⟨kind, text⟩]
  | .choice synonym => [.mark synonym.usual]
  | .pair first second => [.mark (.symbol first), .mark (.symbol second)]
  | .number numeral => numeral.lexemes
  | .argument numeral =>
    if numeral.isNegative then .mark (.symbol .minus) :: numeral.unsigned.lexemes
    else numeral.lexemes

/-- The ways to write a wording. -/
def ways (wording : Wording) : List (List Lexeme) :=
  match wording with
  | .choice synonym => [wording.usual, [.mark synonym.other]]
  | .argument numeral =>
    if numeral.isNegative then [wording.usual]
    else [wording.usual, .mark (.symbol .plus) :: numeral.lexemes]
  | _ => [wording.usual]

/-- The characters of the usual way. -/
def chars (wording : Wording) : List Char := wording.usual.flatMap Lexeme.chars

/-- Wordings with separators between them. -/
def separated (separator : Wording) : List Wording → List Wording
  | [] => []
  | first :: rest => first :: rest.flatMap fun wording ↦ [separator, wording]

end Wording

/-- Whether a token starts where another one ends. -/
def Token.Touches (token next : Token) : Prop := token.span.stop = next.span.start

/-- Tokens that are the given lexemes, one behind the other without gaps. -/
def Written (lexemes : List Lexeme) (tokens : List Token) : Prop :=
  tokens.map Token.lexeme = lexemes ∧ tokens.IsChain Token.Touches

/-- Tokens that write wordings, each in one of its ways. -/
inductive Spells : List Wording → List Token → Prop
  | nil : Spells [] []
  | cons {wording : Wording} {wordings : List Wording} {way : List Lexeme}
      {chunk tokens : List Token} (hway : way ∈ wording.ways) (hchunk : Written way chunk)
      (h : Spells wordings tokens) : Spells (wording :: wordings) (chunk ++ tokens)

/-! ### Layouts -/

/-- What stands around the parts of one slot. -/
structure Frame where
  /-- Before the first part, if there is one. -/
  lead : List Wording := []
  /-- Between two parts. -/
  separator : List Wording := []
  /-- Behind the last part, if there is one. -/
  trail : List Wording := []
  /-- Behind the slot, whether it has parts or not. -/
  ending : List Wording := []
  deriving DecidableEq, Repr

/-- The frame of the parts behind the first one. -/
def Frame.next (frame : Frame) : Frame where
  lead := frame.separator
  separator := frame.separator
  ending := frame.trail ++ frame.ending

/-- What stands in a phrase besides its parts: the wordings it opens with, and a frame for each of
its slots. -/
structure Layout where
  opening : List Wording
  frames : List Frame := []
  deriving DecidableEq, Repr

open Wording

/-! ### The words of attributes -/

def ValueType.keyword : ValueType → Keyword
  | .boolean => .boolean
  | .string => .string
  | .int => .int
  | .long => .long
  | .float => .float
  | .double => .double

def UnaryOperator.wording : UnaryOperator → Wording
  | .not => .choice .negation
  | .minus => sign .minus
  | .complement => sign .tilde

def BinaryOperator.wording : BinaryOperator → Wording
  | .multiply => sign .star
  | .divide => sign .slash
  | .modulo => sign .percent
  | .add => sign .plus
  | .subtract => sign .minus
  | .bitAnd => sign .ampersand
  | .doubleAnd => sign .doubleAmpersand
  | .bitXor => sign .caret
  | .bitOr => sign .pipe
  | .shiftLeft => sign .shiftLeft
  | .shiftRight => sign .shiftRight
  | .less => sign .less
  | .lessOrEqual => sign .lessEqual
  | .greater => sign .greater
  | .greaterOrEqual => sign .greaterEqual
  | .matching => sign .matching
  | .notMatching => sign .notMatching
  | .containing => sign .containing
  | .notContaining => sign .notContaining
  | .equal => sign .doubleEqual
  | .notEqual => sign .notEqual
  | .and => word .and
  | .or => .choice .disjunction

def Target.wording : Target → Wording
  | .variableName name => .lexeme .variableName name
  | .memberName name => .lexeme .memberName name

def Parity.wording : Parity → Wording
  | .even => word .even
  | .odd => word .odd

def MatchFlag.wording : MatchFlag → Wording
  | .disjoint => word .disjoint
  | .consecutive => word .consecutive
  | .reverse => word .reverse
  | .rooted => word .rooted

def Arrangement.wording : Arrangement → Wording
  | .unordered => word .unordered
  | .ordered => word .ordered
  | .adjacent => word .adjacent

def Cardinality.wording : Cardinality → Wording
  | .optional => sign .question
  | .oneOrMore => sign .plus
  | .zeroOrMore => sign .star

/-- An end of an edge, for which two symbols are given that show its direction. -/
def EdgeEnd.wording (head tail : Symbol) : EdgeEnd → Wording
  | .directed => .pair head tail
  | .undirected => .pair .minus .minus

/-- The glyph of an edge without a constraint. -/
def EdgeEnd.glyph : EdgeEnd → EdgeEnd → Symbol
  | .directed, .undirected => .edgeLeft
  | .undirected, .directed => .edgeRight
  | .directed, .directed => .edgeBidirectional
  | .undirected, .undirected => .edgeUndirected

/-- The suffix of a quantifier, where the given symbol makes it possessive. -/
def Greed.wordings (possessive : Symbol) : Greed → List Wording
  | .greedy => []
  | .reluctant => [sign .question]
  | .possessive => [sign possessive]

def Bound.wording : Bound → Wording
  | .atLeast => sign .plus
  | .atMost => sign .minus

def BindingModifier.wording : BindingModifier → Wording
  | .distinct => word .distinct
  | .edges => word .edges

def Direction.wording : Direction → Wording
  | .ascending => word .asc
  | .descending => word .desc

/-- A wording that is there or not. -/
def Wording.when (condition : Bool) (wording : Wording) : List Wording :=
  if condition then [wording] else []

/-- The label of a node or an edge. -/
def Wording.label (label : Option String) : List Wording :=
  label.elim [] fun name ↦ [.lexeme .memberName name, sign .colon]

/-- The arguments of a marker in parentheses, which are left out if there are none. -/
def Wording.arguments (arguments : List Numeral) : List Wording :=
  if arguments.isEmpty then []
  else sign .leftParen :: separated (sign .comma) (arguments.map .argument) ++ [sign .rightParen]

/-! ### The layouts of forms -/

/-- The production of a form. -/
def Form.layout : {category : Category} → Form category → Layout
  | _, .null => ⟨[word .null], []⟩
  | _, .boolean value => ⟨[word (if value then .true else .false)], []⟩
  | _, .number numeral => ⟨[.number numeral], []⟩
  | _, .string contents => ⟨[.lexeme .stringLiteral contents], []⟩
  | _, .variableName name => ⟨[.lexeme .variableName name], []⟩
  | _, .memberName name => ⟨[.lexeme .memberName name], []⟩
  | _, .identifier name => ⟨[.lexeme .identifier name], []⟩
  | _, .qualified space name =>
    ⟨[.lexeme .identifier space, sign .doubleColon, .lexeme .identifier name], []⟩
  | _, .list elements =>
    ⟨elements.elim [] (fun type ↦ [word type.keyword, sign .leftBracket, sign .rightBracket]) ++
      [sign .leftBrace], [{ separator := [sign .comma], ending := [sign .rightBrace] }]⟩
  | _, .cast type => ⟨[sign .leftParen, word type.keyword, sign .rightParen], [{}]⟩
  | _, .wrapping => ⟨[sign .leftParen], [{ ending := [sign .rightParen] }]⟩
  | _, .unary operator => ⟨[operator.wording], [{}]⟩
  | _, .forEach => ⟨[], [{}]⟩
  | _, .binary operator => ⟨[], [{ ending := [operator.wording] }, {}]⟩
  | _, .setPredicate all negated =>
    ⟨[], [{ ending := Wording.when all (.choice .universal) ++
      Wording.when negated (.choice .negation) ++ [word .inKw] }, {}]⟩
  | _, .ternary => ⟨[], [{ ending := [sign .question] }, { ending := [sign .colon] }, {}]⟩
  | _, .path name => ⟨[], [{ ending := [sign .dot, .lexeme .identifier name] }]⟩
  | _, .call =>
    ⟨[], [{ ending := [sign .leftParen] },
      { separator := [sign .comma], ending := [sign .rightParen] }]⟩
  | _, .listAccess =>
    ⟨[], [{ ending := [sign .leftBracket] },
      { separator := [sign .comma], ending := [sign .rightBracket] }]⟩
  | _, .annotationAccess =>
    ⟨[], [{ ending := [sign .leftBrace] },
      { separator := [sign .comma], ending := [sign .rightBrace] }]⟩
  | _, .assignment optional target =>
    ⟨[], [{ ending := word .asKw :: Wording.when optional (word .optional) ++ [target.wording] }]⟩
  | _, .loop name =>
    ⟨[word .foreach], [{ ending := [word .asKw, .lexeme .variableName name] }, {},
      { lead := [word .count], separator := [sign .comma] }]⟩
  | _, .loopControl parity =>
    ⟨parity.toList.map Parity.wording,
      [{ lead := [word .omit] }, { lead := [word .range] }, { lead := [word .step] },
        { lead := [word .doKw], ending := [word .endKw] }]⟩
  | _, .boundedRange =>
    ⟨[sign .leftParen], [{ ending := [sign .comma] }, { ending := [sign .rightParen] }]⟩
  | _, .counter name => ⟨[], [{ ending := [word .asKw, .lexeme .variableName name] }]⟩
  | _, .structuralConstraint flags =>
    ⟨[], [{ ending := flags.map MatchFlag.wording }, {}]⟩
  | _, .hits limit => ⟨[.lexeme .pureDigits limit, word .hits], []⟩
  | _, .firstHit => ⟨[word .first], []⟩
  | _, .grouping => ⟨[], [{ ending := [sign .leftBrace] }, { ending := [sign .rightBrace] }]⟩
  | _, .sequence arrangements => ⟨arrangements.map Arrangement.wording, [{}]⟩
  | _, .singleNode => ⟨[], [{}]⟩
  | _, .graphFragment => ⟨[], [{ separator := [sign .comma] }]⟩
  | _, .nodeDisjunction => ⟨[], [{ ending := [.choice .disjunction] }, {}]⟩
  | _, .dummyNode cardinality =>
    ⟨[sign .leftBracket, cardinality.wording, sign .rightBracket], []⟩
  | _, .properNode label =>
    ⟨[], [{ ending := sign .leftBracket :: Wording.label label }, { trail := [sign .comma] }, {},
      { ending := [sign .rightBracket] }]⟩
  | _, .content => ⟨[], [{}]⟩
  | _, .connection => ⟨[], [{}, {}, {}]⟩
  | _, .emptyEdge left right => ⟨[sign (left.glyph right)], []⟩
  | _, .filledEdge left right label =>
    ⟨[left.wording .less .minus, sign .leftBracket] ++ Wording.label label,
      [{ ending := [sign .rightBracket, right.wording .minus .greater] }]⟩
  | _, .markerCall name arguments =>
    ⟨.lexeme .identifier name :: Wording.arguments arguments, []⟩
  | _, .markerWrapping => ⟨[sign .leftParen], [{ ending := [sign .rightParen] }]⟩
  | _, .markerConjunction => ⟨[], [{ ending := [.choice .conjunction] }, {}]⟩
  | _, .markerDisjunction => ⟨[], [{ ending := [.choice .disjunction] }, {}]⟩
  | _, .quantifier bounded =>
    ⟨Wording.when bounded (sign .less),
      [{ separator := [sign .pipe], ending := Wording.when bounded (sign .greater) }]⟩
  | _, .noneOf => ⟨[.choice .negation], []⟩
  | _, .allOf greed => ⟨.choice .universal :: greed.wordings .plus, []⟩
  | _, .count value bound greed discontinuous =>
    ⟨.lexeme .pureDigits value :: bound.toList.map Bound.wording ++ greed.wordings .bang ++
      Wording.when discontinuous (sign .caret), []⟩
  | _, .countRange low high greed discontinuous =>
    ⟨[.lexeme .pureDigits low, sign .doubleDot, .lexeme .pureDigits high] ++
      greed.wordings .bang ++ Wording.when discontinuous (sign .caret), []⟩
  | _, .everything => ⟨[word .all], []⟩
  | _, .query =>
    ⟨[], [{ lead := [word .withKw], separator := [word .and] },
      { lead := [word .filter, word .byKw], ending := [word .find] }, {}]⟩
  | _, .binding modifier members source =>
    ⟨modifier.toList.map BindingModifier.wording ++
      separated (sign .comma) (members.map (.lexeme .memberName)) ++
        [word .fromKw, .lexeme .identifier source], []⟩
  | _, .plainSelection => ⟨[], [{}]⟩
  | _, .structuralSelection => ⟨[], [{}, { lead := [word .having] }]⟩
  | _, .laneSelection => ⟨[], [{ separator := [word .and] }, { lead := [word .having] }]⟩
  | _, .lane name label =>
    ⟨[word .lane, .lexeme .identifier name] ++
      label.elim [] (fun member ↦ [word .asKw, .lexeme .memberName member]), [{}]⟩
  | _, .group => ⟨[word .group], [{ separator := [sign .comma] }]⟩
  | _, .groupExpression label =>
    ⟨[word .byKw],
      [{},
        { lead := [word .filter, word .onKw]
          ending := [word .label, .lexeme .stringLiteral label] },
        { lead := [word .default] }]⟩
  | _, .result => ⟨[], [{}, { lead := [word .order, word .byKw], separator := [sign .comma] }]⟩
  | _, .resultLimit first value =>
    ⟨word .limit :: Wording.when first (word .first) ++ [.number (.integer value)], []⟩
  | _, .orderExpression direction => ⟨[], [{ ending := [direction.wording] }]⟩

namespace Tree

/-- The wordings of a tree. The frames are those of the slots of a list of parts; a phrase brings
its own. -/
def write : {role : Role} → Tree role → List Frame → List Wording
  | _, .phrase form _ parts, _ => form.layout.opening ++ parts.write form.layout.frames
  | _, .nil, _ => []
  | _, .one part rest, frames =>
    let frame := frames.headD {}
    frame.lead ++ part.write [] ++ frame.trail ++ frame.ending ++ rest.write frames.tail
  | _, .absent rest, frames => (frames.headD {}).ending ++ rest.write frames.tail
  | _, .present part rest, frames =>
    let frame := frames.headD {}
    frame.lead ++ part.write [] ++ frame.trail ++ frame.ending ++ rest.write frames.tail
  | _, .done rest, frames => (frames.headD {}).ending ++ rest.write frames.tail
  | _, .more part rest, frames =>
    let frame := frames.headD {}
    frame.lead ++ part.write [] ++ rest.write (frame.next :: frames.tail)

end Tree

namespace Phrase

variable {category : Category}

/-- The wordings of a phrase. -/
def wordings (phrase : Phrase category) : List Wording := phrase.write []

/-- The text of the usual spelling of a phrase. -/
def print (phrase : Phrase category) : String :=
  String.ofList ([' '].intercalate (phrase.wordings.map Wording.chars))

end Phrase

/-! ### Filled slots -/

/-- Values with separators between them. -/
def listed {α : Type} (separator : List Wording) (wordings : α → List Wording) :
    List α → List Wording
  | [] => []
  | first :: others => wordings first ++ others.flatMap fun value ↦ separator ++ wordings value

/-- Values with separators between them and a lead before the first one, if there is one. -/
def led {α : Type} (lead separator : List Wording) (wordings : α → List Wording)
    (values : List α) : List Wording :=
  if values.isEmpty then [] else lead ++ listed separator wordings values

theorem listed_nil {α : Type} (wordings : α → List Wording) (values : List α) :
    listed [] wordings values = values.flatMap wordings := by
  cases values <;> rfl

theorem Wording.separated_map {α : Type} (separator : Wording) (wording : α → Wording)
    (values : List α) :
    separated separator (values.map wording) = listed [separator] (fun value ↦ [wording value])
      values := by
  cases values with
  | nil => rfl
  | cons first others => simp [separated, listed, List.flatMap_map]

namespace Tree

variable {field : String} {category : Category} {slots : List Slot}

@[simp] theorem bare_optional (part? : Option (Phrase category)) (rest : Parts slots) :
    (optional part? rest : Parts (.optional field category :: slots)).bare =
      optional (part?.map bare) rest.bare := by
  cases part? <;> rfl

@[simp] theorem bare_many (parts : List (Phrase category)) (rest : Parts slots) :
    (many parts rest : Parts (.many field category :: slots)).bare =
      many (parts.map bare) rest.bare := by
  induction parts with
  | nil => rfl
  | cons part parts ih => exact congrArg (more part.bare) ih

@[simp] theorem write_phrase (phrase : Phrase category) (frames : List Frame) :
    phrase.write frames = phrase.wordings := by
  cases phrase
  rfl

@[simp] theorem write_nil (frames : List Frame) : nil.write frames = [] := rfl

@[simp] theorem write_one (part : Phrase category) (rest : Parts slots) (frame : Frame)
    (frames : List Frame) :
    (one part rest : Parts (.one field category :: slots)).write (frame :: frames) =
      frame.lead ++ part.wordings ++ frame.trail ++ frame.ending ++ rest.write frames := rfl

@[simp] theorem write_optional (part? : Option (Phrase category)) (rest : Parts slots)
    (frame : Frame) (frames : List Frame) :
    (optional part? rest : Parts (.optional field category :: slots)).write (frame :: frames) =
      part?.elim [] (fun part ↦ frame.lead ++ part.wordings ++ frame.trail) ++ frame.ending ++
        rest.write frames := by
  cases part? <;> rfl

@[simp] theorem write_many_nil (rest : Parts slots) (frame : Frame) (frames : List Frame) :
    (many [] rest : Parts (.many field category :: slots)).write (frame :: frames) =
      frame.ending ++ rest.write frames := rfl

theorem write_many_next (parts : List (Phrase category)) (rest : Parts slots) (frame : Frame)
    (frames : List Frame) :
    (many parts rest : Parts (.many field category :: slots)).write (frame.next :: frames) =
      parts.flatMap (fun part ↦ frame.separator ++ part.wordings) ++ frame.trail ++ frame.ending ++
        rest.write frames := by
  induction parts with
  | nil => rfl
  | cons part parts ih =>
    calc frame.next.lead ++ part.wordings ++
          (many parts rest : Parts (.many field category :: slots)).write
            (frame.next.next :: frames)
      _ = frame.separator ++ part.wordings ++
          (parts.flatMap (fun part ↦ frame.separator ++ part.wordings) ++ frame.trail ++
            frame.ending ++ rest.write frames) := congrArg _ ih
      _ = _ := by simp only [List.flatMap_cons, List.append_assoc]

@[simp] theorem write_many_cons (first : Phrase category) (others : List (Phrase category))
    (rest : Parts slots) (frame : Frame) (frames : List Frame) :
    (many (first :: others) rest : Parts (.many field category :: slots)).write (frame :: frames) =
      frame.lead ++ listed frame.separator Phrase.wordings (first :: others) ++ frame.trail ++
        frame.ending ++ rest.write frames := by
  calc frame.lead ++ first.wordings ++
        (many others rest : Parts (.many field category :: slots)).write (frame.next :: frames)
    _ = _ := by
      rw [write_many_next]
      simp only [listed, List.append_assoc]

@[simp] theorem write_many (parts : List (Phrase category)) (rest : Parts slots)
    (separator ending : List Wording) (frames : List Frame) :
    (many parts rest : Parts (.many field category :: slots)).write
        (⟨[], separator, [], ending⟩ :: frames) =
      listed separator Phrase.wordings parts ++ ending ++ rest.write frames := by
  cases parts with
  | nil => rfl
  | cons first others => rw [write_many_cons, List.append_nil, List.nil_append]

theorem write_many_led (parts : List (Phrase category)) (rest : Parts slots)
    (lead separator ending : List Wording) (frames : List Frame) :
    (many parts rest : Parts (.many field category :: slots)).write
        (⟨lead, separator, [], ending⟩ :: frames) =
      led lead separator Phrase.wordings parts ++ ending ++ rest.write frames := by
  cases parts with
  | nil => rfl
  | cons first others => rw [write_many_cons, List.append_nil, led, List.isEmpty_cons, if_neg nofun]

end Tree

end CorpusQuery
