/-!
The reserved words of the query language. A word is reserved without regard to letter case:
`ofWord?` puts a name into upper case, ASCII letters only, and looks it up among the spellings.
Words that Lean reserves as well carry the suffix `Kw`.
-/

set_option autoImplicit false
set_option relaxedAutoImplicit false

namespace CorpusQuery

/-- A reserved word. -/
inductive Keyword where
  | adjacent | all | and | asKw | asc | boolean | byKw | consecutive | count | default | desc
  | disjoint | distinct | doKw | double | edges | endKw | even | false | filter | find | first
  | float | foreach | fromKw | group | having | hits | inKw | int | label | lane | limit | long
  | not | null | odd | omit | onKw | optional | or | order | ordered | range | reverse | rooted
  | step | string | true | unordered | withKw
  deriving DecidableEq, Repr

namespace Keyword

/-- Every reserved word, in alphabetical order. -/
def values : List Keyword :=
  [.adjacent, .all, .and, .asKw, .asc, .boolean, .byKw, .consecutive, .count, .default, .desc,
    .disjoint, .distinct, .doKw, .double, .edges, .endKw, .even, .false, .filter, .find, .first,
    .float, .foreach, .fromKw, .group, .having, .hits, .inKw, .int, .label, .lane, .limit, .long,
    .not, .null, .odd, .omit, .onKw, .optional, .or, .order, .ordered, .range, .reverse, .rooted,
    .step, .string, .true, .unordered, .withKw]

/-- The word in the upper case in which it is listed and printed. -/
def spelling : Keyword → String
  | .adjacent => "ADJACENT"
  | .all => "ALL"
  | .and => "AND"
  | .asKw => "AS"
  | .asc => "ASC"
  | .boolean => "BOOLEAN"
  | .byKw => "BY"
  | .consecutive => "CONSECUTIVE"
  | .count => "COUNT"
  | .default => "DEFAULT"
  | .desc => "DESC"
  | .disjoint => "DISJOINT"
  | .distinct => "DISTINCT"
  | .doKw => "DO"
  | .double => "DOUBLE"
  | .edges => "EDGES"
  | .endKw => "END"
  | .even => "EVEN"
  | .false => "FALSE"
  | .filter => "FILTER"
  | .find => "FIND"
  | .first => "FIRST"
  | .float => "FLOAT"
  | .foreach => "FOREACH"
  | .fromKw => "FROM"
  | .group => "GROUP"
  | .having => "HAVING"
  | .hits => "HITS"
  | .inKw => "IN"
  | .int => "INT"
  | .label => "LABEL"
  | .lane => "LANE"
  | .limit => "LIMIT"
  | .long => "LONG"
  | .not => "NOT"
  | .null => "NULL"
  | .odd => "ODD"
  | .omit => "OMIT"
  | .onKw => "ON"
  | .optional => "OPTIONAL"
  | .or => "OR"
  | .order => "ORDER"
  | .ordered => "ORDERED"
  | .range => "RANGE"
  | .reverse => "REVERSE"
  | .rooted => "ROOTED"
  | .step => "STEP"
  | .string => "STRING"
  | .true => "TRUE"
  | .unordered => "UNORDERED"
  | .withKw => "WITH"

/-- The position of the word in alphabetical order. -/
def index (keyword : Keyword) : Nat := keyword.ctorIdx

/-- The word with a capital first letter and small ones after it. -/
def name (keyword : Keyword) : String :=
  match keyword.spelling.toList with
  | [] => ""
  | initial :: letters => String.ofList (initial :: letters.map Char.toLower)

/-- The reserved word with these characters, in whatever letter case they are. -/
def ofChars? (word : List Char) : Option Keyword :=
  values.find? fun keyword ↦ keyword.spelling.toList == word.map Char.toUpper

/-- The reserved word that a name stands for, if it is reserved. -/
def ofWord? (word : String) : Option Keyword := ofChars? word.toList

theorem mem_values (keyword : Keyword) : keyword ∈ values := by cases keyword <;> decide

end Keyword

end CorpusQuery
