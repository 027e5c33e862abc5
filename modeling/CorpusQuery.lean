import CorpusQuery.Phrase.Outline
import CorpusQuery.Proofs.Acceptance.Expected
import CorpusQuery.Proofs.Choice.Agreement
import CorpusQuery.Proofs.Choice.Speculation
import CorpusQuery.Proofs.Choice.Target
import CorpusQuery.Proofs.Coupling.Horizon
import CorpusQuery.Proofs.Coupling.Layout
import CorpusQuery.Proofs.Diagnosis.Furthest
import CorpusQuery.Proofs.Diagnosis.Report
import CorpusQuery.Proofs.Extent.Discipline
import CorpusQuery.Proofs.Lexicon.Escape
import CorpusQuery.Proofs.Lexicon.Longest
import CorpusQuery.Proofs.Lexicon.OpenString
import CorpusQuery.Proofs.Lexicon.Trivia
import CorpusQuery.Proofs.Negation.Interchange
import CorpusQuery.Proofs.Nesting.Bracket
import CorpusQuery.Proofs.Precedence.Climbing
import CorpusQuery.Proofs.Precedence.Grammar
import CorpusQuery.Proofs.Sameness.Move
import CorpusQuery.Proofs.Shape.Grammar
import CorpusQuery.Proofs.Spelling.RoundTrip
import CorpusQuery.Proofs.Standalone.Subexpression
import CorpusQuery.Proofs.Walk.Operation
import CorpusQuery.Proofs.Walk.Tape
import CorpusQuery.Proofs.Vocabulary.Start
