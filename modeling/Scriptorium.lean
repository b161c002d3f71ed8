import Scriptorium.Main
import Scriptorium.Tree.Walk
import Scriptorium.Proofs.Grammar
import Scriptorium.Proofs.Parsing.Feed
import Scriptorium.Proofs.Parsing.Soundness
import Scriptorium.Proofs.Parsing.Completeness
import Scriptorium.Proofs.Lexing.Scan
import Scriptorium.Proofs.Parsing.Program
import Scriptorium.Proofs.Parsing.Readers
import Scriptorium.Proofs.Lexing.Symbols
import Scriptorium.Proofs.Lexing.Layout
import Scriptorium.Proofs.Lexing.Seam
import Scriptorium.Proofs.Printing.Writing
import Scriptorium.Proofs.Printing.Legible
import Scriptorium.Proofs.Printing.Spelled
import Scriptorium.Proofs.Printing.RoundTrip
import Scriptorium.Proofs.Evaluation.Invariant
import Scriptorium.Proofs.Evaluation.Safe
import Scriptorium.Proofs.Evaluation.Program
import Scriptorium.Proofs.Parsing.Trees
import Scriptorium.Proofs.Parsing.Errors
import Scriptorium.Proofs.Evaluation.Session
import Scriptorium.Proofs.Evaluation.Echo
import Scriptorium.Proofs.Evaluation.Visits
import Scriptorium.Proofs.Evaluation.Limit
import Scriptorium.Proofs.Evaluation.Parallel
import Scriptorium.Proofs.Parsing.Parallel
import Scriptorium.Proofs.Relayout
import Scriptorium.Proofs.Entries
import Scriptorium.Proofs.Values.Links
import Scriptorium.Proofs.Evaluation.Upkeep
import Scriptorium.Proofs.Scopes
import Scriptorium.Proofs.Evaluation.Constants
import Scriptorium.Proofs.Evaluation.Confined
import Scriptorium.Proofs.Values.Depiction
import Scriptorium.Proofs.Numbers.Rounding
import Scriptorium.Proofs.Numbers.Whole
import Scriptorium.Proofs.Numbers.Decimals
import Scriptorium.Proofs.Printing.Neat
import Scriptorium.Proofs.Printing.Documents
import Scriptorium.Proofs.Printing.Dumps
import Scriptorium.Proofs.Values.Data
import Scriptorium.Proofs.Values.Reading
import Scriptorium.Proofs.Lexing.Cuts
import Scriptorium.Proofs.Parsing.Prompt
import Scriptorium.Proofs.Parsing.Spans
import Scriptorium.Proofs.Evaluation.Allowance
import Scriptorium.Proofs.Evaluation.Growth
import Scriptorium.Proofs.Dialogue
import Scriptorium.Proofs.Evaluation.Gaps
import Scriptorium.Proofs.Views
import Scriptorium.Proofs.Lexing.Endings
import Scriptorium.Proofs.Evaluation.Slots
import Scriptorium.Proofs.Evaluation.Again
import Scriptorium.Proofs.Evaluation.Extremes
import Scriptorium.Proofs.Walks
import Scriptorium.Proofs.Parsing.Nesting
import Scriptorium.Proofs.Evaluation.Objects
import Scriptorium.Proofs.Manifests.Validation
import Scriptorium.Proofs.Manifests.Search
import Scriptorium.Proofs.Parsing.Descent
