import Packrat.Grammar.Text
import Packrat.Parser.Element
import Packrat.Run
import Packrat.Sample
import Packrat.Schema
import Packrat.Proofs.Derivation
import Packrat.Proofs.Reading
import Packrat.Proofs.Soundness
import Packrat.Proofs.Depth
import Packrat.Proofs.Answer
import Packrat.Proofs.Faithfulness
import Packrat.Proofs.History
import Packrat.Proofs.LeftRecursion
import Packrat.Proofs.ErrorSource
import Packrat.Proofs.Termination
import Packrat.Proofs.Peg
import Packrat.Proofs.Recognition
import Packrat.Proofs.Alignment
import Packrat.Proofs.Texts
import Packrat.Proofs.Labels
import Packrat.Proofs.Conduct
import Packrat.Proofs.Thrift
import Packrat.Proofs.Registration
import Packrat.Proofs.Tandem
import Packrat.Proofs.Memoization
import Packrat.Proofs.Nesting
import Packrat.Proofs.Unwinding
import Packrat.Proofs.Usability
import Packrat.Proofs.Spelling
import Packrat.Proofs.Sums
import Packrat.Proofs.Kinship
import Packrat.Proofs.Rearrangement
import Packrat.Proofs.Switches
import Packrat.Proofs.Occupancy
import Packrat.Proofs.Tally
import Packrat.Proofs.BreadthFirst
import Packrat.Proofs.ListFlags
import Packrat.Proofs.Validation
import Packrat.Proofs.Takes
import Packrat.Proofs.Repetition
import Packrat.Proofs.Provenance
import Packrat.Proofs.Skips
import Packrat.Proofs.Paths
import Packrat.Proofs.Columns
import Packrat.Parser.Element
