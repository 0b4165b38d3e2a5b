import SimplexTableau.Main
import SimplexTableau.Proofs.Access
import SimplexTableau.Proofs.Elimination
import SimplexTableau.Proofs.Reversal
import SimplexTableau.Proofs.Equations
import SimplexTableau.Proofs.Validation
import SimplexTableau.Proofs.LinearProgram
import SimplexTableau.Proofs.Verdict
import SimplexTableau.Proofs.Choices
import SimplexTableau.Proofs.Reading
import SimplexTableau.Proofs.Names
import SimplexTableau.Proofs.BasicSolution
import SimplexTableau.Proofs.Runs
import SimplexTableau.Proofs.Execution
import SimplexTableau.Proofs.RatioTest
import SimplexTableau.Proofs.Soundness
import SimplexTableau.Proofs.RecordedPoint
import SimplexTableau.Proofs.SlackBlock
import SimplexTableau.Proofs.SolutionSet
import SimplexTableau.Proofs.Bases
import SimplexTableau.Proofs.Course
import SimplexTableau.Proofs.Resumption
import SimplexTableau.Proofs.Hosts
import SimplexTableau.Proofs.BasisExchange
import SimplexTableau.Proofs.Nondegenerate
import SimplexTableau.Proofs.Ascent
import SimplexTableau.Proofs.Limits
import SimplexTableau.Proofs.Rescaling
import SimplexTableau.Proofs.Doubles
import SimplexTableau.Proofs.Events
import SimplexTableau.Proofs.Faults
import SimplexTableau.Proofs.Sessions
import SimplexTableau.Proofs.Quoting
import SimplexTableau.Proofs.Packing
import SimplexTableau.Proofs.Rounding
import SimplexTableau.Proofs.Decimals
import SimplexTableau.Proofs.Numerals
import SimplexTableau.Proofs.Codecs
import SimplexTableau.Proofs.Format
import SimplexTableau.Proofs.Outcomes
import SimplexTableau.Proofs.Answers
import SimplexTableau.Proofs.Overflow
import SimplexTableau.Proofs.Quotients
import SimplexTableau.Proofs.Partition
import SimplexTableau.Proofs.OverflowingRatios
import SimplexTableau.Proofs.Commands
import SimplexTableau.Proofs.Shapes
import SimplexTableau.Proofs.Literals
import SimplexTableau.Proofs.NumberLists
import SimplexTableau.Proofs.Scanning
import SimplexTableau.Proofs.Sources
