import Reckoner.Main
import Reckoner.Proofs.Debugging
import Reckoner.Proofs.Dependence
import Reckoner.Proofs.DiagnosticRanges
import Reckoner.Proofs.EarliestFault
import Reckoner.Proofs.EditorLines
import Reckoner.Proofs.Edits
import Reckoner.Proofs.EqualOperands
import Reckoner.Proofs.Exactness
import Reckoner.Proofs.Excerpts
import Reckoner.Proofs.Hashing
import Reckoner.Proofs.HostComparison
import Reckoner.Proofs.LiteralReading
import Reckoner.Proofs.Logarithms
import Reckoner.Proofs.Names
import Reckoner.Proofs.Placement
import Reckoner.Proofs.PowerLimit
import Reckoner.Proofs.Precision
import Reckoner.Proofs.Preparation
import Reckoner.Proofs.Printing
import Reckoner.Proofs.ProgramText
import Reckoner.Proofs.Quotients
import Reckoner.Proofs.Resolution
import Reckoner.Proofs.Spelling
import Reckoner.Proofs.SquareRoots
import Reckoner.Proofs.StackAndFrames
import Reckoner.Proofs.WholeParts
import Reckoner.Report
