import Lineage.Derivation.Report
import Lineage.Report.Dot
import Lineage.Report.Lines
import Lineage.Trace
import Lineage.Proofs.Source
import Lineage.Proofs.Store.Reading
import Lineage.Proofs.Instruction.Effect
import Lineage.Proofs.Derivation.Graph
import Lineage.Proofs.Store.Layout
import Lineage.Proofs.Store.Similar
import Lineage.Proofs.Instruction.Binding
import Lineage.Proofs.Derivation.Planning
import Lineage.Proofs.Derivation.Recording
import Lineage.Proofs.Session
import Lineage.Proofs.Transparency
import Lineage.Proofs.Derivation.Fitting
import Lineage.Proofs.Derivation.Constancy
import Lineage.Proofs.Derivation.Meaning
import Lineage.Proofs.Store.Names
import Lineage.Proofs.Derivation.Explanation
import Lineage.Proofs.Derivation.Interference
import Lineage.Proofs.Derivation.Inputless
import Lineage.Proofs.Derivation.History
import Lineage.Proofs.Derivation.Consing
import Lineage.Proofs.Derivation.Renaming
import Lineage.Proofs.Store.Renaming
import Lineage.Proofs.Derivation.Mirroring
import Lineage.Proofs.Derivation.Queries
import Lineage.Proofs.Instruction.Decoding
import Lineage.Proofs.Instruction.Pacing
import Lineage.Proofs.Derivation.Retracing
import Lineage.Proofs.Derivation.Convergence
import Lineage.Proofs.Instruction.Faults
import Lineage.Proofs.Derivation.Marking
import Lineage.Proofs.Derivation.Ranging
import Lineage.Proofs.Progress
import Lineage.Proofs.Derivation.Rebinding
import Lineage.Proofs.Derivation.Ancestry
import Lineage.Proofs.Report.Lines
import Lineage.Proofs.Derivation.Legibility
import Lineage.Proofs.Derivation.Leftovers
import Lineage.Proofs.Derivation.Sharing
import Lineage.Proofs.Derivation.Simplification
import Lineage.Proofs.Store.Table
import Lineage.Proofs.Instruction.Repetition
import Lineage.Proofs.Usage
import Lineage.Proofs.Instruction.Naming
import Lineage.Proofs.Derivation.Ordering
import Lineage.Proofs.Derivation.Traversal
import Lineage.Proofs.Derivation.Branching
import Lineage.Proofs.Report.Inverse
import Lineage.Proofs.Listing.Append
import Lineage.Proofs.Instruction.Printing
import Lineage.Proofs.Store.Snapshot
import Lineage.Proofs.Arithmetic
import Lineage.Proofs.Report.Quoting
import Lineage.Proofs.Report.Bracketing
import Lineage.Proofs.Logging
import Lineage.Proofs.Halting
import Lineage.Proofs.Spelling
import Lineage.Proofs.Derivation.Tagging
import Lineage.Proofs.Store.Directory
import Lineage.Proofs.Derivation.Arena
import Lineage.Proofs.Derivation.InPlace
