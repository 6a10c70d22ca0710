import Packrat.Grammar.Call
import Packrat.Main
import Packrat.Proofs.Builder.Calls
import Packrat.Proofs.Builder.Integers
import Packrat.Proofs.Builder.Representation
import Packrat.Proofs.Builder.Slots
import Packrat.Proofs.Builder.Sources
import Packrat.Proofs.Hex
import Packrat.Proofs.Leaves
import Packrat.Proofs.Plan.Strict
import Packrat.Proofs.Plan.Outcomes
import Packrat.Proofs.Plan.Carriers
import Packrat.Proofs.Plan.Knowing
import Packrat.Proofs.Plan.Recalls
import Packrat.Proofs.Engine.Recursion
import Packrat.Proofs.Engine.Execution
import Packrat.Proofs.Engine.Exec
import Packrat.Proofs.Engine.Bounds
import Packrat.Proofs.Engine.Fatal
import Packrat.Proofs.Engine.Depth
import Packrat.Proofs.Engine.Nesting
import Packrat.Proofs.Engine.Loops
import Packrat.Proofs.Engine.Termination
import Packrat.Proofs.Engine.Reentry
import Packrat.Proofs.Engine.Tally
import Packrat.Proofs.Engine.Once
import Packrat.Proofs.Engine.Lockstep
import Packrat.Proofs.Engine.RecursionLimit
import Packrat.Proofs.Engine.Deepest
import Packrat.Proofs.Engine.Restored
import Packrat.Proofs.Semantics.Adequacy
import Packrat.Proofs.Semantics.Memoization
import Packrat.Proofs.Semantics.Refinement
import Packrat.Proofs.Semantics.Visits
import Packrat.Proofs.Semantics.Integers
import Packrat.Proofs.Semantics.Windows
import Packrat.Proofs.Semantics.Partition
import Packrat.Proofs.Semantics.Separated
import Packrat.Proofs.Semantics.Unrolled
import Packrat.Proofs.Semantics.Choices
import Packrat.Proofs.Engine.Again
import Packrat.Proofs.Semantics.Exclusive
import Packrat.Proofs.Dns.Reading
import Packrat.Proofs.Dns.Relocation
import Packrat.Proofs.Dns.Refusals
import Packrat.Proofs.Dns.Records
import Packrat.Proofs.Dns.Strings
import Packrat.Proofs.Answers
import Packrat.Proofs.Semantics.ByteSets
import Packrat.Proofs.Input.Advances
