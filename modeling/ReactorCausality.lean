import ReactorCausality.Main
import ReactorCausality.PortStatus
import ReactorCausality.Program.Draft
import ReactorCausality.Proofs.Analysis.Ending
import ReactorCausality.Proofs.Boundary.Coverage
import ReactorCausality.Proofs.Priority.DataFlow
import ReactorCausality.Proofs.Federation.Partition
import ReactorCausality.Proofs.Index.Ports
import ReactorCausality.Proofs.Boundary.Report
import ReactorCausality.Proofs.Graph.Walk
import ReactorCausality.Proofs.Boundary.Placing
import ReactorCausality.Proofs.Priority.Walk
import ReactorCausality.Proofs.Boundary.Circles
import ReactorCausality.Proofs.Boundary.Timing
import ReactorCausality.Proofs.Analysis.Blocking
import ReactorCausality.Proofs.Boundary.Bound
import ReactorCausality.Proofs.Priority.Stalling
import ReactorCausality.Proofs.Priority.Levels
import ReactorCausality.Proofs.Index.Acceptance
import ReactorCausality.Proofs.Analysis.Stopping
import ReactorCausality.Proofs.Graph.Exactness
import ReactorCausality.Proofs.Program.Interchange
import ReactorCausality.Proofs.Renaming.Boundary
import ReactorCausality.Proofs.Retiming
import ReactorCausality.Proofs.Program.Draft
import ReactorCausality.Proofs.Time.Canonical
import ReactorCausality.Proofs.Analysis.Provenance
import ReactorCausality.Proofs.Search.AllComponents
import ReactorCausality.Proofs.Priority.Order
import ReactorCausality.Proofs.Priority.Chains
import ReactorCausality.Proofs.CommandLine.Outcome
import ReactorCausality.Proofs.Boundary.Renumbering
import ReactorCausality.Proofs.Graph.Connections
import ReactorCausality.Proofs.Boundary.Waits
import ReactorCausality.Proofs.Index.Lookups
import ReactorCausality.Proofs.Index.Totality
import ReactorCausality.Proofs.Index.Modes
import ReactorCausality.Proofs.Index.Names
import ReactorCausality.Proofs.Federation.Inheritance
import ReactorCausality.Proofs.Federation.Paths
import ReactorCausality.Proofs.Time.Grammar
import ReactorCausality.Proofs.Search.Retracing
import ReactorCausality.Proofs.Rendering.Faithful
import ReactorCausality.Proofs.Rendering.Highlight
import ReactorCausality.Proofs.PortStatus
import ReactorCausality.Proofs.Boundary.Adjacency
import ReactorCausality.Proofs.Time.Segments
