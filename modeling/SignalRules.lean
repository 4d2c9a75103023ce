import SignalRules.Config.Text
import SignalRules.Proofs.ActualChanges
import SignalRules.Proofs.Balance
import SignalRules.Proofs.Books
import SignalRules.Proofs.Comments
import SignalRules.Proofs.Culprits
import SignalRules.Proofs.Cycles
import SignalRules.Proofs.Decimals
import SignalRules.Proofs.EdgeDetection
import SignalRules.Proofs.EvaluationOrder
import SignalRules.Proofs.ExecuteOnce
import SignalRules.Proofs.Failures
import SignalRules.Proofs.FixedPoint
import SignalRules.Proofs.Freshness
import SignalRules.Proofs.GlobalNames
import SignalRules.Proofs.HandBuilt
import SignalRules.Proofs.Intake
import SignalRules.Proofs.Layouts
import SignalRules.Proofs.Lifetimes
import SignalRules.Proofs.Literals
import SignalRules.Proofs.Notification
import SignalRules.Proofs.OpenLists
import SignalRules.Proofs.Paths
import SignalRules.Proofs.Policies
import SignalRules.Proofs.Propagation
import SignalRules.Proofs.Reimport
import SignalRules.Proofs.Replacements
import SignalRules.Proofs.Rollback
import SignalRules.Proofs.RoundTrip
import SignalRules.Proofs.Shelves
import SignalRules.Proofs.SideEffects
import SignalRules.Proofs.SignalNames
import SignalRules.Proofs.Ticks
import SignalRules.Proofs.Truncation
import SignalRules.Proofs.Typing
import SignalRules.Proofs.WellFormed
import SignalRules.Simulation.Session
import SignalRules.Value.SinglePrecision
