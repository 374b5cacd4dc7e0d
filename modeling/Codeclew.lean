import Codeclew.Adapter.Stream
import Codeclew.Agent.Accounting
import Codeclew.Callables.Identifiers
import Codeclew.Callables.Packed
import Codeclew.Cas.Read
import Codeclew.Cas.Refused
import Codeclew.ControlFlow.Explanation
import Codeclew.Documentation.ActivityTrace
import Codeclew.Documentation.Arrival
import Codeclew.Documentation.Bindings
import Codeclew.Documentation.FactMap
import Codeclew.Documentation.GuardLines
import Codeclew.Documentation.Outcomes
import Codeclew.Flow.Reach
import Codeclew.Frameworks.Coverage
import Codeclew.Generation.Retirement
import Codeclew.Impact.Selection
import Codeclew.Jvm.Identities
import Codeclew.Kotlin.Mirror
import Codeclew.Mission.Latest
import Codeclew.Navigation.Delta
import Codeclew.Publication.Order
import Codeclew.Publication.Recovery
import Codeclew.Query.Expand
import Codeclew.Query.Fitted
import Codeclew.Values.Components
import Codeclew.Values.Stable
import Codeclew.Values.Work
