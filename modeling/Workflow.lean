import Workflow.Batch.Form
import Workflow.Broker.Config
import Workflow.Broker.Execute
import Workflow.Broker.Outline
import Workflow.Broker.Schedule
import Workflow.Broker.Station
import Workflow.Engine.Form
import Workflow.Engine.Script.Form
import Workflow.Json.Printer
import Workflow.Json.Reader
import Workflow.Operation.Alias
import Workflow.Partition.Work
import Workflow.Proofs.Broker.Form
import Workflow.Proofs.Broker.Settlement
import Workflow.Proofs.Engine.Fresh
import Workflow.Proofs.Job.Activation
import Workflow.Proofs.Job.Commute
import Workflow.Proofs.Job.Owner
import Workflow.Proofs.Partition.Backlog
import Workflow.Proofs.Partition.Checkers
import Workflow.Proofs.Partition.Driver
import Workflow.Proofs.Partition.Faithful
import Workflow.Proofs.Partition.Firing
import Workflow.Proofs.Partition.Idle
import Workflow.Proofs.Partition.Repeats
import Workflow.Proofs.Partition.Rival
import Workflow.Proofs.Partition.Session
import Workflow.Proofs.Partition.Unasked
import Workflow.Proofs.Partition.Verification
import Workflow.Proofs.Time.Clock
import Workflow.Proofs.Timer.Calls
import Workflow.Proofs.Timer.Cycle
import Workflow.Timer.Evaluation
