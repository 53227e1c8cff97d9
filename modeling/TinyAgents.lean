import TinyAgents.Completions.Closing
import TinyAgents.Completions.Generations
import TinyAgents.Completions.Switch
import TinyAgents.StorageKit.Counters
import TinyAgents.StorageKit.Readiness
import TinyAgents.Tasks.Orphans
import TinyAgents.Tasks.SerialOrder
import TinyAgents.Harness.NoProgress
import TinyAgents.Harness.Escalation
import TinyAgents.Harness.PingPong
import TinyAgents.Harness.Trimming
import TinyAgents.Harness.BatchEndings
import TinyAgents.Harness.UsageAccounts
import TinyAgents.Harness.Reconciling
import TinyAgents.Harness.NestedGates
import TinyAgents.Harness.ToolBudgets
import TinyAgents.Harness.ClearedNested
import TinyAgents.Harness.Handoff
import TinyAgents.Harness.NestedIds
import TinyAgents.Harness.RecoveredIds
import TinyAgents.Harness.FinalResponses
import TinyAgents.Harness.OrderedSender
import TinyAgents.Harness.Compactions
import TinyAgents.Harness.StateUpdates
import TinyAgents.HarnessTools.Csv
import TinyAgents.HarnessTools.PathLocks
import TinyAgents.HarnessTools.Patches
import TinyAgents.HarnessTools.StaleReads
import TinyAgents.HarnessTools.Todos
import TinyAgents.Session.Recency
import TinyAgents.Session.TurnWrites
import TinyAgents.Session.SealedGenerations
import TinyAgents.Orchestration.DocumentPersistence
import TinyAgents.Orchestration.ClosedTasks
import TinyAgents.Orchestration.ReportedCompletions
