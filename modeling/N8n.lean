import N8n.Activation.CronFirings
import N8n.Activation.FinalDeactivation
import N8n.Activation.LeaderTriggers
import N8n.Activation.TrackedWorkflows
import N8n.ChatHub.ChatStream
import N8n.Concurrency.ConcurrencyQueue
import N8n.Crdt.DocumentIds
import N8n.Crdt.NestedValues
import N8n.Crdt.SocketAttempts
import N8n.Crdt.SyncConvergence
import N8n.Engine.ErrorOutput
import N8n.Engine.HighestNodes
import N8n.Engine.LoopTermination
import N8n.Engine.RequestAtomicity
import N8n.Engine.ResumedEntries
import N8n.Engine.RetryBounds
import N8n.Engine.WaitingDrain
import N8n.Engine.WaitingOrder
import N8n.EventBus.EventLog
import N8n.EventBus.ExecutionRecovery
import N8n.Executions.ExecutionsPruning
import N8n.Executions.RunAccounting
import N8n.Executions.WaitTracker
import N8n.Expressions.FromAIOnly
import N8n.Expressions.JoinExpression
import N8n.Expressions.LazyView
import N8n.Expressions.PairedItemErrors
import N8n.Expressions.SplitAgreement
import N8n.Expressions.SplitShape
import N8n.Nodes.ConnectionPoolManager
import N8n.Nodes.FindMatches
import N8n.PartialExecution.CleanRunData
import N8n.PartialExecution.FilterDisabledNodes
import N8n.PartialExecution.FindStartNodes
import N8n.PartialExecution.FindSubgraph
import N8n.PartialExecution.GroupCoverage
import N8n.PartialExecution.HandleCycles
import N8n.PartialExecution.RewireGraph
import N8n.Scaling.DanglingExecutions
import N8n.Scaling.JobQueue
import N8n.Scaling.LeaderKey
import N8n.Scaling.PubSub
import N8n.Scaling.QueueRecoverySchedule
import N8n.SdkCode.CallAllowList
import N8n.SdkCode.Isolation
import N8n.SdkCode.RenamedVariables
import N8n.Services.CacheService
import N8n.Services.CallSequences
import N8n.Services.DataTableColumns
import N8n.Services.InsightsFlush
import N8n.Services.RoleMappingRules
import N8n.Syslog.Answers
import N8n.TaskRunners.OrphanTasks
import N8n.TaskRunners.PendingRequests
import N8n.TaskRunners.ProtocolAgreement
import N8n.TaskRunners.SlidingWindowSignal
import N8n.TaskRunners.TerminalMessages
import N8n.Webhooks.CacheCoherence
import N8n.Webhooks.DynamicWebhook
import N8n.Webhooks.TestWebhooks
import N8n.Workflow.AdditiveChanges
import N8n.Workflow.AncestorOrder
import N8n.Workflow.ConnectionInversion
import N8n.Workflow.GroupWorkflows
import N8n.Workflow.HasPath
import N8n.Workflow.ParameterResolveOrder
import N8n.Workflow.RenamedWorkflow
import N8n.Workflow.SearchNodesBFS
import N8n.Workflow.WorkflowChecksum
import N8n.WorkflowSdk.CycleEdges
import N8n.WorkflowSdk.ParseWorkflowCode
import N8n.WorkflowSdk.QuotedStretches
import N8n.WorkflowSdk.VariableNames
