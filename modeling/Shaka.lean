import Shaka.Core.PlanVerifier
import Shaka.Library.LinkedJournal
import Shaka.Library.GuardedRuns
import Shaka.Queue.Records
import Shaka.Queue.PlanJournal
import Shaka.Queue.QueueStore
import Shaka.Queue.Admission
import Shaka.Queue.Inspection
import Shaka.Plan.Appends
import Shaka.Library.PrefixCode
import Shaka.Plan.StoreKeys
import Shaka.Plan.Writes
import Shaka.Plan.Lifecycle
import Shaka.Plan.Coherence
import Shaka.Plan.ClaimMoves
import Shaka.Plan.FinishMoves
import Shaka.Plan.ResolutionMoves
import Shaka.Plan.AdmissionMoves
import Shaka.Plan.RecoveryMoves
import Shaka.Plan.Frames
import Shaka.Queue.Operations
import Shaka.Store.Consistency
import Shaka.Store.Admissions
import Shaka.Store.Leases
import Shaka.Store.Interruptions
import Shaka.Store.Resolutions
import Shaka.Store.Resumption
import Shaka.Store.Frames
import Shaka.Store.Runs
import Shaka.Store.Inspections
import Shaka.Properties.Replay
import Shaka.Properties.TaskPlan
import Shaka.Properties.ClaimSafety
import Shaka.Properties.LeaseFencing
import Shaka.Properties.DirectTasks
import Shaka.Library.Tables
import Shaka.Store.Registry
import Shaka.Properties.Quotas
import Shaka.Properties.ActiveTasks
import Shaka.Properties.Idempotency
import Shaka.Api.Config
import Shaka.Properties.LeaseCover
import Shaka.Properties.Budgets
import Shaka.Properties.Tenants
import Shaka.Library.Precedence
import Shaka.Plan.StepOrder
import Shaka.Plan.Progress
import Shaka.Plan.Readiness
import Shaka.Plan.Turns
import Shaka.Store.Unstarted
import Shaka.Store.Turns
import Shaka.Properties.Completion
import Shaka.Properties.TerminalPlans
import Shaka.Properties.Verification
import Shaka.Library.HashChain
import Shaka.Memory.Audit
import Shaka.Memory.AuditText
import Shaka.Memory.AuditRuns
import Shaka.Properties.AuditChain
import Shaka.Queue.Marking
import Shaka.Properties.UnknownMarks
import Shaka.Runtime.Tools
import Shaka.Library.KeptState
import Shaka.Runtime.Orchestrator
import Shaka.Runtime.Calls
import Shaka.Properties.ToolRuns
import Shaka.Queue.Circuit
import Shaka.Api.Worker
import Shaka.Runtime.Results
import Shaka.Properties.StepEvidence
import Shaka.Properties.CompensationClaims
import Shaka.Plan.Spent
import Shaka.Store.SpentKeys
import Shaka.Store.Refusals
import Shaka.Properties.FreshKeys
import Shaka.Api.WorkerLoop
import Shaka.Properties.HalfOpenProbe
import Shaka.Queue.CircuitRuns
import Shaka.Properties.ClosedClaims
import Shaka.Properties.SuccessFinal
import Shaka.Properties.FinishReplays
import Shaka.Properties.ResolutionReplays
import Shaka.Properties.PlanDigests
import Shaka.Queue.Checkpoints
import Shaka.Properties.CheckpointLog
import Shaka.Properties.StableLogs
import Shaka.Store.Undecided
import Shaka.Properties.ApprovalRenewals
import Shaka.Properties.CircuitLaw
import Shaka.Library.DepthFirst
import Shaka.Properties.Acyclicity
import Shaka.Library.JsonValue
import Shaka.Skills.Manifest
import Shaka.Skills.Canonical
import Shaka.Skills.Approval
import Shaka.Skills.Registry
import Shaka.Properties.ManifestAuthority
import Shaka.Properties.SkillLifecycle
import Shaka.Skills.Artifacts
import Shaka.Properties.ApprovalPayloads
import Shaka.Properties.VerifiedArtifacts
import Shaka.Runtime.Limits
import Shaka.Properties.RunBudgets
import Shaka.Properties.RedactedJson
import Shaka.Properties.RedactionTwice
import Shaka.Properties.FieldsAndText
import Shaka.Properties.ToolSecrets
import Shaka.Library.OrderedText
import Shaka.Library.Calendar
import Shaka.Core.Timestamps
import Shaka.Queue.Tokens
import Shaka.Properties.TextOrder
import Shaka.Properties.Backoff
import Shaka.Properties.RetryAfter
import Shaka.Properties.ClaimSelection
import Shaka.Properties.JournalMoves
import Shaka.Properties.TornReads
import Shaka.Queue.Identities
import Shaka.Properties.TokenAuthority
import Shaka.Api.Gateway
import Shaka.Api.Requests
import Shaka.Properties.GatewayRequests
import Shaka.Properties.GatewayProvenance
import Shaka.Api.Correlation
import Shaka.Properties.GatewayRetries
import Shaka.Properties.CorrelationIds
import Shaka.Skills.Trust
import Shaka.Runtime.SkillTools
import Shaka.Properties.SkillExecutions
import Shaka.Properties.StandingTools
import Shaka.Memory.Records
import Shaka.Memory.Recollection
import Shaka.Properties.MemoryHistory
import Shaka.Properties.TaskLives
import Shaka.Core.PairValues
import Shaka.Properties.HeldSecrets
import Shaka.Properties.ConsistentReads
import Shaka.Properties.LawfulResumes
import Shaka.Properties.ClaimIsolation
import Shaka.Properties.CompensationMoves
import Shaka.Properties.CompensationProgress
