import OpenClaw.Foundation.Table
import OpenClaw.Foundation.Run
import OpenClaw.Foundation.Lease
import OpenClaw.Foundation.Json
import OpenClaw.Foundation.JsonParse
import OpenClaw.Foundation.JsonScan
import OpenClaw.Foundation.JsonLayout
import OpenClaw.Foundation.JsonRoundTrip
import OpenClaw.Foundation.PyText
import OpenClaw.Foundation.Stages
import OpenClaw.Foundation.CursorFeed
import OpenClaw.Foundation.JsonSorted
import OpenClaw.Foundation.JsonChars
import OpenClaw.Foundation.JsonQuotes
import OpenClaw.Foundation.TextBytes
import OpenClaw.Foundation.PyValue
import OpenClaw.Foundation.PyCanonical
import OpenClaw.Foundation.HashChain
import OpenClaw.Foundation.Delimited
import OpenClaw.Foundation.PyJson
import OpenClaw.Foundation.Asyncio
import OpenClaw.Scheduler.DeliveryOutbox
import OpenClaw.Scheduler.OutboxSteps
import OpenClaw.Scheduler.OutboxLease
import OpenClaw.Scheduler.OutboxDurability
import OpenClaw.Scheduler.Runner
import OpenClaw.Scheduler.RunnerOccurrences
import OpenClaw.Connector.ScheduleDelivery
import OpenClaw.Connector.AtMostOnce
import OpenClaw.Webhook.IdempotencyStore
import OpenClaw.Webhook.SubmitHandlers
import OpenClaw.Webhook.SubmitRetry
import OpenClaw.Webhook.WebhookAuth
import OpenClaw.Foundation.ObjectHeap
import OpenClaw.Webhook.WebhookMapping
import OpenClaw.Webhook.PrivilegedFields
import OpenClaw.Webhook.MappingTrees
import OpenClaw.Webhook.JobRequest
import OpenClaw.Webhook.TemplateService
import OpenClaw.Webhook.ContentChecks
import OpenClaw.Webhook.TraceIndependence
import OpenClaw.Webhook.ValidateAgreement
import OpenClaw.Webhook.WebhookReplay
import OpenClaw.Scheduler.DeliveryContract
import OpenClaw.Scheduler.DeliveryNormal
import OpenClaw.Api.UpdateSchedule
import OpenClaw.Api.RejectedUpdate
import OpenClaw.Observability.JobEvents
import OpenClaw.Observability.EventsPoll
import OpenClaw.Observability.PollerRuns
import OpenClaw.Audit.AuditPipeline
import OpenClaw.Audit.VerifiedChain
import OpenClaw.Audit.TamperEvidence
import OpenClaw.Audit.RotatedFiles
import OpenClaw.Audit.WrittenLines
import OpenClaw.Audit.ChainRuns
import OpenClaw.Audit.ChainSurvival
import OpenClaw.Approvals.ApprovalService
import OpenClaw.Approvals.ApprovalRuns
import OpenClaw.Approvals.FailedSave
import OpenClaw.Callback.TransportContract
import OpenClaw.Callback.TransportRuns
import OpenClaw.Callback.ReplayLifecycle
import OpenClaw.Callback.SignedEnvelope
import OpenClaw.Callback.CallbackContract
import OpenClaw.Callback.CallbackRecords
import OpenClaw.Callback.CallbackReplay
import OpenClaw.Registry.TrustRoots
import OpenClaw.Registry.QuarantineStore
import OpenClaw.Registry.EntrySteps
import OpenClaw.Registry.EntryLifecycle
import OpenClaw.Registry.TrustedSignatures
import OpenClaw.Integrity.IntegrityEnvelope
import OpenClaw.Integrity.EnvelopeRoundTrip
import OpenClaw.Integrity.AlteredFiles
import OpenClaw.Tenants.TenantContext
import OpenClaw.Secrets.SecretStore
import OpenClaw.Secrets.TenantIsolation
import OpenClaw.Secrets.SecretDurability
import OpenClaw.Installations.InstallationRegistry
import OpenClaw.Installations.InactiveInstallations
import OpenClaw.Installations.InstallationTenants
import OpenClaw.Bridge.TokenStore
import OpenClaw.Bridge.TokenRejection
import OpenClaw.Access.AccessControl
import OpenClaw.Access.IssuedTokens
import OpenClaw.Budgets.ExecutionBudgets
import OpenClaw.Budgets.HeldSlots
import OpenClaw.Budgets.BudgetRuns
import OpenClaw.Llm.FailoverLoop
import OpenClaw.Llm.CandidateReach
import OpenClaw.Foundation.ExpiringLedger
import OpenClaw.Webhook.IdempotencyBackends
import OpenClaw.Bridge.WorkerResults
import OpenClaw.Foundation.Checks
import OpenClaw.Foundation.CartesianProduct
import OpenClaw.Foundation.RawLayout
import OpenClaw.ParameterLab.LabPolicy
import OpenClaw.ParameterLab.SweepGrid
import OpenClaw.Foundation.JsonPrune
import OpenClaw.Redaction.RedactJson
import OpenClaw.Redaction.OperatorPayload
import OpenClaw.Foundation.FormatString
import OpenClaw.Foundation.PosixPath
import OpenClaw.Tools.ToolRunner
import OpenClaw.Tools.ToolArguments
import OpenClaw.Foundation.FileTree
import OpenClaw.Packs.PackManifest
import OpenClaw.Packs.InstalledPacks
import OpenClaw.Packs.PackRoundTrip
import OpenClaw.Foundation.HeapPaths
import OpenClaw.Rewrite.RecipeDiff
import OpenClaw.Scheduler.OutboxCapacity
import OpenClaw.Scheduler.RunHistoryIndex
import OpenClaw.Scheduler.ScheduleStorage
import OpenClaw.Scheduler.ScheduleAtomicity
import OpenClaw.Scheduler.OutboxRows
import OpenClaw.Foundation.RetryLanes
import OpenClaw.Retry.RetryPartition
import OpenClaw.Retry.LaneIsolation
import OpenClaw.ControlPlane.ControlPlaneAdapter
import OpenClaw.ControlPlane.BreakerLaw
import OpenClaw.Connector.ResultsPoller
import OpenClaw.Connector.SentOutcome
import OpenClaw.ModelManager.DeltaPolling
import OpenClaw.ModelManager.DownloadWorker
import OpenClaw.ModelManager.DownloadRuns
import OpenClaw.ModelManager.TaskLifecycle
import OpenClaw.ModelManager.FinishedTasks
import OpenClaw.Jobs.JobsSecurity
import OpenClaw.Jobs.JobsReadModel
import OpenClaw.Jobs.TenantNoninterference
import OpenClaw.Foundation.CodePoints
import OpenClaw.WeChat.NonceWindow
import OpenClaw.WeChat.CommandRuns
import OpenClaw.WeChat.CommandLaw
import OpenClaw.Foundation.Base64
import OpenClaw.WeChat.MessageFrame
import OpenClaw.Foundation.Literals
import OpenClaw.Connector.MediaStore
import OpenClaw.Connector.MediaTokens
import OpenClaw.Observability.EventStream
import OpenClaw.Observability.StreamResume
import OpenClaw.Foundation.IpAddress
import OpenClaw.Foundation.UrlSplit
import OpenClaw.Outbound.SafeIo
import OpenClaw.Outbound.ValidateLaw
import OpenClaw.Outbound.OpenResponse
import OpenClaw.Foundation.XmlTree
import OpenClaw.Foundation.XmlRead
import OpenClaw.WeChat.ReplyRoundTrip
import OpenClaw.Foundation.XmlSplit
import OpenClaw.Foundation.XmlFrames
import OpenClaw.WeChat.ReplyInjection
import OpenClaw.WeChat.ReplyDeclarations
import OpenClaw.WeChat.ReplyLaw
import OpenClaw.Webhook.RequireAuth
import OpenClaw.Connector.SecurityProfile
import OpenClaw.Auth.AuthCalls
import OpenClaw.Auth.AuthLaw
import OpenClaw.Auth.CredentialLaw
import OpenClaw.Foundation.TokenBucket
import OpenClaw.RateLimit.RateLimiter
import OpenClaw.RateLimit.BucketLaw
import OpenClaw.RateLimit.DeniedRequests
import OpenClaw.RateLimit.IpPolicies
import OpenClaw.Scheduler.IntervalGrid
import OpenClaw.Scheduler.CronFirstRun
import OpenClaw.Foundation.HttpDate
import OpenClaw.Retry.RetryAfter
import OpenClaw.Workflow.DiagnosticNodes
import OpenClaw.Foundation.JsonDecoder
import OpenClaw.Foundation.JsonSpelling
import OpenClaw.Llm.JsonExtraction
import OpenClaw.Foundation.HeapReads
import OpenClaw.Webhook.MappingFrame
import OpenClaw.Scheduler.DeliverySpelling
import OpenClaw.ChatOps.TargetGrammar
import OpenClaw.Connector.SlackEvents
import OpenClaw.Foundation.LinkSearch
import OpenClaw.Workflow.PromptGraph
import OpenClaw.Foundation.KeyedMerge
import OpenClaw.Config.ConfigMerge
import OpenClaw.Foundation.JsonPointer
import OpenClaw.Rewrite.DiffReconstruction
import OpenClaw.Rewrite.RecipeOperations
import OpenClaw.Cache.TtlCache
import OpenClaw.Callback.LifecycleRuns
import OpenClaw.RateLimit.BucketCleanup
import OpenClaw.Connector.SlackDedupe
import OpenClaw.Connector.KakaoTalk
import OpenClaw.ModelManager.Destination
import OpenClaw.Llm.SchemaSanitizer
import OpenClaw.Foundation.Shlex
import OpenClaw.Connector.CommandFirewall
import OpenClaw.Connector.RenderedCommand
