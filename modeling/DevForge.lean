import DevForge.Transition
import DevForge.Table
import DevForge.Sql
import DevForge.AgentRuns
import DevForge.AgentRunFencing
import DevForge.DeployQueue
import DevForge.DeploymentRows
import DevForge.ChangeGate
import DevForge.WakeGate
import DevForge.EventLog
import DevForge.RunEvents
import DevForge.RunNumbering
import DevForge.RunChannels
import DevForge.RunFollow
import DevForge.DeploymentStarts
import DevForge.SupersedeOrder
import DevForge.AgentTurns
import DevForge.TurnReplies
import DevForge.WriteBack
import DevForge.ClusterLocal
import DevForge.LocalUpdates
import DevForge.SnapshotReplication
import DevForge.SnapshotSurvival
import DevForge.InterimLeader
import DevForge.Reclaim
import DevForge.ReclaimKeeps
import DevForge.AutoDeployGuard
import DevForge.ToolArguments
import DevForge.AgentLoop
import DevForge.Conversation
import DevForge.RemoteGate
import DevForge.Receipts
import DevForge.ReceiptRows
import DevForge.ReplayGuard
import DevForge.ReplayedTurns
import DevForge.CidrBlocks
import DevForge.IpAddresses
import DevForge.PageFetch
import DevForge.SeparatedParts
import DevForge.PageWatches
import DevForge.WatchRuns
import DevForge.WatchAlerts
import DevForge.WebhookDeliveries
import DevForge.DeliveredOnce
import DevForge.DeployEndings
import DevForge.StatusFollowsRows
import DevForge.SpecApprovals
import DevForge.OneImplementer
import DevForge.FixedDigits
import DevForge.NewestKept
import DevForge.InstanceBackups
import DevForge.RetentionKeepsNewest
import DevForge.OAuthGrants
import DevForge.GrantsRevoked
import DevForge.RedirectUris
import DevForge.CodeAddresses
import DevForge.DraftFiles
import DevForge.DraftBackups
import DevForge.DraftLosesNothing
import DevForge.LastWins
import DevForge.TraefikLabels
import DevForge.RoutersKept
import DevForge.PullPreviews
import DevForge.PreviewsSettle
import DevForge.Corrections
import DevForge.CorrectionLifecycle
import DevForge.BlueGreen
import DevForge.SwapsKeepServing
import DevForge.StreamDecoder
import DevForge.ClosedParts
import DevForge.JsonText
import DevForge.RunAccumulator
import DevForge.RunStream
import DevForge.RunStreamBlocks
import DevForge.ResumedRun
import DevForge.CrashLogic
import DevForge.ControlBoot
import DevForge.BootSurvivesCrashes
import DevForge.Dotenv
import DevForge.DotenvRoundTrip
import DevForge.MemoryRules
import DevForge.MemoryStores
import DevForge.MemoryRows
import DevForge.AcceptedWrites
import DevForge.NoteExpiry
import DevForge.VersionChain
import DevForge.MemoryVersions
import DevForge.MemoryRefinement
import DevForge.Redact
import DevForge.SecretsMasked
import DevForge.MaskedView
import DevForge.Election
import DevForge.SettledStatus
import DevForge.RestartBound
import DevForge.QuiesceWindow
import DevForge.DelegateTask
import DevForge.WorkerSlots
import DevForge.OneExecutor
import DevForge.ClusterNodes
import DevForge.NodeLiveness
import DevForge.SortedMap
import DevForge.ChatStream
import DevForge.StreamedTurns
import DevForge.WakeCauses
import DevForge.ResilientChain
import DevForge.SpecLifecycle
import DevForge.PageChanges
import DevForge.StorableWrites
import DevForge.EditScripts
import DevForge.LineDiffs
import DevForge.DnsFailover
import DevForge.CronSlots
import DevForge.MemoryIsolation
import DevForge.ArgumentCoercion
import DevForge.ShellWords
import DevForge.ShellQuoting
import DevForge.Milestones
import DevForge.ImageCleanup
import DevForge.Base64
import DevForge.SealedSecrets
import DevForge.Installers
import DevForge.ComposePorts
import DevForge.EmbeddedJson
import DevForge.ChunkedDeltas
import DevForge.MasksRecognised
import DevForge.UrlsInText
import DevForge.EnvImport
import DevForge.PlaybookSteps
import DevForge.StepsBacked
import DevForge.JsonGrammar
import DevForge.Truncate
import DevForge.BudgetKept
import DevForge.PreviewEnv
import DevForge.PreviewEnvKept
import DevForge.DerivedHosts
import DevForge.HostsApart
import DevForge.RouteSync
import DevForge.HostsKept
import DevForge.Detection
import DevForge.DetectionOrder
import DevForge.RecreateArgs
import DevForge.RecreateKeeps
import DevForge.DeltaMerging
import DevForge.NoteCap
import DevForge.ProfileLines
import DevForge.QuotedParts
import DevForge.SqliteCopy
import DevForge.StatementsSplit
import DevForge.FloatOrder
import DevForge.SlugNames
import DevForge.WorkerPlacement
import DevForge.PlaceholderValues
import DevForge.ProseOutside
