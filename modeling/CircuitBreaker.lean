import CircuitBreaker.StepRuns
import CircuitBreaker.DiskProgram
import CircuitBreaker.ByteLines
import CircuitBreaker.SpoolQueue
import CircuitBreaker.LogFrames
import CircuitBreaker.SpoolPositions
import CircuitBreaker.SpoolCrash
import CircuitBreaker.AckWatermark
import CircuitBreaker.SenderWindow
import CircuitBreaker.Delivery
import CircuitBreaker.TextPattern
import CircuitBreaker.ContractSchema
import CircuitBreaker.ContractSchemas
import CircuitBreaker.Redaction
import CircuitBreaker.OperationJournal
import CircuitBreaker.JournalSound
import CircuitBreaker.JournalRules
import CircuitBreaker.JournalFinish
import CircuitBreaker.ContractRules
import CircuitBreaker.LifecycleState
import CircuitBreaker.LifecycleInvariant
import CircuitBreaker.LifecycleRequests
import CircuitBreaker.LifecycleRuns
import CircuitBreaker.LifecycleSafety
import CircuitBreaker.RekeyAgreement
import CircuitBreaker.JsonText
import CircuitBreaker.AuditChain
import CircuitBreaker.AuditTables
import CircuitBreaker.AuditRuns
import CircuitBreaker.AuditSpool
import CircuitBreaker.TlsTrust
import CircuitBreaker.SelfUpdate
import CircuitBreaker.SelfUpdateRollback
import CircuitBreaker.SelfUpdateOutcome
import CircuitBreaker.PyDict
import CircuitBreaker.InventoryTransfer
import CircuitBreaker.InventoryApply
import CircuitBreaker.InventoryPlanned
import CircuitBreaker.InventoryHonoured
import CircuitBreaker.VaultKey
import CircuitBreaker.VaultRuns
import CircuitBreaker.JetStreamWorkers
import CircuitBreaker.MetricAlerts
import CircuitBreaker.ServerKeyRotation
import CircuitBreaker.ActivationGate
import CircuitBreaker.ProbeRuns
import CircuitBreaker.DiscoveryLease
import CircuitBreaker.IpText
import CircuitBreaker.AgentScope
import CircuitBreaker.CapabilityGrants
import CircuitBreaker.CapabilityGate
import CircuitBreaker.HostTelemetry
import CircuitBreaker.DockerSync
import CircuitBreaker.BootstrapSetup
import CircuitBreaker.NotificationReceipts
import CircuitBreaker.SessionRevocation
import CircuitBreaker.SnapshotFiles
import CircuitBreaker.ReviewQueue
import CircuitBreaker.GoNetip
import CircuitBreaker.NetScope
import CircuitBreaker.CveMatching
import CircuitBreaker.VulnerabilityAssessment
import CircuitBreaker.BreakerWindow
import CircuitBreaker.NetworkAdmission
import CircuitBreaker.BinaryBlocks
import CircuitBreaker.IpCollapse
import CircuitBreaker.ScopeTexts
import CircuitBreaker.AddressCount
import CircuitBreaker.MonitorResults
import CircuitBreaker.TextReplace
import CircuitBreaker.ProbeRedaction
import CircuitBreaker.SenderRuns
import CircuitBreaker.MetricWindows
import CircuitBreaker.SpoolExact
import CircuitBreaker.SpoolConserved
import CircuitBreaker.SpoolTails
import CircuitBreaker.TornTail
import CircuitBreaker.EnqueueFaults
import CircuitBreaker.BreakerTrial
import CircuitBreaker.FeedActivation
import CircuitBreaker.TelemetryRollup
import CircuitBreaker.IpConflicts
import CircuitBreaker.ApplicabilityLogic
import CircuitBreaker.AssessmentCoverage
import CircuitBreaker.ProbeRuntime
import CircuitBreaker.ShellWords
import CircuitBreaker.NmapPorts
import CircuitBreaker.PendingDuplicates
import CircuitBreaker.GrantCache
import CircuitBreaker.ProbeResults
import CircuitBreaker.ParentTrees
import CircuitBreaker.TopologyInference
import CircuitBreaker.TopologyReplacement
import CircuitBreaker.VaultInitialization
import CircuitBreaker.PublishBuffer
import CircuitBreaker.ParkedMessages
import CircuitBreaker.RoundRobin
import CircuitBreaker.FairClaims
import CircuitBreaker.DockerReconcile
import CircuitBreaker.DockerReplan
import CircuitBreaker.DockerClear
import CircuitBreaker.TransferReplay
import CircuitBreaker.TransferRuns
import CircuitBreaker.UrlText
import CircuitBreaker.IpClasses
import CircuitBreaker.OutboundUrl
import CircuitBreaker.RequestPinning
import CircuitBreaker.BreadthFirst
import CircuitBreaker.DependencyEdges
import CircuitBreaker.BlastRadius
import CircuitBreaker.ImpactPaths
import CircuitBreaker.PathWalk
import CircuitBreaker.ArchiveCheck
import CircuitBreaker.ArchiveTurns
import CircuitBreaker.ArchiveExtraction
import CircuitBreaker.ArchiveSizes
import CircuitBreaker.FileTree
import CircuitBreaker.CertificateActivation
import CircuitBreaker.ExpiringCounters
import CircuitBreaker.AttemptWindows
import CircuitBreaker.JobLocks
import CircuitBreaker.SessionLedger
import CircuitBreaker.LoginLockout
import CircuitBreaker.InviteRuns
import CircuitBreaker.ReleaseDownload
import CircuitBreaker.GzipStream
import CircuitBreaker.ChunkedLines
import CircuitBreaker.DumpScanner
import CircuitBreaker.DumpScanned
import CircuitBreaker.DumpStreams
import CircuitBreaker.Base64Text
import CircuitBreaker.TextWords
import CircuitBreaker.VersionSort
import CircuitBreaker.ReleaseTrust
import CircuitBreaker.ReleaseParity
