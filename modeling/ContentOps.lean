import ContentOps.Library.Dict
import ContentOps.Library.Text
import ContentOps.Library.Value
import ContentOps.Library.ValuePath
import ContentOps.Library.Json
import ContentOps.Library.JsonRoundTrip
import ContentOps.Library.TextTable
import ContentOps.Library.JsonLine
import ContentOps.Library.Directory
import ContentOps.Library.HashChain
import ContentOps.Library.ObjectStore
import ContentOps.Library.Interleaving
import ContentOps.Library.KeyIndex
import ContentOps.Library.FixedWidth
import ContentOps.Library.DateTime
import ContentOps.Library.Grouping
import ContentOps.Library.OptionMap
import ContentOps.Audit.Record
import ContentOps.Audit.Writer
import ContentOps.Audit.Verify
import ContentOps.Audit.Chain
import ContentOps.Audit.Soundness
import ContentOps.Audit.Runs
import ContentOps.Audit.Commitment
import ContentOps.Audit.Concurrent
import ContentOps.Audit.Interleaved
import ContentOps.Audit.Race
import ContentOps.Alerts.Models
import ContentOps.Alerts.Merge
import ContentOps.Alerts.Provenance
import ContentOps.Alerts.Loss
import ContentOps.Alerts.Ledger
import ContentOps.Alerts.Incidents
import ContentOps.Alerts.OverlayAgreement
import ContentOps.Alerts.Sync
import ContentOps.Alerts.Reconcile
import ContentOps.Alerts.WindowedFetch
import ContentOps.Core.Asset
import ContentOps.Core.Metadata
import ContentOps.Core.Envelope
import ContentOps.Core.Discovery
import ContentOps.Core.Slug
import ContentOps.Core.Drift
import ContentOps.Handlers.SentinelAnalytic
import ContentOps.Core.DriftMatch
import ContentOps.Core.LocalPart
import ContentOps.Core.DriftEntries
import ContentOps.Core.WriteDrift
import ContentOps.Core.RoundTrip
import ContentOps.Core.WrittenFiles
import ContentOps.Core.Reindex
import ContentOps.DriftResolve
import ContentOps.Config
import ContentOps.Snippets
import ContentOps.Cli.Shared
import ContentOps.Cli.Prune
import ContentOps.Cli.Orphans
import ContentOps.Cli.ApplySupport
import ContentOps.Cli.RetryFailed
import ContentOps.Cli.Rollback
import ContentOps.Cli.DeployOrder
import ContentOps.Cli.Collect
import ContentOps.Cli.CollectedDrift
import ContentOps.Audit.Retry
import ContentOps.Audit.Settled
import ContentOps.Cli.TenantWrites
import ContentOps.Cli.Audited
import ContentOps.Cli.AuditPointers
import ContentOps.Handlers.Verify
import ContentOps.Defender.Deploy
import ContentOps.Handlers.DefenderCustomDetection
import ContentOps.Defender.GraphRules
import ContentOps.Defender.Unchanged
import ContentOps.Defender.Visit
import ContentOps.Defender.Targets
import ContentOps.Handlers.SentinelPlaybook
import ContentOps.Handlers.PlaybookApply
import ContentOps.Playbook.ArmStore
import ContentOps.Playbook.Collected
import ContentOps.Playbook.Deletion
import ContentOps.State
import ContentOps.StateSync
import ContentOps.Lifecycle.RuleKeys
import ContentOps.Lifecycle.TelemetrySums
import ContentOps.Lifecycle.Gates
import ContentOps.Lifecycle.Promotion
import ContentOps.Lifecycle.Promote
import ContentOps.Lifecycle.FailClosed
import ContentOps.Lifecycle.Lock
import ContentOps.Lifecycle.Disable
import ContentOps.Lifecycle.EnableUndoes
import ContentOps.Library.PathText
import ContentOps.Utils.GitDiff
import ContentOps.Cli.ChangedSince
import ContentOps.Scripts.DetectPromotions
import ContentOps.Library.ValueTexts
import ContentOps.Handlers.SentinelAutomationRule
import ContentOps.AutomationRule.Conditions
import ContentOps.AutomationRule.ResourceIds
import ContentOps.AutomationRule.References
import ContentOps.AutomationRule.Unchanged
import ContentOps.AutomationRule.ArmBody
import ContentOps.AutomationRule.ReferenceScan
import ContentOps.AutomationRule.ScanAgrees
import ContentOps.Handlers.SentinelSavedSearch
import ContentOps.SavedSearch.Unchanged
import ContentOps.DriftSuppressions
import ContentOps.Utils.HttpRetry
import ContentOps.Restore
import ContentOps.SnapshotDiff
import ContentOps.Library.Asking
import ContentOps.Library.Brackets
import ContentOps.Library.LineEdit
import ContentOps.Lint.Kql
import ContentOps.Lint.KqlReading
import ContentOps.Core.Dependencies
import ContentOps.Cli.DependencyCheck
import ContentOps.Library.PyEq
import ContentOps.Core.VersionBump
import ContentOps.Scripts.CheckVersionBump
import ContentOps.Scripts.VersionGate
import ContentOps.Core.ChangeShows
import ContentOps.Undeployed
import ContentOps.Status.Deployments
import ContentOps.Audit.CorruptLines
import ContentOps.Status.OwnRecords
import ContentOps.Alerts.OverlayTwice
import ContentOps.Library.Tagged
import ContentOps.Library.Tally
import ContentOps.Alerts.DetectionHealth
import ContentOps.Alerts.DailyStore
import ContentOps.Scripts.MigrateTenantConfig
import ContentOps.Library.Walk
import ContentOps.Coverage.Matrix
import ContentOps.Scripts.RefreshAttackMatrix
import ContentOps.Cli.PruneSafeguards
import ContentOps.Library.Retry
import ContentOps.Utils.RequestRetry
import ContentOps.Defender.CreateOnce
import ContentOps.Lint.Runner
import ContentOps.Lint.AssetFilter
import ContentOps.Lint.Placeholders
import ContentOps.Lint.PlaceholderSound
import ContentOps.Coverage.Extract
import ContentOps.Coverage.Corpus
import ContentOps.Coverage.Report
import ContentOps.Coverage.Agreement
import ContentOps.Report.Snapshot
import ContentOps.Report.DeltaSound
import ContentOps.Library.Substitution
import ContentOps.Status.Redact
import ContentOps.Status.Redacted
import ContentOps.Core.UniqueIds
import ContentOps.Library.Replacement
import ContentOps.Snippets.Rounds
import ContentOps.Library.ValueDiff
import ContentOps.Core.FieldDiff
import ContentOps.Utils.RoundtripDiff
import ContentOps.Defender.Roundtrip
import ContentOps.Handlers.HashedFields
import ContentOps.Handlers.SentinelRoundtrip
import ContentOps.Library.Register
import ContentOps.Handlers.ArmUpsert
import ContentOps.Handlers.NoLostUpdate
import ContentOps.Handlers.SentinelWatchlist
import ContentOps.Handlers.SentinelAnalyticApply
import ContentOps.Handlers.SavedSearchApply
import ContentOps.Utils.TokenAuth
import ContentOps.Utils.UrlPath
import ContentOps.Library.KeyOrder
import ContentOps.Library.FieldText
import ContentOps.Upstream.Manifest
import ContentOps.Upstream.Watchers
import ContentOps.Upstream.DefenderSchema
import ContentOps.Upstream.Schemas
import ContentOps.Audit.Query
