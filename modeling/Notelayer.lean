import Notelayer.AccountDeletion
import Notelayer.AnalyticsService
import Notelayer.AppleSignIn
import Notelayer.ArmedReminders
import Notelayer.BroughtReminders
import Notelayer.CSVExport
import Notelayer.Calendar
import Notelayer.CategoryColorDefaults
import Notelayer.CategoryDeletion
import Notelayer.CategoryDisplay
import Notelayer.CategoryDrops
import Notelayer.CategoryOperations
import Notelayer.CategoryReferences
import Notelayer.CategoryWriteThrough
import Notelayer.Closures
import Notelayer.CrossDevice
import Notelayer.DateBuckets
import Notelayer.DeferredWrites
import Notelayer.DeletedTasks
import Notelayer.EchoWrites
import Notelayer.ExportRates
import Notelayer.FailedReminders
import Notelayer.FeatureCounts
import Notelayer.FeatureEvents
import Notelayer.ForceSync
import Notelayer.Foundation
import Notelayer.GapStatus
import Notelayer.Hierarchy
import Notelayer.HierarchyRepair
import Notelayer.HintBanner
import Notelayer.HintSync
import Notelayer.InitialSync
import Notelayer.InsightsAggregator
import Notelayer.InsightsOrder
import Notelayer.InsightsSnapshot
import Notelayer.InsightsTelemetryStore
import Notelayer.Isolation
import Notelayer.KeptReminders
import Notelayer.LegacyCategories
import Notelayer.Library.BinaryFormat
import Notelayer.Library.CSV
import Notelayer.Library.Characters
import Notelayer.Library.CivilDate
import Notelayer.Library.Collapsing
import Notelayer.Library.Copies
import Notelayer.Library.Days
import Notelayer.Library.Forest
import Notelayer.Library.JSON
import Notelayer.Library.KeyedList
import Notelayer.Library.LastWriteWins
import Notelayer.Library.Ledger
import Notelayer.Library.Lines
import Notelayer.Library.MarkedList
import Notelayer.Library.MergeDocument
import Notelayer.Library.Noninterference
import Notelayer.Library.Replacing
import Notelayer.Library.Rewriting
import Notelayer.Library.Runs
import Notelayer.Library.Sorting
import Notelayer.Library.Tally
import Notelayer.Library.Words
import Notelayer.Listeners
import Notelayer.LocalOperations
import Notelayer.LocalStore
import Notelayer.MarkdownLinks
import Notelayer.Migration
import Notelayer.Models
import Notelayer.NoNagging
import Notelayer.NormalizedColors
import Notelayer.Notifications
import Notelayer.OldestTasks
import Notelayer.OperationViews
import Notelayer.Operations
import Notelayer.ParentCompletion
import Notelayer.ParentDeletion
import Notelayer.Patterns
import Notelayer.PreferenceSync
import Notelayer.Rankings
import Notelayer.Reconciliation
import Notelayer.Reload
import Notelayer.Reminders
import Notelayer.Remote
import Notelayer.Reordering
import Notelayer.RestoredReminders
import Notelayer.RootTabs
import Notelayer.SelectedTheme
import Notelayer.SeparatedTasks
import Notelayer.SessionIds
import Notelayer.ShareExtension
import Notelayer.SharedImport
import Notelayer.SharedImportPasses
import Notelayer.SharedItemCoding
import Notelayer.SharedItems
import Notelayer.SharedLists
import Notelayer.SignIn
import Notelayer.StoredRecords
import Notelayer.SubtaskDrops
import Notelayer.TaskDrops
import Notelayer.TaskFormat
import Notelayer.TaskOperations
import Notelayer.TaskView
import Notelayer.TelemetryAttribution
import Notelayer.TelemetryCompaction
import Notelayer.TelemetryConservation
import Notelayer.ThemeCoding
import Notelayer.ThemeManager
import Notelayer.ThemePersistence
import Notelayer.TodoModes
import Notelayer.TodosView
import Notelayer.Trends
import Notelayer.UndoDeletion
import Notelayer.UneditedSave
import Notelayer.UserSwitch
import Notelayer.VoiceDrafts
import Notelayer.VoiceEntry
import Notelayer.VoiceInput
import Notelayer.VoiceLedger
import Notelayer.VoiceNormalization
import Notelayer.VoicePasses
import Notelayer.VoicePriorities
import Notelayer.VoiceSegments
import Notelayer.VoiceStagingView
import Notelayer.VoiceTaskParser
import Notelayer.WriteThrough
