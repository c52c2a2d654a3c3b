import TerminalWorkspace.Foundation.Utf8
import TerminalWorkspace.Foundation.Base64
import TerminalWorkspace.Foundation.OrderedMap
import TerminalWorkspace.Foundation.PrefixFree
import TerminalWorkspace.Foundation.MovedItems
import TerminalWorkspace.Foundation.RecordFile
import TerminalWorkspace.Foundation.RecordAppend
import TerminalWorkspace.Foundation.RecordReaders
import TerminalWorkspace.Foundation.JsText
import TerminalWorkspace.HostKeys.StoreFile
import TerminalWorkspace.HostKeys.NodeStore
import TerminalWorkspace.HostKeys.NodeFrame
import TerminalWorkspace.HostKeys.NodeLock
import TerminalWorkspace.HostKeys.LockExclusion
import TerminalWorkspace.HostKeys.NativeStore
import TerminalWorkspace.HostKeys.NativeTrust
import TerminalWorkspace.HostKeys.TwoReaders
import TerminalWorkspace.Inventory.Records
import TerminalWorkspace.Connections.Builder
import TerminalWorkspace.Connections.ConnectPaths
import TerminalWorkspace.Connections.SecretCheck
import TerminalWorkspace.Inventory.Serialization
import TerminalWorkspace.Inventory.Tombstones
import TerminalWorkspace.Inventory.Compaction
import TerminalWorkspace.Inventory.SerialText
import TerminalWorkspace.Inventory.RecordText
import TerminalWorkspace.Inventory.NormalHosts
import TerminalWorkspace.LocalConfig.MergeById
import TerminalWorkspace.LocalConfig.Apply
import TerminalWorkspace.LocalConfig.Resurrection
import TerminalWorkspace.LocalConfig.Preview
import TerminalWorkspace.LocalConfig.FinalForm
import TerminalWorkspace.LocalConfig.MergeTwice
import TerminalWorkspace.LocalConfig.Export
import TerminalWorkspace.LocalConfig.Convergence
import TerminalWorkspace.SessionStream.NativeSocket
import TerminalWorkspace.SessionStream.StartUp
import TerminalWorkspace.Foundation.Runs
import TerminalWorkspace.SessionStream.WorkerStream
import TerminalWorkspace.SessionStream.StreamEffects
import TerminalWorkspace.SessionStream.StreamOrder
import TerminalWorkspace.Foundation.Transactions
import TerminalWorkspace.Persistence.DeletionStorage
import TerminalWorkspace.Persistence.OneTransaction
import TerminalWorkspace.Persistence.LastWrite
import TerminalWorkspace.PaneSession.World
import TerminalWorkspace.PaneSession.Controller
import TerminalWorkspace.PaneSession.Lifecycle
import TerminalWorkspace.PaneSession.Activity
import TerminalWorkspace.PaneSession.Progress
import TerminalWorkspace.PaneSession.Stale
import TerminalWorkspace.Foundation.Indexed
import TerminalWorkspace.Foundation.Ledgers
import TerminalWorkspace.NativeForwards.Creation
import TerminalWorkspace.NativeForwards.Consistency
import TerminalWorkspace.SessionWorker.OutputCoalescer
import TerminalWorkspace.SessionWorker.OutputLoop
import TerminalWorkspace.SessionWorker.OutputDelivery
import TerminalWorkspace.SessionWorker.CleanUp
import TerminalWorkspace.SessionWorker.CleanedUp
import TerminalWorkspace.VaultStores.Hosts
import TerminalWorkspace.VaultStores.Records
import TerminalWorkspace.VaultStores.Identities
import TerminalWorkspace.VaultStores.Actions
import TerminalWorkspace.VaultStores.Rewriting
import TerminalWorkspace.VaultStores.Migrating
import TerminalWorkspace.VaultStores.Effects
import TerminalWorkspace.VaultStores.Advances
import TerminalWorkspace.VaultStores.LastWriter
import TerminalWorkspace.VaultStores.InOrder
import TerminalWorkspace.VaultStores.Reimport
import TerminalWorkspace.VaultStores.References
import TerminalWorkspace.VaultStores.Accounts
import TerminalWorkspace.VaultStores.Deletions
import TerminalWorkspace.Sessions.Workspace
import TerminalWorkspace.Sessions.Store
import TerminalWorkspace.Sessions.Arranged
import TerminalWorkspace.Sessions.Closing
import TerminalWorkspace.Sessions.Layout
import TerminalWorkspace.Sessions.WellFormed
import TerminalWorkspace.Sessions.CloseRequests
import TerminalWorkspace.Sessions.Queueing
import TerminalWorkspace.Sessions.Previews
import TerminalWorkspace.SecretsStore.LastAction
import TerminalWorkspace.SshConfig.Scopes
import TerminalWorkspace.Sessions.Cascade
import TerminalWorkspace.FileBrowser.Shown
import TerminalWorkspace.NodeBackend.ChunkDecoding
import TerminalWorkspace.NodeBackend.DeadlineContract
import TerminalWorkspace.NodeBackend.RouteDeadline
import TerminalWorkspace.NativeTransport.PromptAnswers
import TerminalWorkspace.NativeTransport.UserOptions
import TerminalWorkspace.NativeTransport.ConfigReading
import TerminalWorkspace.NativeTransport.SftpLines
import TerminalWorkspace.NativeTransport.KeyPaths
import TerminalWorkspace.NodeBackend.SecretScrubbing
import TerminalWorkspace.NodeBackend.HelpersAgree
import TerminalWorkspace.NativeTransport.ListingReadBack
import TerminalWorkspace.SshConfig.FirstMatch
import TerminalWorkspace.SshConfig.IncludeAccount
import TerminalWorkspace.Connections.ChainSafety
import TerminalWorkspace.VaultStores.MigrationPreserves
import TerminalWorkspace.Persistence.MapLaw
import TerminalWorkspace.SecretsStore.RoundTrip
import TerminalWorkspace.Sessions.Attribution
import TerminalWorkspace.VaultStores.FormSaving
import TerminalWorkspace.VaultSync.DigestBinding
import TerminalWorkspace.VaultSync.TrustInstants
import TerminalWorkspace.NodeBackend.ForwardRouting
import TerminalWorkspace.NodeBackend.ForwardCleanup
import TerminalWorkspace.HostTrust.TrustByChoice
import TerminalWorkspace.SessionWorker.StreamDecoding
import TerminalWorkspace.SshConfig.GlobMatchers
import TerminalWorkspace.Inventory.CompactionLaws
import TerminalWorkspace.NativeTransport.PromptCapture
import TerminalWorkspace.NativeTransport.BoundedRuns
import TerminalWorkspace.SshConfig.RegistryLru
import TerminalWorkspace.NativeTransport.ShellReadBack
import TerminalWorkspace.SecretsStore.KeyDeletion
import TerminalWorkspace.VaultStores.KeyAssignment
import TerminalWorkspace.Runbooks.Store
import TerminalWorkspace.Runbooks.Cursor
import TerminalWorkspace.Foundation.Occurrences
import TerminalWorkspace.Search.MatchPlaces
import TerminalWorkspace.Foundation.Places
import TerminalWorkspace.Search.PaletteScore
import TerminalWorkspace.Keychain.ChildCleanup
import TerminalWorkspace.Keychain.ChildOwnership
import TerminalWorkspace.Keychain.ChildReaping
import TerminalWorkspace.Keychain.CleanupReports
import TerminalWorkspace.SessionWorker.WriteDeadline
import TerminalWorkspace.Changelog.Repository
import TerminalWorkspace.LegacyDatabase.Published
