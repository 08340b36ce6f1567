import AkLite.Lib.Run
import AkLite.Lib.FileLock
import AkLite.Lib.Json
import AkLite.Lib.Outcome
import AkLite.Lib.Shell
import AkLite.Lib.Effect
import AkLite.Lock.Clients
import AkLite.Lock.Exclusion
import AkLite.Bundle.Meta
import AkLite.Bundle.Signatures
import AkLite.Target
import AkLite.Callback
import AkLite.Engine.ComposeAppEngine
import AkLite.Engine.Fetched
import AkLite.Engine.BringUp
import AkLite.Boot.BootloaderLite
import AkLite.Boot.RootfsTreeManager
import AkLite.Boot.UpgradeFlag
import AkLite.Client.ComposeAppManager
import AkLite.Client.Api
import AkLite.Client.InstalledVersions
import AkLite.Client.Checks
import AkLite.Client.Selection
import AkLite.Client.PendingApps
import AkLite.Boot.Deployment
import AkLite.Client.Installing
import AkLite.Client.Frames
import AkLite.Client.Stores
import AkLite.Client.Syncing
import AkLite.Client.Trace
import AkLite.Client.Calls
import AkLite.Client.Vouching
import AkLite.Client.Within
import AkLite.Client.RollingBack
import AkLite.Client.NoSpace
import AkLite.Client.BootGate
import AkLite.Client.EnabledLater
import AkLite.Lib.Acting
import AkLite.Client.ReadOnly
import AkLite.Engine.Docker
import AkLite.Engine.RestorableAppEngine
import AkLite.Engine.Refetch
import AkLite.Client.CheckIn
import AkLite.Client.BundlePolicy
import AkLite.Bundle.Handled
import AkLite.Client.Escaping
import AkLite.Client.Refresh
import AkLite.Client.CheckCycle
import AkLite.Client.Completion
import AkLite.Client.AppOrder
import AkLite.Client.GoingBack
import AkLite.Client.Cli
import AkLite.Client.OfflineTargets
import AkLite.Engine.Prune
import AkLite.Engine.PruneByName
import AkLite.Engine.PruneBlobs
import AkLite.Engine.ArchiveRoom
import AkLite.Engine.StoreRoom
import AkLite.Client.CheckInJson
import AkLite.Client.Versions
import AkLite.Client.Latest
import AkLite.Client.UpdateName
import AkLite.Client.FetchPlan
import AkLite.Engine.Installing
import AkLite.Engine.Pulled
import AkLite.Engine.RunningFiles
import AkLite.Engine.BearerAuth
import AkLite.Engine.Requests
import AkLite.Engine.UpdateSize
import AkLite.Engine.UriText
import AkLite.Client.AppsReport
import AkLite.Engine.BlobDownload
import AkLite.Engine.StateFile
import AkLite.Bundle.RootChain
import AkLite.Client.DeltaStats
import AkLite.Client.TufUpdate
import AkLite.Engine.Composeapp
import AkLite.Engine.FetchedCache
import AkLite.Client.DaemonRun
import AkLite.Client.Progress
