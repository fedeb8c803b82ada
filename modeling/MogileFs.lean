import MogileFs.Directory.RoundTrip
import MogileFs.Download.EntryPoints
import MogileFs.Download.Rollback
import MogileFs.Download.SpillPath
import MogileFs.Files.Browsing
import MogileFs.Files.FileServers
import MogileFs.Files.HttpConnections
import MogileFs.Files.Queries
import MogileFs.Files.Retrieval
import MogileFs.Http.Answers
import MogileFs.Pool.ArrayBounds
import MogileFs.Pool.ConnectionCount
import MogileFs.Pool.Conservation
import MogileFs.Pool.MaintenanceThreads
import MogileFs.Pool.Probing
import MogileFs.Pool.Progress
import MogileFs.Pool.QuickInit
import MogileFs.Pool.Recovery
import MogileFs.Pool.Snapshots
import MogileFs.Pool.Teardown
import MogileFs.Pool.Walk
import MogileFs.Request.Outcome
import MogileFs.Tracker.Chunks
import MogileFs.Tracker.CodecMemory
import MogileFs.Tracker.Copying
import MogileFs.Tracker.RequestSize
import MogileFs.Upload.Provenance
import MogileFs.Watch.CacheLines
import MogileFs.Watch.Feed
import MogileFs.Watch.Fidelity
import MogileFs.Watch.Isolation
import MogileFs.Watch.LineCopy
