import SkyeFS.Foundation.SuffixTree
import SkyeFS.Index.Bitmap
import SkyeFS.Index.Routing
import SkyeFS.Foundation.SplitProtocol
import SkyeFS.Foundation.Transition
import SkyeFS.Foundation.WaitGraph
import SkyeFS.Cluster.Agreement
import SkyeFS.Cluster.Redirects
import SkyeFS.Cluster.Deadlock
import SkyeFS.Foundation.Listing
import SkyeFS.Pvfs.Store
import SkyeFS.Server.Handlers
import SkyeFS.Server.Split
import SkyeFS.Server.SplitInvariant
import SkyeFS.Server.SplitNames
import SkyeFS.Server.SplitServed
import SkyeFS.Server.SplitScan
import SkyeFS.Server.Cache
import SkyeFS.Server.Rmdir
import SkyeFS.Server.Restart
import SkyeFS.Server.Loading
import SkyeFS.Index.Refinement
import SkyeFS.Cluster.Splitting
import SkyeFS.Index.Capacity
import SkyeFS.Cluster.Queue
import SkyeFS.Cluster.Partition
import SkyeFS.Server.Balance
import SkyeFS.Server.RmdirSplit
import SkyeFS.Server.Fetch
import SkyeFS.Client.Opendir
import SkyeFS.System.World
import SkyeFS.System.Handles
import SkyeFS.Index.Search
import SkyeFS.Index.Growth
import SkyeFS.Cluster.Wakeup
import SkyeFS.Client.Requests
import SkyeFS.Server.SplitCalls
import SkyeFS.Server.MoveLoop
import SkyeFS.Client.Direntry
import SkyeFS.Client.Errnos
import SkyeFS.Client.Readdir
import SkyeFS.Client.ReaddirReplies
import SkyeFS.Server.Flow
import SkyeFS.Server.Mkdir
import SkyeFS.Server.PartitionHandles
import SkyeFS.Server.RmdirPages
import SkyeFS.Foundation.Buffers
import SkyeFS.Foundation.Xdr
import SkyeFS.Index.HashBuffers
import SkyeFS.Wire.Helper
import SkyeFS.Wire.Replies
import SkyeFS.Foundation.Labelled
import SkyeFS.Server.WholeSplit
import SkyeFS.System.Flat
import SkyeFS.System.Placement
import SkyeFS.System.Namespace
import SkyeFS.System.Service
import SkyeFS.Foundation.BlockBuffer
import SkyeFS.Index.Sha1
import SkyeFS.Index.Sha1Stream
import SkyeFS.Foundation.Linked
import SkyeFS.Common.Uthash
import SkyeFS.Common.UthashInvariant
import SkyeFS.Common.UthashRuns
import SkyeFS.Client.DirCache
import SkyeFS.Server.Lifetime
import SkyeFS.System.Unmoved
import SkyeFS.Foundation.XdrString
import SkyeFS.Wire.Calls
import SkyeFS.Foundation.CText
import SkyeFS.Common.Connection
import SkyeFS.Common.Servers
import SkyeFS.Common.Utlist
import SkyeFS.Cluster.SplitTasks
import SkyeFS.Cluster.Misplaced
import SkyeFS.System.Startup
