import Edsm.Library.Reachability
import Edsm.Library.Channels
import Edsm.Mutex.Progress
import Edsm.Mutex.Exclusion
import Edsm.Mutex.Clock
import Edsm.Mutex.Replies
import Edsm.Memory.RoundTrip
import Edsm.Memory.HeaderFields
import Edsm.Memory.Merge
import Edsm.Memory.Accept
import Edsm.Memory.Transaction
import Edsm.Memory.Coherence
import Edsm.Memory.Convergence
import Edsm.Memory.Protection
import Edsm.Memory.Release
import Edsm.Memory.AddressSpace
import Edsm.Mutex.LateJoin
import Edsm.Mutex.Wire
import Edsm.Mutex.Requests
import Edsm.Uthash.Ids
import Edsm.Dobj.Object
import Edsm.Dobj.Create
import Edsm.Dobj.Join
import Edsm.Dobj.Calls
import Edsm.Message.Queue
import Edsm.Message.Resize
import Edsm.Message.Write
import Edsm.Message.Prefixed
import Edsm.Message.RoundTrip
import Edsm.Proto.Framing
import Edsm.Proto.FrameReader
import Edsm.Proto.FrameWriter
import Edsm.Proto.Peerlist
import Edsm.Proto.GroupJoin
import Edsm.Proto.FailedJoin
import Edsm.Proto.UniqueIds
import Edsm.Proto.Listener
import Edsm.Dobj.Startup
import Edsm.Locks.Waits
import Edsm.Dobj.Barrier
import Edsm.ReplyWaiter.Accounting
import Edsm.NBody.Progress
