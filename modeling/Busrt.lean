import Busrt.Lib.Run
import Busrt.Lib.Chan
import Busrt.Lib.Duplex
import Busrt.Lib.Mask
import Busrt.Lib.Bytes
import Busrt.Lib.Prog
import Busrt.Lib.Stream
import Busrt.Lib.Pending
import Busrt.Lib.Tokens
import Busrt.Lib.Waits
import Busrt.Lib.Split
import Busrt.Lib.SortedMap
import Busrt.Lib.RwLock
import Busrt.Lib.Utf8
import Busrt.Basic
import Busrt.Submap
import Busrt.Registry
import Busrt.Delivery
import Busrt.Isolation
import Busrt.Reader
import Busrt.System
import Busrt.Access
import Busrt.Order
import Busrt.Acks
import Busrt.Stale
import Busrt.Locks
import Busrt.Peer
import Busrt.Wire
import Busrt.Encode
import Busrt.Lengths
import Busrt.Writing
import Busrt.Confirm
import Busrt.Rpc
import Busrt.Pairing
import Busrt.Once
import Busrt.Interchange
import Busrt.Sections
import Busrt.Alone
import Busrt.Deadlock
import Busrt.Teardown
import Busrt.Announce
import Busrt.Rules
import Busrt.Interests
import Busrt.Bulk
import Busrt.Handle
import Busrt.Handshake
import Busrt.Bindings
import Busrt.Interop
import Busrt.Room
import Busrt.Flusher
import Busrt.Outlet
import Busrt.Through
import Busrt.Rest
import Busrt.Calls
import Busrt.Outcomes
import Busrt.Replying
import Busrt.Params
import Busrt.Fifo
import Busrt.Secondary
import Busrt.Topics
import Busrt.Cursors
import Busrt.Pool
