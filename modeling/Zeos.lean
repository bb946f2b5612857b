import Zeos.Transition
import Zeos.Machine
import Zeos.Queues
import Zeos.Access
import Zeos.Bounds
import Zeos.Counting
import Zeos.Exclusion
import Zeos.Isolation
import Zeos.Keyboard
import Zeos.Scheduling
import Zeos.Acts
import Zeos.Allocator
import Zeos.Deliveries
import Zeos.Entry
import Zeos.Fairness
import Zeos.Joins
import Zeos.Unblocks
import Zeos.Allocations
import Zeos.Departures
import Zeos.Refusals
import Zeos.ThreadStack
import Zeos.CopyLoop
import Zeos.Idle
import Zeos.Overflow
import Zeos.Resizing
import Zeos.Signals
import Zeos.DoubleFree
import Zeos.Forking
import Zeos.Board
import Zeos.Copying
import Zeos.Digits
import Zeos.Endgame
import Zeos.Lists
import Zeos.Regions
import Zeos.Texts
import Zeos.LateKey
import Zeos.Switching
import Zeos.Stray
import Zeos.Paging
