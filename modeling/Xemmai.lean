import Xemmai.Integers
import Xemmai.Equality
import Xemmai.Sorting
import Xemmai.Load
import Xemmai.Hashing
import Xemmai.Integrity
import Xemmai.References
import Xemmai.Queue
import Xemmai.Reach
import Xemmai.Exactness
import Xemmai.Sharable
import Xemmai.Conservation
import Xemmai.Terms
import Xemmai.Writer
import Xemmai.Reader
import Xemmai.Jumps
import Xemmai.Allocation
import Xemmai.Delivery
import Xemmai.Stopping
import Xemmai.Pointers
import Xemmai.Paths
import Xemmai.Bytes
import Xemmai.Access
import Xemmai.Expansion
import Xemmai.Parameters
import Xemmai.Recovery
import Xemmai.Epochs
import Xemmai.Partition
import Xemmai.Backtrace
import Xemmai.Lookup
import Xemmai.Dates
import Xemmai.Literals
import Xemmai.BreakPoints
import Xemmai.FlowGraphs
import Xemmai.Meaning
