import Audk.PeCoff.RuntimeRelocate
import Audk.PeCoff.Certificates
import Audk.PeCoff.Hii
import Audk.PeCoff.HashCoverage
import Audk.PeCoff.HashContract
import Audk.Ue.ImageRecord
import Audk.ImageProperties.SplitTable
import Audk.Mem.GetMemoryMapContract
import Audk.Event.TimerHistory
import Audk.Gcd.History
import Audk.AuthVar.Rollback
import Audk.Net.Ip4Contract
import Audk.Net.Ip6Contract
import Audk.Hand.History
import Audk.Ue.Mismatch
import Audk.ImageTool.ScanContract
import Audk.Mem.FindFree
import Audk.Mem.FreePages
import Audk.PeCoff.Inplace
import Audk.Mem.StackDepth
import Audk.OrderedCollection.Iterate
import Audk.PageTable.Parse
import Audk.Mem.GuardFreed
import Audk.Ext4.BlockMap
import Audk.Ext4.Inode
import Audk.SecureBoot.FailClosed
import Audk.Base.BaseMath
import Audk.Base.TimeBase
