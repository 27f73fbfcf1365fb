import SeL4.Allocman.SingleLevel
import SeL4.Allocman.UtSplitRun
import SeL4.Bench.Results
import SeL4.Mcs.Charge
import SeL4.CNode.Termination
import SeL4.CNode.IrqHandler
import SeL4.Thread.SchedControl
import SeL4.Thread.ReleaseQueue
import SeL4.Thread.CancelBadged
import SeL4.Thread.CapTransfer
import SeL4.Thread.SignalRun
import SeL4.Thread.StrictPriority
import SeL4.Smp.ClhLock
import SeL4.Smp.RemoteExact
import SeL4.VSpace.Vmid
import SeL4.Smp.FpuInv
import SeL4.Smp.VcpuFresh
import SeL4.Hyp.Invocations
import SeL4.Boot.Place
import SeL4.Boot.Layout
import SeL4.Cpio.Listing
import SeL4.Elf.File
import SeL4.Boot.Reserve
import SeL4.Utils.Slab
import SeL4.Utils.SharedRing
import SeL4.Utils.Cbor
import SeL4.Utils.BinSem
import SeL4.Plat.IrqServe
