import NopCore.Builder.Pipeline
import NopCore.Lib.System
import NopCore.Lib.Renaming
import NopCore.Mem.Pipeline
import NopCore.Mem.StoreTag
import NopCore.Mem.LogicalMemory
import NopCore.Mem.LoadData
import NopCore.Mem.Occupancy
import NopCore.Mem.StoreOrder
import NopCore.Peripheral.AxiBuffer
import NopCore.Peripheral.UncachedOrder
import NopCore.Decode.Conservation
import NopCore.Decode.Atomic
import NopCore.Privilege.Report
import NopCore.Core.Repair
import NopCore.Core.RobQueue
import NopCore.Core.Precise
import NopCore.Core.StoreCommit
import NopCore.Core.UncachedLoad
import NopCore.Core.LinkBit
import NopCore.Core.CacheMaintenance
import NopCore.Fetch.Integrity
import NopCore.Fetch.Redirect
import NopCore.Privilege.RefillReturn
import NopCore.Privilege.UserInterrupt
import NopCore.Privilege.Isolation
import NopCore.Peripheral.WriteId
import NopCore.Exe.MulDivExecute
import NopCore.Exe.MulDivArithmetic
import NopCore.Decode.Sequential
import NopCore.Utils.BoundedFifo
import NopCore.Utils.ReorderRAM
import NopCore.Boot.Payload
import NopCore.Boot.ElfWindow
import NopCore.Boot.ElfImage
import NopCore.Demo.Upload
import NopCore.Demo.Download
import NopCore.Demo.ShellAgreement
import NopCore.Exe.LostWakeup
import NopCore.Exe.CsrAtomic
import NopCore.Exe.Integer
import NopCore.Exe.Branch
import NopCore.Privilege.TlbSearch
import NopCore.Core.ByteTrace
import NopCore.Core.Unconditional
import NopCore.Fetch.MissPath
import NopCore.Core.InOrderPath
import NopCore.Core.MyCPUCore
