import Ceryx.Proc.NoThreadLost
import Ceryx.Proc.NodeLinks
import Ceryx.Proc.SchedLock
import Ceryx.Proc.SignalReturn
import Ceryx.Proc.ThreadOutlives
import Ceryx.Proc.WaitOnce
import Ceryx.Proc.WaitAny
import Ceryx.Proc.TreeSound
import Ceryx.Proc.Pids
import Ceryx.Fs.OpenCreat
import Ceryx.Fs.CpioRoundTrip
import Ceryx.Proc.ElfLoader
import Ceryx.Fs.PipeEnds
import Ceryx.Fs.RamFsRefine
import Ceryx.Cpu.FramePointer
import Ceryx.Cpu.UserRsp
import Ceryx.Cpu.UserFlags
import Ceryx.Lib.Simulation
import Ceryx.Lib.Slots
import Ceryx.Fs.FdMap
import Ceryx.Fs.PipeWaiters
import Ceryx.Lib.BitSet
import Ceryx.Proc.SchedKeeps
import Ceryx.Proc.SignalQueue
import Ceryx.Proc.UserKernel
import Ceryx.Proc.ForkCopies
import Ceryx.Proc.UserRuns
import Ceryx.Proc.BlockedMask
import Ceryx.Proc.RetiredProcs
import Ceryx.Proc.AddressSpaces
import Ceryx.Fs.AppendWrites
import Ceryx.Cpu.FsBase
import Ceryx.Lib.LittleEndian
import Ceryx.Fs.Getdents
import Ceryx.Lib.View
import Ceryx.Fs.NameViews
import Ceryx.Fs.FileRuns
import Ceryx.Fs.Truncated
import Ceryx.Fs.FailedWrite
import Ceryx.Fs.FileEnds
import Ceryx.Proc.Brk
import Ceryx.Proc.Execve
import Ceryx.Cpu.CleanStart
import Ceryx.Cpu.FaultProgress
import Ceryx.Lib.RefCounts
import Ceryx.Proc.FailedFork
import Ceryx.Lib.ByteMem
import Ceryx.Cpu.SyscallDispatch
import Ceryx.Lib.Tiling
import Ceryx.Mm.MemoryManager
import Ceryx.Lib.LongDivision
import Ceryx.Fs.DirentLayout
import Ceryx.Fs.RecordWalk
import Ceryx.Rt.CompilerRt
import Ceryx.Fs.FdCalls
import Ceryx.Fs.ClosedFds
import Ceryx.Fs.FailedOpen
import Ceryx.Fs.BrokenPipe
import Ceryx.Fs.Seek
import Ceryx.Cpu.ContextSwitch
import Ceryx.Fs.SplitIo
import Ceryx.Fs.VectoredIo
import Ceryx.Fs.VectoredWrites
import Ceryx.Fs.VectoredCalls
import Ceryx.Fs.PathResolution
import Ceryx.Fs.Directories
import Ceryx.Proc.WakeOrder
import Ceryx.Proc.Levels
import Ceryx.Cpu.SignalStack
import Ceryx.Fs.FileDestroy
import Ceryx.Fs.CpioReads
import Ceryx.Proc.ElfReads
import Ceryx.Lib.Overlay
import Ceryx.Proc.ElfImage
import Ceryx.Dev.ConsoleFrame
import Ceryx.Cpu.TablesRead
import Ceryx.Cpu.Traps
import Ceryx.Proc.KernelHalf
import Ceryx.Proc.LineRefines
import Ceryx.Proc.InitImage
import Ceryx.Proc.WaitStatus
import Ceryx.Fs.HeldEnds
