import Kfs.Lib.Word
import Kfs.Lib.Bytes
import Kfs.Lib.Marks
import Kfs.Lib.Exec
import Kfs.Lib.Program
import Kfs.Lib.Runs
import Kfs.Lib.Chain
import Kfs.Lib.Tiling
import Kfs.Lib.Gaps
import Kfs.Lib.Numeral
import Kfs.Lib.Escape
import Kfs.Lib.CString
import Kfs.Lib.Terminal
import Kfs.Machine
import Kfs.Port
import Kfs.Pmm
import Kfs.PmmInv
import Kfs.PmmSize
import Kfs.Paging
import Kfs.PagingInv
import Kfs.PagingRun
import Kfs.Isolation
import Kfs.UserPages
import Kfs.KHeap
import Kfs.KHeapInv
import Kfs.KHeapRun
import Kfs.KHeapOrder
import Kfs.KHeapUsed
import Kfs.KHeapFit
import Kfs.KHeapSize
import Kfs.KHeapBreak
import Kfs.KHeapAccept
import Kfs.Vmem
import Kfs.Memory
import Kfs.MemoryInv
import Kfs.VmemInv
import Kfs.VmemSpec
import Kfs.VmemRun
import Kfs.Frames
import Kfs.FrameRun
import Kfs.FrameOwner
import Kfs.LineFrames
import Kfs.VmemZone
import Kfs.VmemTiles
import Kfs.VmemReuse
import Kfs.Fence
import Kfs.CrossFree
import Kfs.VmemWrap
import Kfs.DoubleFree
import Kfs.Shell
import Kfs.ShellInv
import Kfs.ShellRun
import Kfs.Mmu
import Kfs.MmuInv
import Kfs.MmuRun
import Kfs.MmuMap
import Kfs.FarSplit
import Kfs.VbrkRun
import Kfs.Boot
import Kfs.BootRun
import Kfs.Screen
import Kfs.ScreenInv
import Kfs.ScreenSwitch
import Kfs.ScreenRestore
import Kfs.ScreenEdit
import Kfs.ScreenShow
import Kfs.ScreenCursor
import Kfs.Keyboard
import Kfs.KeyboardRun
import Kfs.Printf
import Kfs.Format
import Kfs.ScreenWrap
import Kfs.ScreenBounds
import Kfs.Decimal
import Kfs.Literal
import Kfs.ReadBack
import Kfs.CommandLine
import Kfs.CommandRun
import Kfs.Command
import Kfs.Typing
import Kfs.Interrupt
import Kfs.Guard
import Kfs.Kernel
import Kfs.KernelRun
import Kfs.KernelKeys
import Kfs.Keystrokes
import Kfs.ScreenSheet
import Kfs.Irq
import Kfs.KernelBoot
import Kfs.Transcript
import Kfs.HeapTests
