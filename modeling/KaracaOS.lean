import KaracaOS.StepRuns
import KaracaOS.Bitmap
import KaracaOS.Ownership
import KaracaOS.Paging
import KaracaOS.BootPaging
import KaracaOS.BootMap
import KaracaOS.FrameRuns
import KaracaOS.ReservedFrames
import KaracaOS.BuddySizes
import KaracaOS.BuddyBudget
import KaracaOS.FrameCounter
import KaracaOS.MemoryCalls
import KaracaOS.MemoryQuery
import KaracaOS.BootWalk
import KaracaOS.Fat16Paths
import KaracaOS.Fat16Resolution
import KaracaOS.FailedOpens
import KaracaOS.Scancodes
import KaracaOS.Terminal
import KaracaOS.TreeLookups
import KaracaOS.ReadBacks
import KaracaOS.HostileFiles
import KaracaOS.UnclearedFrames
import KaracaOS.Ext2Space
import KaracaOS.Ext2Mounts
import KaracaOS.Ext2Directory
import KaracaOS.Ext2FreshRoot
import KaracaOS.Ext2InodeCounts
import KaracaOS.Ext2Layout
import KaracaOS.Fat16Lookups
import KaracaOS.FormatRuns
import KaracaOS.FormatGrammar
import KaracaOS.FormatLengths
import KaracaOS.TerminalCursor
import KaracaOS.IdeSectors
import KaracaOS.Processes
import KaracaOS.BuddyStorage
import KaracaOS.BuddyRefines
import KaracaOS.ScancodeBuffer
import KaracaOS.BoundedCopies
import KaracaOS.KernelBoot
import KaracaOS.MachineStack
import KaracaOS.Interleavings
import KaracaOS.InterruptFrames
import KaracaOS.InterruptController
import KaracaOS.SystemCalls
import KaracaOS.Ext2Volumes
import KaracaOS.Keyboard
import KaracaOS.IdeDrives
import KaracaOS.MainProgram
import KaracaOS.Ext2Trees
