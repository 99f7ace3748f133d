import PeachOS.HeapChains
import PeachOS.PagingFlat
import PeachOS.Fat16File
import PeachOS.ProcessHeap
import PeachOS.ProcessMap
import PeachOS.TaskRuns
import PeachOS.KeyboardRuns
import PeachOS.TerminalRuns
import PeachOS.Interrupt
import PeachOS.PathParts
import PeachOS.FileRuns
import PeachOS.FileLeaks
import PeachOS.ProcessCurrent
import PeachOS.InterruptCode
import PeachOS.HeapRequests
import PeachOS.TaskRounds
import PeachOS.FileStream
import PeachOS.ElfFormat
import PeachOS.PathWhole
import PeachOS.DirectoryLoad
import PeachOS.DirectoryWalk
import PeachOS.SystemCalls
import PeachOS.CallEffects
import PeachOS.ShellRuns
import PeachOS.ClusterWalk
import PeachOS.ClusterReads
import PeachOS.FileLoad
import PeachOS.FileReads
import PeachOS.RootDirectory
import PeachOS.ClusterPositions
import PeachOS.VolumeCalls
import PeachOS.KernelOwners
import PeachOS.VolumeRefused
import PeachOS.Lib.Logged
import PeachOS.OpenLog
import PeachOS.OpenOwners
import PeachOS.OpenWalk
import PeachOS.OpenBalance
import PeachOS.DiskRequests
import PeachOS.PathBuffer
import PeachOS.ElfExtent
import PeachOS.ProcessSpaces
import PeachOS.AllocationRuns
import PeachOS.FreeRuns
import PeachOS.ArgumentStores
import PeachOS.SegmentMap
import PeachOS.SegmentTails
import PeachOS.ArgumentList
import PeachOS.ArgumentInjection
import PeachOS.InvokeCommand
import PeachOS.InvokeEnds
import PeachOS.Readline
import PeachOS.Printf
import PeachOS.Tokenizer
import PeachOS.ParseCommand
import PeachOS.ParseRuns
import PeachOS.UserShell
import PeachOS.PathFree
import PeachOS.HeapRefinement
import PeachOS.PagingTraffic
import PeachOS.TaskExit
import PeachOS.SavedRegisters
import PeachOS.CallResults
import PeachOS.TaskStrings
import PeachOS.Gdt
import PeachOS.Decimal
import PeachOS.FileNames
import PeachOS.Lib.Tokens
import PeachOS.TokenRuns
import PeachOS.TerminalLayout
import PeachOS.TerminalErase
import PeachOS.Ledger
import PeachOS.LedgerRuns
import PeachOS.Preemption
import PeachOS.Resumption
import PeachOS.UserStubs
import PeachOS.ClassicKeyboard
import PeachOS.TypedLine
import PeachOS.InterruptTables
import PeachOS.HeapEnd
import PeachOS.Tidy
import PeachOS.DirectoryTree
import PeachOS.TreeWalk
import PeachOS.TreeEntry
import PeachOS.FileByPath
import PeachOS.AddressSpace
import PeachOS.FileRest
import PeachOS.FileSession
import PeachOS.ProcessData
import PeachOS.TaskSpace
import PeachOS.ProgramLoad
import PeachOS.ProgramRuns
