import Faultloggerd.Allocator.Accounting
import Faultloggerd.AsyncStack.Attribution
import Faultloggerd.AsyncStack.Inheritance
import Faultloggerd.CoreFile.SizeEstimate
import Faultloggerd.Coredump.Accounting
import Faultloggerd.Coredump.Deadline
import Faultloggerd.Coredump.ExpiringSession
import Faultloggerd.Coredump.RejectedEvents
import Faultloggerd.Coredump.ResultLaw
import Faultloggerd.Coredump.Worker
import Faultloggerd.DumpCatcher.AsyncCount
import Faultloggerd.DumpCatcher.Framing
import Faultloggerd.DumpCatcher.HistoryIndependence
import Faultloggerd.Dwarf.Brackets
import Faultloggerd.Dwarf.EncodedPointer
import Faultloggerd.Dwarf.Evaluation
import Faultloggerd.Dwarf.OperandScaling
import Faultloggerd.Dwarf.Operands
import Faultloggerd.Dwarf.Recovery
import Faultloggerd.Dwarf.StraightLine
import Faultloggerd.Dwarf.TableSearch
import Faultloggerd.Dwarf.Termination
import Faultloggerd.Dwarf.WordAccess
import Faultloggerd.Elf.LoadBase
import Faultloggerd.EventLoop.ExecutionLaw
import Faultloggerd.Exidx.Refinement
import Faultloggerd.Formatter.JsonStack
import Faultloggerd.LiteDump.Agreement
import Faultloggerd.LiteDump.PipeTransfer
import Faultloggerd.LiteDump.StackPipe
import Faultloggerd.Lperf.RingBuffer
import Faultloggerd.Maps.Find
import Faultloggerd.Minidump.Backends
import Faultloggerd.Minidump.BitmapFilter
import Faultloggerd.Minidump.Isolation
import Faultloggerd.Minidump.ListExtents
import Faultloggerd.Minidump.MemoryLookup
import Faultloggerd.Minidump.Migration
import Faultloggerd.Minidump.NameText
import Faultloggerd.Minidump.Reparse
import Faultloggerd.MinidumpService.Settings
import Faultloggerd.PipeService.LiteDumperQuota
import Faultloggerd.PipeService.LitePerfSessions
import Faultloggerd.PipeService.SdkDumpLaw
import Faultloggerd.ServerLoop.StaleEvents
import Faultloggerd.SignalHandler.DumpableState
import Faultloggerd.SignalHandler.Installation
import Faultloggerd.StackPrinter.TreeLaw
import Faultloggerd.StackTable.Concurrent
import Faultloggerd.ThreadContext.Attribution
import Faultloggerd.ThreadContext.Wakeup
import Faultloggerd.Unwinder.FramePointer
import Faultloggerd.Unwinder.LocalAccess
import Faultloggerd.Unwinder.OfflineParser
import Faultloggerd.Unwinder.SkipLimit
import Faultloggerd.Unwinder.StepCache
