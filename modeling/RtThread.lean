import RtThread.AlarmCalendar
import RtThread.AlarmRuns
import RtThread.AlignedAlloc
import RtThread.ChecksumAgreement
import RtThread.CompletionRuns
import RtThread.CondRuns
import RtThread.CounterLimits
import RtThread.DataQueueOrder
import RtThread.DataQueueWakeups
import RtThread.DeadlineRuns
import RtThread.DfsBinding
import RtThread.DfsLeaks
import RtThread.DfsOpenFiles
import RtThread.DfsTypes
import RtThread.DfsWorkdir
import RtThread.DirStreams
import RtThread.EventRuns
import RtThread.FinshCalls
import RtThread.FinshEscapes
import RtThread.FinshHeapRuns
import RtThread.FinshIncrementLine
import RtThread.FinshLiterals
import RtThread.FinshSymbols
import RtThread.FinshTextSize
import RtThread.HardTimerRuns
import RtThread.LogSessions
import RtThread.MemheapPoolRuns
import RtThread.MempoolBlocks
import RtThread.ModuleHeapRuns
import RtThread.ModuleRelocation
import RtThread.MshSplit
import RtThread.ObjectSystem
import RtThread.PipeWaiters
import RtThread.PosixNameRuns
import RtThread.PrintfConsole
import RtThread.PrintfNumbers
import RtThread.PriorityInheritance
import RtThread.RamfsNames
import RtThread.ReadyBitmap
import RtThread.RingBufferForce
import RtThread.RomfsLookup
import RtThread.RwlockTurns
import RtThread.SchedulerChoice
import RtThread.SerialDmaRuns
import RtThread.ShellHistory
import RtThread.SlabRuns
import RtThread.SmallMemSearch
import RtThread.ThreadLists
import RtThread.ThreadReclaim
import RtThread.TimerCheckEnds
import RtThread.TimerFlags
import RtThread.TimerRefinement
import RtThread.TimerThread
import RtThread.UsbEndpoints
import RtThread.UsbStorageMalformed
import RtThread.WaitOrder
import RtThread.YmodemCleanup
import RtThread.YmodemSessions
import RtThread.ZmodemBounds
import RtThread.ZmodemSender
