import QuesOs.LinkedRing
import QuesOs.BlockRow
import QuesOs.DyadicTiling
import QuesOs.StandardMalloc
import QuesOs.StandardMallocRuns
import QuesOs.StandardMallocConservation
import QuesOs.BuddyMalloc
import QuesOs.BuddyMallocRuns
import QuesOs.BuddyMallocBytes
import QuesOs.BuddyMallocFrame
import QuesOs.Resumption
import QuesOs.Threads
import QuesOs.KernelState
import QuesOs.Kernel
import QuesOs.KernelSystem
import QuesOs.KernelActions
import QuesOs.SemaphoreActions
import QuesOs.PipeActions
import QuesOs.ProcessTable
import QuesOs.ProcessActions
import QuesOs.Deeds
import QuesOs.Turns
import QuesOs.Calls
import QuesOs.Scheduler
import QuesOs.Reachable
import QuesOs.Lifecycle
import QuesOs.PipeTable
import QuesOs.RoundRobin
import QuesOs.Quiet
import QuesOs.Numbering
import QuesOs.Philosophers
import QuesOs.PhilosopherStates
import QuesOs.Families
import QuesOs.Waiters
import QuesOs.WaitQueues
import QuesOs.Shortage
import QuesOs.Keyboard
import QuesOs.NamedSemaphores
import QuesOs.Locks
import QuesOs.Attachments
import QuesOs.Console
import QuesOs.ConsoleLayout
import QuesOs.Elementary
import QuesOs.BuddyMallocRequests
import QuesOs.BuddyMallocOrders
import QuesOs.BuddyMallocReport
import QuesOs.BuddyMallocStacks
import QuesOs.MemoryRead
import QuesOs.Numerals
import QuesOs.UserlandNumbers
import QuesOs.Places
import QuesOs.Lookups
import QuesOs.Children
import QuesOs.Occurrences
import QuesOs.Reparenting
import QuesOs.Foreground
import QuesOs.StandardMallocStrays
import QuesOs.PipeMutex
import QuesOs.SemaphoreCreation
import QuesOs.SemaphoreInfo
import QuesOs.Served
import QuesOs.QueueNodes
import QuesOs.SchedulerNodes
import QuesOs.PipeInfo
import QuesOs.HeapBlocks
import QuesOs.PipeBlocks
import QuesOs.LinkedQueue
import QuesOs.Shell
import QuesOs.ShellEcho
import QuesOs.UserlandPrintf
import QuesOs.UserlandFormats
import QuesOs.Printmem
import QuesOs.KernelNumbers
import QuesOs.KernelPrintf
import QuesOs.Undoing
import QuesOs.Counting
import QuesOs.SemaphoreBooks
import QuesOs.Units
import QuesOs.Reaping
import QuesOs.RingBuffer
import QuesOs.Accounts
import QuesOs.PipeFlow
import QuesOs.ChildWaits
import QuesOs.Images
import QuesOs.FirstFit
import QuesOs.Bmfs
import QuesOs.BmfsDirectory
import QuesOs.BmfsPlacement
import QuesOs.BmfsCreate
import QuesOs.BmfsStore
import QuesOs.BmfsRuns
