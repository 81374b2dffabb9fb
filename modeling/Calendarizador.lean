import Calendarizador.Guarantees.AllList
import Calendarizador.Guarantees.Benchmark
import Calendarizador.Guarantees.BitmapArray
import Calendarizador.Guarantees.BurstEstimate
import Calendarizador.Guarantees.CommandLine
import Calendarizador.Guarantees.ConditionVariables
import Calendarizador.Guarantees.DirectoryMap
import Calendarizador.Guarantees.Division
import Calendarizador.Guarantees.ElfLoader
import Calendarizador.Guarantees.ExitOrder
import Calendarizador.Guarantees.FailedCreate
import Calendarizador.Guarantees.FirstCome
import Calendarizador.Guarantees.HeapContents
import Calendarizador.Guarantees.IdleOutput
import Calendarizador.Guarantees.InodeBytes
import Calendarizador.Guarantees.InterruptQueue
import Calendarizador.Guarantees.LinkedLists
import Calendarizador.Guarantees.LoadAverage
import Calendarizador.Guarantees.MallocHeap
import Calendarizador.Guarantees.MutualExclusion
import Calendarizador.Guarantees.OpenInodeTable
import Calendarizador.Guarantees.PageAllocator
import Calendarizador.Guarantees.Partitions
import Calendarizador.Guarantees.PreemptionOrder
import Calendarizador.Guarantees.Priority
import Calendarizador.Guarantees.PriorityBounds
import Calendarizador.Guarantees.Reclamation
import Calendarizador.Guarantees.Representation
import Calendarizador.Guarantees.RoundRobin
import Calendarizador.Guarantees.ScratchArchive
import Calendarizador.Guarantees.SemaphoreUnits
import Calendarizador.Guarantees.ShortestJob
import Calendarizador.Guarantees.SleepInterleaving
import Calendarizador.Guarantees.SleepQueue
import Calendarizador.Guarantees.Statistics
import Calendarizador.Guarantees.Strings
import Calendarizador.Guarantees.UstarHeader
import Calendarizador.Guarantees.WaitingTime
