import Os2018.Whatsapp.Codec
import Os2018.Whatsapp.Registry
import Os2018.Whatsapp.Matching
import Os2018.Uthreads.Waiting
import Os2018.Uthreads.Preemption
import Os2018.Uthreads.Contexts
import Os2018.MapReduce.Grouping
import Os2018.Whatsapp.Iteration
import Os2018.Whatsapp.Descriptors
import Os2018.MapReduce.Rounds
import Os2018.Uthreads.Masking
import Os2018.Uthreads.Ids
import Os2018.Whatsapp.Exchange
import Os2018.Whatsapp.GroupCreation
import Os2018.Whatsapp.Ports
import Os2018.Uthreads.Allocation
import Os2018.MapReduce.Blocks
import Os2018.VirtualMemory.FreeFrames
import Os2018.VirtualMemory.Eviction
import Os2018.Uthreads.Quanta
import Os2018.Uthreads.Atomicity
import Os2018.VirtualMemory.Swapping
import Os2018.VirtualMemory.Unlinking
import Os2018.VirtualMemory.Translation
import Os2018.MapReduce.Termination
import Os2018.MapReduce.Agreement
import Os2018.Whatsapp.ChatLog
import Os2018.Uthreads.History
import Os2018.Whatsapp.Membership
