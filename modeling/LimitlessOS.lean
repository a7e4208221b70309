import LimitlessOS.Vma.Searches
import LimitlessOS.Capability.Isolation
import LimitlessOS.Capability.Lease
import LimitlessOS.Ramfs.Contents
import LimitlessOS.Fs.Handles
import LimitlessOS.Fs.Instances
import LimitlessOS.Fs.Revocation
import LimitlessOS.Fs.Syscalls
import LimitlessOS.Fd.Slots
import LimitlessOS.Auth.FailsClosed
import LimitlessOS.Signal.RoundTrip
import LimitlessOS.Signal.Selection
import LimitlessOS.Sched.Contexts
import LimitlessOS.Sched.Futex
import LimitlessOS.Sched.HandOff
import LimitlessOS.Pipe.Wakeups
import LimitlessOS.Pipe.Generations
import LimitlessOS.Pipe.Poll
import LimitlessOS.Pipe.Budget
import LimitlessOS.Process.Family
import LimitlessOS.Process.Pids
import LimitlessOS.Process.Waiting
import LimitlessOS.Linux.Paths
import LimitlessOS.Linux.UserBuffers
import LimitlessOS.Elf.InitialStack
import LimitlessOS.Vfs.Inherit
import LimitlessOS.Vfs.Sharing
import LimitlessOS.Fat.Blocks
import LimitlessOS.Ipc.Endpoints
import LimitlessOS.Net.Checksum
