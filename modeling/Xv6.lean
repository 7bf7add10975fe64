import Xv6.Agreement
import Xv6.Logging.Crash
import Xv6.Icache.Reclaim
import Xv6.Proc.PageDirs
import Xv6.Syscall.UserWrites
import Xv6.Sem.Wakeups
import Xv6.Bio.Transparency
import Xv6.Pipe.Wakeups
import Xv6.Sched.Names
import Xv6.Sched.Threads
import Xv6.Sched.Times
import Xv6.Sched.Waiting
import Xv6.Sched.Blocking
import Xv6.Kalloc.Ownership
import Xv6.Console.Committed
import Xv6.Lock.Exclusion
import Xv6.Proc.Pids
import Xv6.Fs.DirectoryMap
import Xv6.Files.PipePages
import Xv6.Files.References
import Xv6.Fs.Quota
import Xv6.Fs.Resolution
import Xv6.Paging.Fork
import Xv6.Fs.Bitmap
import Xv6.Paging.Copyout
import Xv6.User.Grep
import Xv6.User.Head
import Xv6.Mp.Table
import Xv6.Lsh.Strtok
import Xv6.Paging.Mapping
import Xv6.Sched.Generator
import Xv6.User.Memmove
import Xv6.Bio.Lru
import Xv6.Logging.Recovery
