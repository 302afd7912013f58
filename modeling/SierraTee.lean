import SierraTee.Lib.Runs
import SierraTee.Lib.Word
import SierraTee.Lib.Intervals
import SierraTee.Lib.Bytes
import SierraTee.Buddy.Recover
import SierraTee.Params.RoundTrip
import SierraTee.Params.Deliver
import SierraTee.Crypto.Verify
import SierraTee.Service.Echo
import SierraTee.Driver.Apart
import SierraTee.Monitor.WorldRuns
import SierraTee.Kernel.Running
import SierraTee.Kernel.WaitExit
import SierraTee.Kernel.SemWait
import SierraTee.Kernel.MutexWait
import SierraTee.Dispatch.Restart
import SierraTee.Paging.Shared
import SierraTee.Paging.Inverse
import SierraTee.Paging.Teardown
import SierraTee.Paging.L2Pool
import SierraTee.Pages.HandedOut
import SierraTee.Timers.Clock
import SierraTee.Timers.Tick
import SierraTee.Timers.Order
import SierraTee.Shm.Attached
import SierraTee.Dispatch.Served
import SierraTee.Notify.DeviceFile
import SierraTee.Notify.Record
import SierraTee.Notify.Wake
import SierraTee.Guests.Isolation
import SierraTee.Session.Opened
import SierraTee.Session.Close
import SierraTee.Otzc.Commands
import SierraTee.Otzc.Agreement
import SierraTee.Api.Sessions
import SierraTee.Api.Operations
import SierraTee.Api.Blocks
import SierraTee.Acl.GlobalAcl
import SierraTee.Names.Identify
import SierraTee.Arith.Astray
import SierraTee.Params.SecureEncode
import SierraTee.Syscall.Kill
import SierraTee.Syscall.Files
import SierraTee.Crypto.Bounds
import SierraTee.Crypto.Copy
import SierraTee.Crypto.Lifecycle
import SierraTee.Service.CryptoAnswer
import SierraTee.Common.Remainder
import SierraTee.Arith.Octets
import SierraTee.Arith.Modular
import SierraTee.Buddy.Atomic
import SierraTee.Buddy.TreeSet
import SierraTee.Heap.Teardown
import SierraTee.Buddy.Resize
import SierraTee.Heap.Realloc
import SierraTee.Kernel.StackGuards
import SierraTee.Kernel.WakeAll
import SierraTee.Names.Delete
import SierraTee.Otzc.Contexts
import SierraTee.Otzc.Mappings
import SierraTee.Params.References
import SierraTee.Params.Responses
import SierraTee.Timers.Convert
import SierraTee.Timers.Program
import SierraTee.Timers.Sleep
import SierraTee.Common.Copying
import SierraTee.Shell.Editor
import SierraTee.Shell.Environment
import SierraTee.Common.Printing
import SierraTee.Params.EncodeBlocks
import SierraTee.Service.NsMappings
import SierraTee.Otzc.Invocation
import SierraTee.Kernel.ReleaseCode
import SierraTee.Arith.Shifts
import SierraTee.Heap.Break
