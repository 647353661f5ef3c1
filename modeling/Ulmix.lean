import Ulmix.Lib.Word
import Ulmix.Lib.Ram
import Ulmix.Lib.Exec
import Ulmix.Lib.Numeral
import Ulmix.Lib.Dll
import Ulmix.Lib.Tiling
import Ulmix.Sched.Sync
import Ulmix.Memory.Heap
import Ulmix.Memory.Headers
import Ulmix.Memory.Entries
import Ulmix.Memory.Allocating
import Ulmix.Memory.Freeing
import Ulmix.Memory.Lock
import Ulmix.Memory.Runs
import Ulmix.Memory.Blocks
import Ulmix.Memory.Shape
import Ulmix.Memory.Links
import Ulmix.Memory.RoundTrip
import Ulmix.Memory.Merging
import Ulmix.Memory.Fitting
import Ulmix.Lib.Overlay
import Ulmix.Arch.Tables
import Ulmix.Arch.Mapping
import Ulmix.Arch.Reach
import Ulmix.Arch.Translation
import Ulmix.Arch.Pfalloc
import Ulmix.Arch.Uncleared
import Ulmix.Arch.Memscan
import Ulmix.Arch.Boot
import Ulmix.Memory.Regions
import Ulmix.Memory.Unmapping
import Ulmix.Devices.Registry
import Ulmix.Devices.Partitions
import Ulmix.Devices.Ata
import Ulmix.Devices.AtaPorts
import Ulmix.Lib.I16550
import Ulmix.Devices.Serial
import Ulmix.Lib.X86
import Ulmix.Lib.ListStack
import Ulmix.Arch.Entry
import Ulmix.Arch.Syscall
import Ulmix.Lib.I8259
import Ulmix.Arch.Interrupts
import Ulmix.Lib.Descriptors
import Ulmix.Lib.Traps
import Ulmix.Arch.Gdt
import Ulmix.Arch.Idt
import Ulmix.Arch.Delivery
import Ulmix.Userspace.Syscalls
import Ulmix.Lib.Prog
import Ulmix.Lib.Sll
import Ulmix.Fs.Vfs
import Ulmix.Fs.Paths
import Ulmix.Fs.Ext2
import Ulmix.Fs.Accesses
import Ulmix.Fs.Volumes
import Ulmix.Fs.Exhaustion
import Ulmix.Fs.Builds
import Ulmix.Fs.Inodes
import Ulmix.Fs.Mount
import Ulmix.Fs.Loading
import Ulmix.Fs.Rollback
import Ulmix.Fs.FailedReads
import Ulmix.Fs.Faults
import Ulmix.Fs.Geometry
import Ulmix.Fs.Records
import Ulmix.Fs.Entries
import Ulmix.Fs.Tree
import Ulmix.Fs.Served
import Ulmix.Fs.UsedRecords
import Ulmix.Fs.Calls
import Ulmix.Fs.Placed
import Ulmix.Fs.DoMount
import Ulmix.Fs.OnDisk
import Ulmix.Fs.Reported
import Ulmix.Fs.Isolation
import Ulmix.Fs.Listing
import Ulmix.Fs.PathBounds
import Ulmix.Fs.Sound
import Ulmix.Fs.Resolution
import Ulmix.Fs.MountResult
import Ulmix.Fs.Printing
import Ulmix.Devices.Vga
import Ulmix.Devices.Cursor
import Ulmix.Devices.Pci
import Ulmix.Libc.Strings
import Ulmix.Libc.Kprintf
import Ulmix.Userspace.Shell
import Ulmix.Userspace.Getline
import Ulmix.Userspace.Libgen
import Ulmix.Userspace.Hexdump
import Ulmix.Userspace.Itoa
import Ulmix.Userspace.Sprintf
