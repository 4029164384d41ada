import Lord84.Theory.Outcome
import Lord84.Theory.Memory
import Lord84.Theory.FreeList
import Lord84.Theory.RadixTree
import Lord84.Lib.Support
import Lord84.Mm.Pmm
import Lord84.Mm.PmmInit
import Lord84.Mm.PmmRun
import Lord84.Mm.Paging
import Lord84.Mm.Vmm
import Lord84.Mm.VmmTables
import Lord84.Mm.VmmRun
import Lord84.Mm.VmmInit
import Lord84.Mm.KernelMap
import Lord84.Mm.Kmalloc
import Lord84.Mm.KmallocRun
import Lord84.Scheduler.Sched
import Lord84.Scheduler.SchedRun
import Lord84.Sys.Pci
import Lord84.Sys.PciRun
import Lord84.Sys.PciRegistry
import Lord84.Sys.PciScan
import Lord84.Hal.Idt
import Lord84.Hal.IdtRun
import Lord84.Lib.Stdio
import Lord84.Lib.StdioSinks
import Lord84.Hal.Interrupts
import Lord84.Hal.InterruptsRun
import Lord84.Mm.KmallocZero
import Lord84.Mm.KmallocRealloc
import Lord84.Mm.KernelAlloc
import Lord84.Mm.KernelAllocRun
import Lord84.Mm.PmmComplete
import Lord84.Sys.PciDevice
import Lord84.Sys.Acpi
import Lord84.Theory.Loop
import Lord84.Sys.AcpiMadt
import Lord84.Hal.IsrStubs
import Lord84.Scheduler.SwitchContext
import Lord84.Mm.VmmUnmap
import Lord84.Drivers.Ahci
import Lord84.Drivers.Pmt
import Lord84.Hal.Ioapic
import Lord84.Lib.FormatLanguage
import Lord84.Hal.Tsc
import Lord84.Mm.VmmRange
import Lord84.Sys.UacpiKernelApi
import Lord84.Mm.RootTable
import Lord84.Theory.Reads
import Lord84.Theory.SpinLock
import Lord84.Sys.AcpiReads
import Lord84.Lib.Memmove
import Lord84.Lib.Numerals
import Lord84.Mm.PmmSmp
import Lord84.Lib.StdioSmp
import Lord84.Drivers.Serial
import Lord84.Hal.Gdt
import Lord84.Hal.Apic
import Lord84.Theory.Threads
import Lord84.Mm.KmallocTable
import Lord84.Mm.KmallocSmp
import Lord84.Hal.Smp
import Lord84.Scheduler.SchedMemory
import Lord84.Hal.ApicInit
import Lord84.Hal.ApicMap
import Lord84.Hal.IdtSmp
