import Dem64.Lib.ByteBits
import Dem64.Lib.Ledger
import Dem64.Lib.Run
import Dem64.Lib.Radix
import Dem64.Lib.Fuel
import Dem64.Lib.Dll
import Dem64.Lib.Forest
import Dem64.Lib.Tiling
import Dem64.Memory.Bitmap
import Dem64.Memory.Frame
import Dem64.Paging.Machine
import Dem64.Paging.Primitive
import Dem64.Paging.Entry
import Dem64.Paging.Tree
import Dem64.Paging.Address
import Dem64.Paging.Step
import Dem64.Paging.Fill
import Dem64.Paging.Create
import Dem64.Paging.Mapping
import Dem64.Paging.Split
import Dem64.Paging.Destroy
import Dem64.Paging.Unmapping
import Dem64.Memory.Valloc
import Dem64.Memory.Hint
import Dem64.Memory.RangeMarking
import Dem64.VaAlloc.State
import Dem64.VaAlloc.Pages
import Dem64.VaAlloc.Tree
import Dem64.VaAlloc.Shape
import Dem64.VaAlloc.Calls
import Dem64.VaAlloc.Init
import Dem64.VaAlloc.Partition
import Dem64.VaAlloc.Roots
import Dem64.VaAlloc.NoMemory
import Dem64.VaAlloc.Undo
import Dem64.VaAlloc.Reach
import Dem64.Paging.Accounting
import Dem64.Lib.CycleRing
import Dem64.Usb.Event
import Dem64.Usb.Ep0
import Dem64.Usb.Ep0Ring
import Dem64.Usb.Command
import Dem64.Usb.Completion
import Dem64.Lib.Lseg
import Dem64.Lib.Ends
import Dem64.Paging.Whole
import Dem64.Paging.Region
import Dem64.Dma.Pool
import Dem64.Dma.World
import Dem64.Dma.Extents
import Dem64.Dma.Growth
import Dem64.Dma.Release
import Dem64.Dma.Reclaim
import Dem64.Dma.Descriptor
import Dem64.Dma.Claim
import Dem64.Dma.Reuse
import Dem64.Dma.Backing
import Dem64.Dma.Growing
import Dem64.Dma.Failure
import Dem64.Dma.Live
import Dem64.Dma.Runs
import Dem64.Dma.Separate
import Dem64.Dma.OwnRelease
import Dem64.Dma.PhysToVirt
import Dem64.Memory.E820
import Dem64.Usb.CommandRing
import Dem64.Usb.EventLoop
import Dem64.Usb.Transfer
import Dem64.Host.Chains
import Dem64.Uhci.FrameList
import Dem64.Ehci.Schedule
import Dem64.Host.Addresses
import Dem64.Host.Responses
import Dem64.Ohci.Reap
import Dem64.Memory.Vmalloc
import Dem64.Ata.Safety
import Dem64.Ata.RoundTrip
import Dem64.Ata.Identification
import Dem64.Pci.Paths
import Dem64.Display.Damage
import Dem64.Display.Format
import Dem64.Display.Console
import Dem64.Display.Printf
import Dem64.Display.Glyphs
import Dem64.Keyboard.Scancodes
import Dem64.Memory.Init
import Dem64.Paging.Top
import Dem64.Paging.Access
import Dem64.Kmalloc.Cache
import Dem64.Kmalloc.Heap
import Dem64.Memory.Sizes
import Dem64.Kmalloc.Bookkeeping
import Dem64.Usb.Portsc
import Dem64.Uhci.Endpoints
import Dem64.Usb.Controllers
import Dem64.Usb.Interfaces
import Dem64.Usb.Atomic
import Dem64.Usb.Accounts
import Dem64.Acpi.Rsdp
import Dem64.Acpi.Tables
import Dem64.Acpi.IoApic
import Dem64.Acpi.S5
import Dem64.Timers.Wait
import Dem64.Uhci.Init
import Dem64.Lib.Chain
import Dem64.Lib.Watched
import Dem64.Pci.Access
import Dem64.Pci.BarSize
import Dem64.Pci.BarProbe
import Dem64.Pci.Ecam
import Dem64.Pci.Capability
import Dem64.Ehci.Ownership
import Dem64.Usb.ExtCaps
import Dem64.Pci.BootPath
import Dem64.Efi.Segment
import Dem64.Bios.Services
import Dem64.Bios.Directory
import Dem64.Bios.Kernel
import Dem64.Bios.Placement
import Dem64.Paging.Setup
import Dem64.Lib.Traces
import Dem64.Pci.Concurrent
import Dem64.Ata.Concurrent
import Dem64.Timers.Rtc
import Dem64.Keyboard.Controller
import Dem64.Keyboard.Buffer
import Dem64.Memory.MapReport
