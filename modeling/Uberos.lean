import Uberos.Library.Cells
import Uberos.Library.Coverage
import Uberos.Library.Linked
import Uberos.Library.Neighbours
import Uberos.Library.Run
import Uberos.Library.Span
import Uberos.Library.TwoLevel
import Uberos.Library.Scan
import Uberos.Library.Ranked
import Uberos.Library.First
import Uberos.Library.Stores
import Uberos.Library.Counted
import Uberos.Library.Walk
import Uberos.Library.Words
import Uberos.Target
import Uberos.LList
import Uberos.LList.Calls
import Uberos.LList.Sequence
import Uberos.PodArray
import Uberos.PodArray.Storage
import Uberos.PodArray.Sequence
import Uberos.ListOrdered.Buffer
import Uberos.ListOrdered.Sequence
import Uberos.String
import Uberos.String.Buffer
import Uberos.String.Appended
import Uberos.Stdlib
import Uberos.Stdlib.Memcpy
import Uberos.Stdlib.Memmove
import Uberos.Stdlib.Search
import Uberos.Stdlib.Decimal
import Uberos.Maths.Fixed
import Uberos.Maths.Sqrt
import Uberos.AllocationMask.Model
import Uberos.AllocationMask.Search
import Uberos.AllocationMask.Claimed
import Uberos.AllocationMask.Exclusive
import Uberos.AllocationMask.Lossless
import Uberos.AllocationMask.Cursors
import Uberos.Memory.MaskStorage
import Uberos.MemoryPool.Model
import Uberos.MemoryPool.Blocks
import Uberos.MemoryPool.Calls
import Uberos.MemoryPool.Extents
import Uberos.MemoryPool.Accounting
import Uberos.MemoryPool.BestFit
import Uberos.MemoryPool.Compaction
import Uberos.MemoryPool.Requests
import Uberos.MemoryPool.Growth
import Uberos.PageRuns.Model
import Uberos.PageRuns.Partition
import Uberos.Mmu.Model
import Uberos.Mmu.Tables
import Uberos.Mmu.Pages
import Uberos.Mmu.Ranges
import Uberos.Mmu.Sequence
import Uberos.Mmu.Options
import Uberos.Mmu.Permissions
import Uberos.Mmu.Reading
import Uberos.Mmu.PoolSize
import Uberos.Memory.Model
import Uberos.Memory.Claimed
import Uberos.Memory.Exhaustion
import Uberos.Memory.Physical
import Uberos.DriverApi.Model
import Uberos.DriverApi.Covered
import Uberos.DriverApi.Lifecycle
import Uberos.DriverApi.Exclusive
import Uberos.DriverApi.Mapped
import Uberos.DriverReference.Model
import Uberos.DriverReference.Registered
import Uberos.DriverReference.Released
import Uberos.DriverEvents.Model
import Uberos.DriverEvents.Alternating
import Uberos.Bitmask.Model
import Uberos.Bitmask.Refined
import Uberos.Subscriptions.Model
import Uberos.Subscriptions.Irqs
import Uberos.Subscriptions.Frame
import Uberos.Subscriptions.Interrupts
import Uberos.Subscriptions.Teardown
import Uberos.Subscriptions.Devices
import Uberos.Exceptions.Irqs
import Uberos.Exceptions.Gate
import Uberos.Disassemble.Arm64
import Uberos.Pic8259.Model
import Uberos.Pic8259.Masks
import Uberos.Pic8259.Spurious
import Uberos.Dispatch.Model
import Uberos.Dispatch.Reentrant
import Uberos.CpuScheduler.Model
import Uberos.CpuScheduler.Membership
import Uberos.CpuScheduler.Priority
import Uberos.CpuScheduler.Turns
import Uberos.CpuScheduler.Slice
import Uberos.Timer.Ownership
import Uberos.Hpet.Model
import Uberos.Hpet.Deadline
import Uberos.TimerQueue.Model
import Uberos.SleepTimer.Model
import Uberos.SleepTimer.Waiting
import Uberos.SleepTimer.WakeUps
import Uberos.TimerQueue.Delivery
import Uberos.TimerQueue.Placed
import Uberos.SleepTimer.Sorted
import Uberos.EventEmitter.Model
import Uberos.EventEmitter.Snapshot
import Uberos.Lock.Flat
import Uberos.Lock.Recursive
import Uberos.MpscFifo.Model
import Uberos.MpscFifo.Ordered
import Uberos.StorageManager.Model
import Uberos.StorageManager.Names
import Uberos.StorageManager.Answers
import Uberos.Multiboot.Model
import Uberos.Multiboot.Walks
import Uberos.Multiboot.HeapSize
import Uberos.Ps2Keyboard.Model
import Uberos.Ps2Keyboard.Stream
import Uberos.Ps2Mouse.Model
import Uberos.Ps2Mouse.Stream
import Uberos.Ps2Mouse.Events
import Uberos.Pci.Model
import Uberos.Pci.Registers
import Uberos.Pci.Scan
import Uberos.Pci.Bars
import Uberos.Pci.Sizing
import Uberos.Smbios.Model
import Uberos.Smbios.Walk
import Uberos.Acpi.RootTable
import Uberos.Acpi.Rsdp
import Uberos.Ide.Polling
import Uberos.Ide.ReadData
import Uberos.Ide.InfoBlock
import Uberos.Mailbox.SendMessages
import Uberos.Graphics2d.Buffer
import Uberos.Graphics2d.Encoding
import Uberos.Graphics2d.Pixels
import Uberos.Graphics2d.Accessed
import Uberos.Graphics2d.Drawing
import Uberos.Graphics2d.Scrolled
import Uberos.Graphics2d.RoundedFill
import Uberos.Graphics2d.Copied
import Uberos.DisplayManager.Model
import Uberos.DisplayManager.Scan
import Uberos.DisplayManager.Paint
import Uberos.DisplayManager.Compose
import Uberos.DisplayManager.Stack
import Uberos.DisplayManager.Composed
import Uberos.DisplayManager.Resized
import Uberos.DisplayManager.Stacking
import Uberos.DisplayManager.Blending
import Uberos.DisplayManager.Unwrapped
import Uberos.DisplayManager.Composited
import Uberos.DisplayManager.Background
import Uberos.DisplayManager.Blit
import Uberos.DisplayManager.Sectioned
import Uberos.DisplayManager.RowSections
import Uberos.Graphics2d.Layout
import Uberos.Graphics2d.Measured
import Uberos.Multiboot.Framebuffer
import Uberos.DisplayManager.Transparency
import Uberos.DisplayManager.Updated
import Uberos.DisplayManager.Lifetime
import Uberos.DisplayManager.Framebuffers
import Uberos.DesktopManager.Model
import Uberos.DesktopManager.Strips
import Uberos.DesktopManager.Moves
import Uberos.DesktopManager.Area
import Uberos.DesktopManager.Closing
import Uberos.DesktopManager.Tiled
import Uberos.DesktopManager.Leaving
import Uberos.DesktopManager.Sides
import Uberos.DesktopManager.Docked
import Uberos.DesktopManager.Updates
import Uberos.DesktopManager.Calls
import Uberos.DesktopManager.Cursors
import Uberos.DesktopManager.Dragging
import Uberos.Textmode.Model
import Uberos.Textmode.Events
import Uberos.Textmode.Lines
import Uberos.Textmode.Unwrapped
import Uberos.Textmode.Words
import Uberos.Textmode.Written
import Uberos.Textmode.Scroll
import Uberos.Console.Gets
import Uberos.Logging.History
import Uberos.ConsoleOut.Model
import Uberos.ConsoleOut.WriteText
import Uberos.Ui2d.WrapBox
import Uberos.Cli.ResolvePath
import Uberos.FileStash.Model
import Uberos.FileStash.Listing
import Uberos.FileStash.Lookup
import Uberos.Clock.CmosRtc
import Uberos.System.Descriptors
import Uberos.Ui2d.Buttons
