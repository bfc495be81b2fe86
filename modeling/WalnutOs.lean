import WalnutOs.Lib.Run
import WalnutOs.Lib.Fifo
import WalnutOs.Lib.Bits
import WalnutOs.Lib.Chain
import WalnutOs.Lib.Search
import WalnutOs.Lib.Tiling
import WalnutOs.Lib.Live
import WalnutOs.Lib.Window
import WalnutOs.Lib.Yields
import WalnutOs.Lib.Tokens
import WalnutOs.Lib.Fields
import WalnutOs.Lib.Cursor
import WalnutOs.Lib.Records
import WalnutOs.Klib.CircularBuffer
import WalnutOs.Klib.CircularContents
import WalnutOs.Klib.Bitmap
import WalnutOs.Klib.BitmapIterator
import WalnutOs.Klib.Memset
import WalnutOs.Klib.Console
import WalnutOs.Klib.ConsoleBounds
import WalnutOs.Klib.ConsoleNumbers
import WalnutOs.Klib.IntrusiveList
import WalnutOs.Klib.Keyboard
import WalnutOs.Klib.Strings
import WalnutOs.Klib.StringNumbers
import WalnutOs.Klib.StringTokens
import WalnutOs.Klib.StringObservers
import WalnutOs.Klib.Ahci
import WalnutOs.Klib.AhciSlots
import WalnutOs.Klib.AhciErrors
import WalnutOs.Klib.AhciCommand
import WalnutOs.Klib.Drive
import WalnutOs.Klib.Pci
import WalnutOs.Klib.PciConfig
import WalnutOs.Klib.PciEnumeration
import WalnutOs.Klib.Prdt
import WalnutOs.Klib.BufferCache
import WalnutOs.Klib.BufferOwners
import WalnutOs.Klib.BufferContents
import WalnutOs.Kernel.Timer
import WalnutOs.Kernel.PageTables
import WalnutOs.Kernel.Ext2.Superblock
import WalnutOs.Kernel.Ext2.DirectoryEntry
import WalnutOs.Kernel.PageMap
import WalnutOs.Kernel.Alloc
import WalnutOs.Kernel.AllocLists
import WalnutOs.Kernel.AllocIndex
import WalnutOs.Kernel.AllocPartition
import WalnutOs.Kernel.AllocLoops
import WalnutOs.Kernel.AllocSplit
import WalnutOs.Kernel.AllocMerge
import WalnutOs.Kernel.AllocRun
import WalnutOs.Kernel.AllocFrees
import WalnutOs.Kernel.AllocRegion
import WalnutOs.Kernel.AllocClass
import WalnutOs.Kernel.AllocCoalesce
import WalnutOs.Klib.DynArray
import WalnutOs.Kernel.AllocLinks
import WalnutOs.Wnfs.Cache
import WalnutOs.Wnfs.CacheMask
import WalnutOs.Wnfs.CacheCoherence
import WalnutOs.Wnfs.CacheStores
import WalnutOs.Wnfs.CacheRefinement
import WalnutOs.Wnfs.CacheAddresses
import WalnutOs.Wnfs.Layout
import WalnutOs.Wnfs.TagBitmap
import WalnutOs.Wnfs.FileSystem
import WalnutOs.Wnfs.FileEffects
import WalnutOs.Wnfs.FileContents
import WalnutOs.Wnfs.INodes
import WalnutOs.Wnfs.CreateFile
import WalnutOs.Wnfs.CreateFailure
import WalnutOs.Wnfs.CreateName
import WalnutOs.Wnfs.CrashConsistency
import WalnutOs.Wnfs.Isolation
import WalnutOs.Wnfs.Reboot
import WalnutOs.Wnfs.SectorSearch
import WalnutOs.Wnfs.AllocateSectors
import WalnutOs.Wnfs.SectorRanges
import WalnutOs.Wnfs.SectorAccess
import WalnutOs.Wnfs.ReadFile
import WalnutOs.Wnfs.CacheView
import WalnutOs.Wnfs.WriteFile
import WalnutOs.Wnfs.WriteEffects
import WalnutOs.Vfs.FileHandle
import WalnutOs.Vfs.OpenFile
import WalnutOs.Vfs.RoundTrip
import WalnutOs.Userspace.Shell
import WalnutOs.Userspace.ShellKeys
import WalnutOs.Userspace.ShellInput
import WalnutOs.Userspace.Command
import WalnutOs.Userspace.ShellLines
import WalnutOs.Lib.StackFrame
import WalnutOs.Lib.Updates
import WalnutOs.Lib.Paper
import WalnutOs.Klib.ConsoleText
import WalnutOs.Klib.AhciDevice
import WalnutOs.Klib.AhciTransfers
import WalnutOs.Klib.AhciDrive
import WalnutOs.Klib.IdtStubs
import WalnutOs.Klib.Idt
import WalnutOs.Klib.Pic
import WalnutOs.Kernel.Interrupts
import WalnutOs.Kernel.Mmu
import WalnutOs.Kernel.KernelMemory
import WalnutOs.Lib.TwoPowers
import WalnutOs.Kernel.AllocCapacity
