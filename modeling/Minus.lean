import Minus.Theory.Machine
import Minus.Theory.Ring
import Minus.Theory.Circles
import Minus.Theory.RingBuffer
import Minus.Theory.Tiling
import Minus.Theory.Bytes
import Minus.Theory.Rounding
import Minus.Theory.Cuts
import Minus.Theory.Slots
import Minus.Theory.RedBlack
import Minus.Theory.Layers
import Minus.Theory.Stateful
import Minus.Theory.Simulation
import Minus.Theory.Transfer
import Minus.Theory.Defaults
import Minus.Theory.Raster
import Minus.Theory.Numeral
import Minus.Theory.Mirror
import Minus.Theory.Occurrence
import Minus.Lib.Dlist
import Minus.Lib.DlistRun
import Minus.Lib.Bitops
import Minus.Lib.String
import Minus.Lib.Rbtree
import Minus.Lib.RbtreeRep
import Minus.Lib.RbtreeFixup
import Minus.Lib.RbtreeLoop
import Minus.Lib.RbtreeInsert
import Minus.Lib.RbtreeFind
import Minus.Lib.RbtreeDelete
import Minus.Lib.Vsprintf
import Minus.Core.Printk
import Minus.Core.Cap
import Minus.Core.CapRevocation
import Minus.Core.Sched
import Minus.Core.Thread
import Minus.Core.SchedPolicy
import Minus.Core.ThreadReap
import Minus.Core.Wait
import Minus.Core.Mmu
import Minus.Core.EarlyMmu
import Minus.Core.EarlyMmuMap
import Minus.Core.MmuMap
import Minus.Core.MmuPage
import Minus.Mm.Buddy
import Minus.Mm.BuddyCanonical
import Minus.Mm.BuddyAlloc
import Minus.Mm.BuddyLookups
import Minus.Mm.Slab
import Minus.Mm.SlabSafety
import Minus.Mm.Kmalloc
import Minus.Mm.PageConv
import Minus.Mm.Memblock
import Minus.Mm.MemblockAlloc
import Minus.Mm.MemblockFdt
import Minus.Lib.Fdt
import Minus.Core.Cmdline
import Minus.Driver.Of
import Minus.Driver.Platform
import Minus.Mm.SlabGeometry
import Minus.Mm.Vspace
import Minus.Mm.VspaceBooks
import Minus.Mm.VspaceLife
import Minus.Mm.VspaceMap
import Minus.Mm.VspaceIsolation
import Minus.Fs.LoadFile
import Minus.Proc.Loader
import Minus.Proc.LoaderImage
import Minus.Proc.LoaderBounds
import Minus.Theory.Prefix
import Minus.Theory.Reading
import Minus.Proc.LoaderReads
import Minus.Mm.Uaccess
import Minus.Mm.UaccessProt
import Minus.Mm.UaccessString
import Minus.Proc.SysExecve
import Minus.Driver.Block
import Minus.Driver.Virtqueue
import Minus.Driver.SdhciClock
import Minus.Driver.Gic
import Minus.Driver.Mmcblk
import Minus.Driver.Uart
import Minus.Driver.Device
import Minus.Fs.Ext4
import Minus.Fs.Ext4Map
import Minus.Fs.Ext4File
import Minus.Fs.Ext4FileIo
import Minus.Fs.Sysif
import Minus.Fs.Ext4Extent
import Minus.Fs.Ext4Tree
import Minus.Fs.Ext4Super
import Minus.Fs.Ext4Mount
import Minus.Fs.Ext4MountFail
import Minus.Fs.Ext4Inode
import Minus.Fs.Dcache
import Minus.Fs.DcacheTree
import Minus.Fs.Vfs
import Minus.Fs.PathNames
import Minus.Fs.WalkBalance
import Minus.Fs.WalkFail
import Minus.Fs.RelativeNames
import Minus.Fs.VfsSafety
import Minus.Fs.VfsRun
import Minus.Fs.WalkRefs
import Minus.Fs.Umount
import Minus.Fs.Directories
import Minus.Fs.Unlinked
import Minus.Fs.Fdtable
import Minus.Fs.FdtableRun
import Minus.Proc.Process
import Minus.Proc.LoaderPages
import Minus.Proc.ProcessBooks
import Minus.Proc.ProcessRun
import Minus.Proc.Mirrors
import Minus.Proc.Isolation
import Minus.Fs.Ext4Dir
import Minus.Fs.Namei
import Minus.Fs.NameiWalk
import Minus.Fs.InodeCount
import Minus.Fs.DirNames
import Minus.Theory.Portions
import Minus.Theory.Loop
import Minus.Theory.Ledger
import Minus.Theory.Writeback
import Minus.Fs.Bcache
import Minus.Fs.BcacheRun
import Minus.Fs.Getdents
import Minus.Fs.GetdentsRun
import Minus.Fs.DirOffsets
import Minus.Fs.Ext4DirBytes
import Minus.Fs.Ext4DirScan
import Minus.Fs.Ext4DirTiled
import Minus.Fs.Ext4DirMap
import Minus.Fs.Ext4Rmdir
import Minus.Fs.Ext4Alloc
import Minus.Fs.Ext4Bitmap
import Minus.Fs.Ext4Calls
import Minus.Fs.Ext4Leak
import Minus.Fs.Icache
import Minus.Fs.CacheFind
import Minus.Fs.IcacheDrop
import Minus.Fs.IcacheDirty
import Minus.Fs.IcacheOwner
import Minus.Uapps.Gfx
import Minus.Uapps.GfxLine
import Minus.Uapps.GfxBlit
import Minus.Scripts.Kconfig
import Minus.Uapps.Shell
import Minus.Lib.Number
import Minus.Lib.StringRoutines
