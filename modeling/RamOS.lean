import RamOS.Installer.Partition
import RamOS.Drivers.ByteArray
import RamOS.Proc.Waiting
import RamOS.Proc.Orphans
import RamOS.Proc.ExitStatus
import RamOS.Proc.Ledger
import RamOS.Proc.Confinement
import RamOS.Proc.DirectoryCopy
import RamOS.Keyboard.Interrupts
import RamOS.Keyboard.LayoutRoundTrip
import RamOS.Keyboard.LayoutTools
import RamOS.Vfs.MountRefinement
import RamOS.Libsys.Strings
import RamOS.Vfs.Atomicity
import RamOS.Console.Terminal
import RamOS.Keyboard.Config
import RamOS.Proc.OpenFiles
import RamOS.Ext4.InodeSlots
import RamOS.Ext4.InodeData
import RamOS.Proc.ArgumentStack
import RamOS.Proc.SyscallEntry
import RamOS.Installer.Format
import RamOS.Ext4.AtaDevice
import RamOS.Proc.Scheduler
import RamOS.Initrd.Seeks
import RamOS.Heap.Nesting
import RamOS.Vmm.FrameOwners
import RamOS.Proc.Reaping
import RamOS.Proc.Listing
import RamOS.Keyboard.Metadata
import RamOS.Timer.Sleep
import RamOS.Keyboard.LineEditing
import RamOS.Keyboard.Handler
import RamOS.Shell.ParseArgs
import RamOS.Installer.CopyFile
import RamOS.Editor.Rows
import RamOS.Editor.MultiInsert
import RamOS.Initrd.Prefixes
import RamOS.Libsys.PrintfBounds
import RamOS.Drivers.DeviceNames
import RamOS.Vfs.PathJoin
import RamOS.Proc.ElfReports
