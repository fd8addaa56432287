import RamOS.Drivers.Ata
import RamOS.Drivers.Balance
import RamOS.Ext4.Mount

/-!
# EXT4 on an ATA drive

`ext4_read_superblock` expects `dev_read` to return the number of bytes it asked for. The ATA
driver returns the number of sectors, which is 1 for a superblock. So no file system of a drive
that can be opened is ever mounted, and every name that cannot be opened is.
-/

namespace RamOS.Ext4

open CString
open Drivers (AtaWorld ataDriverRead oneDrive)
open Drivers.Registry

/-- The driver framework as the file system uses it, with its buffer at an address. -/
def frameworkDevice (buffer : ℕ) : MountDevice (Framework AtaWorld) where
  devRead := fun framework fd count =>
    let (bytesRead, framework) := devRead framework fd buffer count
    (bytesRead, load framework.world.memory buffer count, framework)
  devWrite := fun framework fd bytes =>
    let world := { framework.world with memory := store framework.world.memory buffer bytes }
    devWrite { framework with world := world } fd buffer bytes.length
  devOpen := devOpen
  devSeek := devSeek
  devClose := devClose

/-- Every registered driver reads as the ATA driver does. -/
def OnlyAta (framework : Framework AtaWorld) : Prop :=
  ∀ driver ∈ framework.driverList,
    ((framework.records driver).ops.bind fun ops => ops.read) = some ataDriverRead

variable {framework after : Framework AtaWorld}

theorem OnlyAta.keeps (only : OnlyAta framework) (keeps : Keeps framework after) :
    OnlyAta after := by
  intro driver listed
  rw [keeps.list] at listed
  rw [keeps.ops]
  exact only driver listed

theorem ataDriverRead_ne (world : AtaWorld) (minor buf offset : ℕ) :
    (ataDriverRead world minor buf superblockBytes offset).1 ≠ superblockBytes := by
  rw [ataDriverRead, Drivers.ataReadSectors]
  split_ifs
  · exact (by decide : (-1 : ℤ) ≠ 136)
  · exact (by decide : (-1 : ℤ) ≠ 136)
  · exact (by decide : (0 : ℤ) ≠ 136)
  · exact (by decide : ((Drivers.sectorsFor superblockBytes : ℕ) : ℤ) ≠ 136)

theorem devRead_ne (sound : Sound framework) (only : OnlyAta framework) (fd : ℤ) (buf : ℕ) :
    (devRead framework fd buf superblockBytes).1 ≠ superblockBytes := by
  rw [devRead, devTransfer]
  split
  next => exact (by decide : (-1 : ℤ) ≠ 136)
  next slot found =>
    rcases openSlot_eq_some found with ⟨-, rfl, used⟩
    rw [only _ (sound.holding _ used)]
    have short := ataDriverRead_ne framework.world (framework.deviceFds fd.toNat).minor buf
      (framework.deviceFds fd.toNat).position
    dsimp only
    split
    next => exact short
    next => exact short

theorem ext4ReadSuperblock_onlyAta (sound : Sound framework) (only : OnlyAta framework)
    (buffer : ℕ) (name : Bytes) :
    (ext4ReadSuperblock (frameworkDevice buffer) framework name).1 =
      if (devOpen framework name 0).1 < 0 then some testSuperblock else none := by
  have opens := @devOpen_keeps _ framework name 0
  have openSound := @Sound.run _ _ (.openDevice name 0) sound trivial
  rw [ext4ReadSuperblock]
  change (if (devOpen framework name 0).1 < 0 then _ else _ : Option Superblock × _).1 = _
  split
  next => rfl
  next =>
    refine congrArg Prod.fst (if_pos ?_)
    exact devRead_ne (@Sound.run _ _ (.seek (devOpen framework name 0).1 1024 0) openSound trivial)
      ((only.keeps opens).keeps (devSeek_effect _ _ _).2) _ buffer

/-- Whatever the drives hold and whatever calls were made since the start: with no other driver
than that of ATA drives, `ext4_mount` fails for a device that can be opened, and mounts the
made-up superblock for any other name. -/
theorem ext4Mount_onlyAta (reached : Reachable framework) (only : OnlyAta framework)
    (buffer : ℕ) (name : Bytes) :
    (ext4Mount (frameworkDevice buffer) framework (some name) true true).1 =
      if (devOpen framework name 0).1 < 0 then .node (mountedFs testSuperblock) else .failed := by
  have read := ext4ReadSuperblock_onlyAta reached.sound only buffer name
  split
  next closed =>
    rw [if_pos closed] at read
    rw [ext4Mount_of_magic read rfl]
    rfl
  next opened =>
    rw [if_neg opened] at read
    refine ext4Mount_failed true true fun _ sb obtained => ?_
    rw [read] at obtained
    cases obtained

theorem ext4Mount_onlyAta_drives :
    (ext4Mount (frameworkDevice 0x100000) oneDrive (some (ascii "/dev/ata0")) true true).1 =
        .failed ∧
      (ext4Mount (frameworkDevice 0x100000) oneDrive (some (ascii "/dev/ata1")) true true).1 =
        .node (mountedFs testSuperblock) := by
  have reached : Reachable oneDrive :=
    @Reachable.call _ _ (.register 8) (.init _) ⟨List.not_mem_nil, fun _ => ⟨_, rfl, rfl, rfl⟩⟩
  have only : OnlyAta oneDrive := fun driver listed => List.mem_singleton.mp listed ▸ rfl
  rw [ext4Mount_onlyAta reached only, ext4Mount_onlyAta reached only]
  exact ⟨rfl, rfl⟩

end RamOS.Ext4
