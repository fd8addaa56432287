import RamOS.Drivers.Registry

/-!
# ATA drives behind the driver framework

The framework counts bytes and the ATA driver counts sectors: a request moves whole sectors of
512 bytes, from the one that contains the position on, and returns their number, by which the
framework then moves the position. Commands to the drive succeed, and a drive is an array of
sectors.
-/

namespace RamOS.Drivers

open ByteMemory CString

/-- A drive: `ata_drive_info_t` and the bytes on the disk. -/
structure Drive where
  present : Bool
  size : ℕ
  contents : Memory

structure AtaWorld where
  memory : Memory
  drives : ℕ → Drive

/-- The data loop: one sector of 512 bytes in each of its rounds. -/
def moveSectors (target : Memory) (dest : ℕ) (source : Memory) (src : ℕ) : ℕ → Memory
  | 0 => target
  | sectors + 1 =>
    transfer (moveSectors target dest source src sectors) (dest + 512 * sectors) 512 source
      (src + 512 * sectors)

/-- The sector that the drive is given: the command carries 28 bits. -/
def commandLba (lba : ℕ) : ℕ := lba % 2 ^ 28

def ataReadSectors (world : AtaWorld) (drive lba sectorCount buffer : ℕ) : ℤ × AtaWorld :=
  if 4 ≤ drive ∨ (world.drives drive).present = false then (-1, world)
  else if sectorCount = 0 then (0, world)
  else
    (sectorCount, { world with
      memory := moveSectors world.memory buffer (world.drives drive).contents
        (512 * commandLba lba) sectorCount })

def ataWriteSectors (world : AtaWorld) (drive lba sectorCount buffer : ℕ) : ℤ × AtaWorld :=
  if 4 ≤ drive ∨ (world.drives drive).present = false then (-1, world)
  else if sectorCount = 0 then (0, world)
  else
    (sectorCount, { world with
      drives := Function.update world.drives drive
        { world.drives drive with
          contents := moveSectors (world.drives drive).contents (512 * commandLba lba)
            world.memory buffer sectorCount } })

/-- The number of sectors for a count of bytes, at most 255. -/
def sectorsFor (count : ℕ) : ℕ := min (Word32.add count 511 / 512) 255

def ataDriverRead (world : AtaWorld) (minor buf count offset : ℕ) : ℤ × AtaWorld :=
  if 4 ≤ minor then (-1, world)
  else ataReadSectors world minor (offset / 512) (sectorsFor count) buf

def ataDriverWrite (world : AtaWorld) (minor buf count offset : ℕ) : ℤ × AtaWorld :=
  if 4 ≤ minor then (-1, world)
  else ataWriteSectors world minor (offset / 512) (sectorsFor count) buf

def ataDriverOpen (world : AtaWorld) (minor : ℕ) : ℤ × AtaWorld :=
  if 4 ≤ minor ∨ (world.drives minor).present = false then (-1, world) else (0, world)

def ataDriverClose (world : AtaWorld) (_minor : ℕ) : ℤ × AtaWorld := (0, world)

/-- `ata_ops`, without `init` and `ioctl`. -/
def ataOps : DriverOps AtaWorld where
  openDevice := some ataDriverOpen
  closeDevice := some ataDriverClose
  read := some ataDriverRead
  write := some ataDriverWrite

/-- A kernel with one drive, after `ata_init`. -/
def oneDrive : Registry.Framework AtaWorld :=
  (Registry.driverRegister (Registry.driverInit
    { world :=
        { memory := fun _ => 0
          drives := fun minor =>
            { present := decide (minor = 0), size := if minor = 0 then 4 else 0,
              contents := fun _ => 0 } }
      records := fun _ =>
        { name := ascii "ata"
          state := .unloaded
          major := 3
          ops := some { ataOps with init := none, ioctl := none } }
      driverList := []
      nextMajor := 1
      deviceFds := fun _ => .cleared
      events := [] }) 8).2

theorem moveSectors_eq (target : Memory) (dest : ℕ) (source : Memory) (src sectors : ℕ) :
    moveSectors target dest source src sectors =
      transfer target dest (512 * sectors) source src := by
  induction sectors with
  | zero => simp [moveSectors]
  | succ sectors ih => rw [moveSectors, ih, transfer_transfer, Nat.mul_succ]

end RamOS.Drivers
