import RamOS.Lib.CString
import RamOS.Lib.Word32

/-!
# Drivers and device names

The callbacks of a driver work on the state of the memory and of the hardware, which the
framework does not look into. A device is named by its driver and a minor number.
-/

namespace RamOS.Drivers

open CString

def maxOpenDevices : ℕ := 64

abbrev Transfer (World : Type) := World → ℕ → ℕ → ℕ → ℕ → ℤ × World

/-- The callbacks of `driver_ops_t` that move data or open and close a device. -/
structure DriverOps (World : Type) where
  openDevice : Option (World → ℕ → ℤ × World)
  closeDevice : Option (World → ℕ → ℤ × World)
  read : Option (Transfer World)
  write : Option (Transfer World)

def IsDigit (char : UInt8) : Prop := '0'.toUInt8 ≤ char ∧ char ≤ '9'.toUInt8

instance : DecidablePred IsDigit := fun _ => inferInstanceAs (Decidable (_ ∧ _))

def atoi (text : Bytes) : ℕ :=
  (text.takeWhile fun char => IsDigit char).foldl
    (fun result char => (result * 10 + (char.toNat - '0'.toNat)) % 2 ^ 32) 0

/-- `parse_device_name`: the driver name and the minor number. -/
def parseDeviceName (name : Bytes) : Bytes × ℕ :=
  let name := if strncmp name (ascii "/dev/") 5 = 0 then name.drop 5 else name
  let driverName := (name.takeWhile fun char => ¬ IsDigit char).take 63
  let rest := name.drop driverName.length
  (driverName, if IsDigit (rest.headD 0) then atoi rest else 0)

end RamOS.Drivers
