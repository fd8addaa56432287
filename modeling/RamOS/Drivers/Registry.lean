import RamOS.Drivers.Model

/-!
# The driver framework

A driver is the address of its `driver_t`, so that two drivers with the same callbacks stay
apart; the null pointer is zero. An open device is a slot of a table of 64 descriptors that holds
the driver, the minor number and a position, a 32-bit word that the callbacks receive and that
grows by what they return. The framework keeps the calls that it has made: a successful `open`
and every `close`.
-/

namespace RamOS.Drivers.Registry

open CString

inductive DriverState
  | unloaded
  | loading
  | loaded
  | error

/-- `driver_ops_t`, except for `cleanup`. -/
structure Callbacks (World : Type) extends DriverOps World where
  init : Option (World → ℤ × World)
  ioctl : Option (World → ℕ → ℕ → ℕ → ℤ × World)

/-- The fields of `driver_t` that the framework uses. -/
structure Record (World : Type) where
  name : Bytes
  state : DriverState
  major : ℕ
  ops : Option (Callbacks World)

/-- `device_fd_t`. -/
structure Slot where
  driver : ℕ
  minor : ℕ
  flags : ℤ
  position : ℕ

def Slot.cleared : Slot where
  driver := 0
  minor := 0
  flags := 0
  position := 0

inductive Event
  | opened (driver minor : ℕ)
  | closed (driver minor : ℕ)
deriving DecidableEq

structure Framework (World : Type) where
  world : World
  records : ℕ → Record World
  driverList : List ℕ
  nextMajor : ℕ
  deviceFds : ℕ → Slot
  events : List Event

variable {World : Type}

/-- `driver_init`, from which on the calls are kept. -/
def driverInit (framework : Framework World) : Framework World :=
  { framework with
    driverList := []
    deviceFds := fun _ => .cleared
    events := [] }

def addDriver (framework : Framework World) (driver : ℕ) : Framework World :=
  { framework with
    records := Function.update framework.records driver
      { framework.records driver with state := .loaded }
    driverList := driver :: framework.driverList }

def assignMajor (framework : Framework World) (driver : ℕ) : Framework World :=
  if (framework.records driver).major = 0 then
    { framework with
      records := Function.update framework.records driver
        { framework.records driver with major := framework.nextMajor }
      nextMajor := Word32.add framework.nextMajor 1 }
  else framework

def driverRegister (framework : Framework World) (driver : ℕ) : ℤ × Framework World :=
  if driver = 0 then (-1, framework)
  else
    let framework := assignMajor framework driver
    match (framework.records driver).ops.bind Callbacks.init with
    | none => (0, addDriver framework driver)
    | some init =>
      let (code, world) := init framework.world
      let framework := { framework with world := world }
      if code < 0 then
        (-1, { framework with
          records := Function.update framework.records driver
            { framework.records driver with state := .error } })
      else (0, addDriver framework driver)

def driverFind (framework : Framework World) (name : Bytes) : Option ℕ :=
  framework.driverList.find? fun driver => strcmp (framework.records driver).name name = 0

def allocDeviceFd (deviceFds : ℕ → Slot) : Option ℕ :=
  (List.range maxOpenDevices).find? fun i => (deviceFds i).driver = 0

def callClose (framework : Framework World) (driver minor : ℕ) : Framework World :=
  match (framework.records driver).ops.bind fun ops => ops.closeDevice with
  | none => framework
  | some closeDevice =>
    { framework with
      world := (closeDevice framework.world minor).2
      events := framework.events ++ [.closed driver minor] }

def devOpen (framework : Framework World) (name : Bytes) (flags : ℤ) :
    ℤ × Framework World :=
  let (driverName, minor) := parseDeviceName name
  match driverFind framework driverName with
  | none => (-1, framework)
  | some driver =>
    match (framework.records driver).ops.bind fun ops => ops.openDevice with
    | none => (-1, framework)
    | some openDevice =>
      let (result, world) := openDevice framework.world minor
      if result < 0 then (-1, { framework with world := world })
      else
        let framework := { framework with
          world := world
          events := framework.events ++ [.opened driver minor] }
        match allocDeviceFd framework.deviceFds with
        | none => (-1, callClose framework driver minor)
        | some fd =>
          (fd, { framework with
            deviceFds := Function.update framework.deviceFds fd
              { driver := driver, minor := minor, flags := flags, position := 0 } })

def openSlot (framework : Framework World) (fd : ℤ) : Option Slot :=
  if fd < 0 ∨ maxOpenDevices ≤ fd ∨ (framework.deviceFds fd.toNat).driver = 0 then none
  else some (framework.deviceFds fd.toNat)

def devClose (framework : Framework World) (fd : ℤ) : ℤ × Framework World :=
  match openSlot framework fd with
  | none => (-1, framework)
  | some slot =>
    let framework := callClose framework slot.driver slot.minor
    (0, { framework with
      deviceFds := Function.update framework.deviceFds fd.toNat .cleared })

/-- The common body of `dev_read` and `dev_write`. -/
def devTransfer (select : DriverOps World → Option (Transfer World))
    (framework : Framework World) (fd : ℤ) (buf count : ℕ) : ℤ × Framework World :=
  match openSlot framework fd with
  | none => (-1, framework)
  | some slot =>
    match (framework.records slot.driver).ops.bind fun ops => select ops.toDriverOps with
    | none => (-1, framework)
    | some callback =>
      let (bytes, world) := callback framework.world slot.minor buf count slot.position
      if 0 < bytes then
        (bytes, { framework with
          world := world
          deviceFds := Function.update framework.deviceFds fd.toNat
            { slot with position := Word32.add slot.position bytes.toNat } })
      else (bytes, { framework with world := world })

def devRead (framework : Framework World) (fd : ℤ) (buf count : ℕ) : ℤ × Framework World :=
  devTransfer DriverOps.read framework fd buf count

def devWrite (framework : Framework World) (fd : ℤ) (buf count : ℕ) : ℤ × Framework World :=
  devTransfer DriverOps.write framework fd buf count

def devIoctl (framework : Framework World) (fd : ℤ) (cmd arg : ℕ) : ℤ × Framework World :=
  match openSlot framework fd with
  | none => (-1, framework)
  | some slot =>
    match (framework.records slot.driver).ops.bind Callbacks.ioctl with
    | none => (-1, framework)
    | some ioctl =>
      let (result, world) := ioctl framework.world slot.minor cmd arg
      (result, { framework with world := world })

/-- `dev_seek`, for the numbers that stand for `SEEK_SET` and `SEEK_CUR`. -/
def devSeek (framework : Framework World) (fd offset whence : ℤ) : ℤ × Framework World :=
  match openSlot framework fd with
  | none => (-1, framework)
  | some slot =>
    let moveTo (position : ℕ) : ℤ × Framework World :=
      (Word32.toInt position, { framework with
        deviceFds := Function.update framework.deviceFds fd.toNat
          { slot with position := position } })
    if whence = 0 then moveTo (Word32.ofInt offset)
    else if whence = 1 then moveTo (Word32.add slot.position (Word32.ofInt offset))
    else (-1, framework)

theorem devOpen_cases {before framework : Framework World} {name : Bytes} {flags fd : ℤ}
    (opens : devOpen before name flags = (fd, framework)) (succeeded : 0 ≤ fd) :
    ∃ driver openDevice slot,
      driverFind before (parseDeviceName name).1 = some driver ∧
      ((before.records driver).ops.bind fun ops => ops.openDevice) = some openDevice ∧
      0 ≤ (openDevice before.world (parseDeviceName name).2).1 ∧
      allocDeviceFd before.deviceFds = some slot ∧ fd = slot ∧
      framework = { before with
        world := (openDevice before.world (parseDeviceName name).2).2
        events := before.events ++ [.opened driver (parseDeviceName name).2]
        deviceFds := Function.update before.deviceFds slot
          { driver := driver, minor := (parseDeviceName name).2, flags := flags,
            position := 0 } } := by
  have failed {after : Framework World} (returned : ((-1 : ℤ), after) = (fd, framework)) :
      False := by
    have code := congrArg Prod.fst returned
    simp only at code
    omega
  revert opens
  fun_cases devOpen before name flags with
  | case5 _ minor parsed driver found openDevice canOpen code world ran opened _ slot allocated =>
    intro opens
    rw [Prod.mk.injEq] at opens
    simp only [parsed]
    exact ⟨driver, openDevice, slot, found, canOpen, by rw [ran]; omega, allocated, opens.1.symm,
      by rw [ran]; exact opens.2.symm⟩
  | _ => exact fun opens => (failed opens).elim

inductive Call where
  | register (driver : ℕ)
  | openDevice (name : Bytes) (flags : ℤ)
  | close (fd : ℤ)
  | read (fd : ℤ) (buf count : ℕ)
  | write (fd : ℤ) (buf count : ℕ)
  | ioctl (fd : ℤ) (cmd arg : ℕ)
  | seek (fd offset whence : ℤ)

def Call.run (framework : Framework World) : Call → ℤ × Framework World
  | register driver => driverRegister framework driver
  | openDevice name flags => devOpen framework name flags
  | close fd => devClose framework fd
  | read fd buf count => devRead framework fd buf count
  | write fd buf count => devWrite framework fd buf count
  | ioctl fd cmd arg => devIoctl framework fd cmd arg
  | seek fd offset whence => devSeek framework fd offset whence

def Record.OpensAndCloses (record : Record World) : Prop :=
  ∃ ops, record.ops = some ops ∧ ops.openDevice.isSome = true ∧ ops.closeDevice.isSome = true

/-- A registered driver is new to the list, and opens and closes devices. -/
def Call.Valid (framework : Framework World) : Call → Prop
  | register driver =>
    driver ∉ framework.driverList ∧ (driver ≠ 0 → (framework.records driver).OpensAndCloses)
  | _ => True

inductive Reachable : Framework World → Prop
  | init (framework : Framework World) : Reachable (driverInit framework)
  | call {framework : Framework World} {call : Call} (reached : Reachable framework)
      (valid : call.Valid framework) : Reachable (call.run framework).2

end RamOS.Drivers.Registry
