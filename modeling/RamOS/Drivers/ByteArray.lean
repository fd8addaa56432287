import RamOS.Drivers.Ata

/-!
# When an ATA device behaves as a byte array

On a byte array, a request for `count` bytes moves exactly the bytes from the position on,
returns `count` and advances the position by it. Inside the disk, the driver does the same
exactly when it is asked for nothing, or for one byte while the rest of its sector is in place
already.
-/

namespace RamOS.Drivers

open ByteMemory CString
open Registry (Framework Record Slot driverFind devOpen devRead devSeek devTransfer devWrite
  openSlot)

inductive Call where
  | seek (offset : ℤ)
  | read (buf count : ℕ)
  | write (buf count : ℕ)

def Registry.Framework.moveTo {World : Type} (state : Framework World) (fd : ℤ) (position : ℕ) :
    Framework World :=
  { state with
    deviceFds := Function.update state.deviceFds fd.toNat
      { state.deviceFds fd.toNat with position := position } }

def Registry.Framework.entry {World : Type} (state : Framework World) (fd : ℤ) : Slot :=
  state.deviceFds fd.toNat

def Registry.Framework.drive (state : Framework AtaWorld) (fd : ℤ) : Drive :=
  state.world.drives (state.entry fd).minor

def Registry.Framework.withMemory (state : Framework AtaWorld) (memory : Memory) :
    Framework AtaWorld :=
  { state with world := { state.world with memory := memory } }

def Registry.Framework.withContents (state : Framework AtaWorld) (fd : ℤ) (contents : Memory) :
    Framework AtaWorld :=
  { state with
    world := { state.world with
      drives := Function.update state.world.drives (state.entry fd).minor
        { state.drive fd with contents := contents } } }

theorem contents_moveTo (state : Framework AtaWorld) {fd : ℤ} (contents : Memory) (position : ℕ) :
    (((state.withContents fd contents).moveTo fd position).drive fd).contents = contents := by
  simp [Framework.drive, Framework.moveTo, Framework.entry, Framework.withContents]

theorem Registry.Framework.moveTo_self {World : Type} (state : Framework World) (fd : ℤ) :
    state.moveTo fd (state.entry fd).position = state := by
  simp [Framework.moveTo, Framework.entry]

namespace Call

def run (state : Framework AtaWorld) (fd : ℤ) : Call → ℤ × Framework AtaWorld
  | seek offset => devSeek state fd offset 0
  | read buf count => devRead state fd buf count
  | write buf count => devWrite state fd buf count

def onByteArray (state : Framework AtaWorld) (fd : ℤ) : Call → ℤ × Framework AtaWorld
  | seek offset => (offset, state.moveTo fd offset.toNat)
  | read buf count =>
    let position := (state.entry fd).position
    (count, (state.withMemory (transfer state.world.memory buf count
      (state.drive fd).contents position)).moveTo fd (position + count))
  | write buf count =>
    let position := (state.entry fd).position
    (count, (state.withContents fd (transfer (state.drive fd).contents position count
      state.world.memory buf)).moveTo fd (position + count))

/-- A seek to a position that is not negative, or a transfer inside the disk of at most 255
sectors. -/
def Inside (state : Framework AtaWorld) (fd : ℤ) : Call → Prop
  | seek offset => 0 ≤ offset ∧ offset < 2 ^ 31
  | read _ count | write _ count =>
    count ≤ 255 * 512 ∧ (state.entry fd).position + count ≤ 512 * (state.drive fd).size

/-- The request asks for nothing, or for one byte whose whole sector is in place already. -/
def Coincides (state : Framework AtaWorld) (fd : ℤ) : Call → Prop
  | seek _ => True
  | read buf count =>
    let position := (state.entry fd).position
    let contents := (state.drive fd).contents
    count = 0 ∨ (count = 1 ∧ position + 1 < 2 ^ 32 ∧ ∀ i < 512,
      contents (512 * (position / 512) + i) =
        if i = 0 then contents position else state.world.memory (buf + i))
  | write buf count =>
    let position := (state.entry fd).position
    let contents := (state.drive fd).contents
    count = 0 ∨ (count = 1 ∧ position + 1 < 2 ^ 32 ∧ ∀ i < 512,
      state.world.memory (buf + i) =
        if 512 * (position / 512) + i = position then state.world.memory buf
        else contents (512 * (position / 512) + i))

end Call

/-- The callbacks of `ata_ops`. -/
def IsAta (record : Record AtaWorld) : Prop :=
  record.ops.map (fun ops => ops.toDriverOps) = some ataOps

structure Opened (state : Framework AtaWorld) (fd : ℤ) : Prop where
  nonnegative : 0 ≤ fd
  listed : fd < maxOpenDevices
  nonnull : (state.entry fd).driver ≠ 0
  driver : IsAta (state.records (state.entry fd).driver)
  minor : (state.entry fd).minor < 4
  present : (state.drive fd).present = true
  word : (state.entry fd).position < 2 ^ 32

namespace Opened

variable {state : Framework AtaWorld} {fd : ℤ} (opened : Opened state fd)

include opened

theorem openSlot_eq : openSlot state fd = some (state.entry fd) := by
  have inTable : ¬ (fd < 0 ∨ (maxOpenDevices : ℤ) ≤ fd ∨ (state.deviceFds fd.toNat).driver = 0) :=
    not_or.mpr ⟨not_lt.mpr opened.nonnegative,
      not_or.mpr ⟨not_le.mpr opened.listed, opened.nonnull⟩⟩
  rw [openSlot, if_neg inTable]
  rfl

theorem usable :
    ¬ (4 ≤ (state.entry fd).minor ∨
      (state.world.drives (state.entry fd).minor).present = false) := by
  have minor := opened.minor
  have present : (state.world.drives (state.entry fd).minor).present = true := opened.present
  rw [present]
  simp only [Bool.true_eq_false, or_false]
  omega

theorem commandLba_eq :
    commandLba ((state.entry fd).position / 512) = (state.entry fd).position / 512 := by
  have word := opened.word
  rw [commandLba]
  omega

theorem devSeek_eq {offset : ℤ} (nonnegative : 0 ≤ offset) (small : offset < 2 ^ 31) :
    devSeek state fd offset 0 = (offset, state.moveTo fd offset.toNat) := by
  have converted : Word32.ofInt offset = offset.toNat :=
    Word32.ofInt_eq nonnegative (by omega)
  have returned : Word32.toInt offset.toNat = offset := by
    rw [Word32.toInt_eq (by omega)]
    omega
  rw [devSeek, opened.openSlot_eq]
  simp only [if_true, converted, returned]
  rfl

theorem devTransfer_eq
    {select : DriverOps AtaWorld → Option (Transfer AtaWorld)} {callback : Transfer AtaWorld}
    (selected : select ataOps = some callback) {buf count moved : ℕ}
    {world : AtaWorld}
    (called : callback state.world (state.entry fd).minor buf count (state.entry fd).position =
      ((moved : ℤ), world)) :
    devTransfer select state fd buf count =
      ((moved : ℤ), Framework.moveTo { state with world := world } fd
        (Word32.add (state.entry fd).position moved)) := by
  rcases Option.map_eq_some_iff.mp opened.driver with ⟨ops, hasOps, isAta⟩
  rw [devTransfer, opened.openSlot_eq]
  dsimp only
  rw [hasOps, Option.bind_some, isAta, selected]
  dsimp only
  rw [called]
  rcases Nat.eq_zero_or_pos moved with rfl | positive
  · have same : Word32.add (state.entry fd).position 0 = (state.entry fd).position :=
      Word32.add_eq (by simpa using opened.word)
    rw [same, if_neg (by simp)]
    exact congrArg (Prod.mk _) (Framework.moveTo_self { state with world := world } fd).symm
  · rw [if_pos (by omega), Int.toNat_natCast]
    rfl

theorem devRead_eq (buf count : ℕ) :
    devRead state fd buf count =
      ((sectorsFor count : ℤ),
        (state.withMemory (transfer state.world.memory buf (512 * sectorsFor count)
          (state.drive fd).contents (512 * ((state.entry fd).position / 512)))).moveTo fd
          (Word32.add (state.entry fd).position (sectorsFor count))) := by
  refine @devTransfer_eq state fd opened DriverOps.read ataDriverRead rfl buf count _ _ ?_
  have small := opened.minor
  rw [ataDriverRead, if_neg (by omega), ataReadSectors, if_neg opened.usable, moveSectors_eq,
    opened.commandLba_eq]
  split
  next none => simp [none]
  next => rfl

theorem devWrite_eq (buf count : ℕ) :
    devWrite state fd buf count =
      ((sectorsFor count : ℤ),
        (state.withContents fd (transfer (state.drive fd).contents
          (512 * ((state.entry fd).position / 512)) (512 * sectorsFor count)
          state.world.memory buf)).moveTo fd
          (Word32.add (state.entry fd).position (sectorsFor count))) := by
  refine @devTransfer_eq state fd opened DriverOps.write ataDriverWrite rfl buf count _ _ ?_
  have small := opened.minor
  rw [ataDriverWrite, if_neg (by omega), ataWriteSectors, if_neg opened.usable, moveSectors_eq,
    opened.commandLba_eq]
  split
  next none => simp [none, Framework.drive]
  next => rfl

end Opened

variable {state : Framework AtaWorld} {fd : ℤ} {count : ℕ}

theorem moveTo_inj {change : Memory → Framework AtaWorld} (changed : Framework AtaWorld → Memory)
    (shows : ∀ memory position, changed ((change memory).moveTo fd position) = memory)
    {left right : Memory} {leftPosition rightPosition : ℕ} :
    (change left).moveTo fd leftPosition = (change right).moveTo fd rightPosition ↔
      left = right ∧ leftPosition = rightPosition := by
  constructor
  · intro same
    have sameMemory := congrArg changed same
    have samePosition := congrArg (fun reached => (reached.deviceFds fd.toNat).position) same
    rw [shows, shows] at sameMemory
    simp only [Framework.moveTo, Function.update_self] at samePosition
    exact ⟨sameMemory, samePosition⟩
  · rintro ⟨rfl, rfl⟩
    rfl

theorem sectorsFor_eq_iff (small : count ≤ 255 * 512) :
    sectorsFor count = count ↔ count = 0 ∨ count = 1 := by
  rw [sectorsFor, Word32.add_eq (by omega)]
  omega

theorem word_add_one_eq_iff {position : ℕ} :
    Word32.add position 1 = position + 1 ↔ position + 1 < 2 ^ 32 := by
  rw [Word32.add]
  omega

/-- A transfer counted in sectors agrees with one counted in bytes only where it moves nothing, or
one byte that matches. -/
theorem counts_agree_iff {position count : ℕ} (word : position < 2 ^ 32) (small : count ≤ 255 * 512)
    {inSectors inBytes : ℕ → Memory} {matching : Prop} (none : inSectors 0 = inBytes 0)
    (one : inSectors 1 = inBytes 1 ↔ matching) :
    (sectorsFor count = count ∧ inSectors (sectorsFor count) = inBytes count ∧
        Word32.add position (sectorsFor count) = position + count) ↔
      count = 0 ∨ (count = 1 ∧ position + 1 < 2 ^ 32 ∧ matching) := by
  have sectorsZero : sectorsFor 0 = 0 := rfl
  have sectorsOne : sectorsFor 1 = 1 := rfl
  rw [sectorsFor_eq_iff small]
  constructor
  · rintro ⟨rfl | rfl, same, moved⟩
    · exact Or.inl rfl
    · rw [sectorsOne] at same moved
      exact Or.inr ⟨rfl, word_add_one_eq_iff.mp moved, one.mp same⟩
  · rintro (rfl | ⟨rfl, fits, fitting⟩)
    · rw [sectorsZero]
      exact ⟨Or.inl rfl, none, Word32.add_eq (by omega)⟩
    · rw [sectorsOne]
      exact ⟨Or.inr rfl, one.mpr fitting, word_add_one_eq_iff.mpr fits⟩

theorem Opened.read_iff (opened : Opened state fd) {buf : ℕ} (small : count ≤ 255 * 512) :
    (Call.read buf count).run state fd = (Call.read buf count).onByteArray state fd ↔
      (Call.read buf count).Coincides state fd := by
  simp only [Call.run, Call.onByteArray, Call.Coincides, opened.devRead_eq, Prod.mk.injEq,
    Int.natCast_inj, @moveTo_inj fd state.withMemory (·.world.memory) fun _ _ => rfl]
  refine @counts_agree_iff _ _ opened.word small
    (fun sectors => transfer state.world.memory buf (512 * sectors) _ _)
    (fun bytes => transfer state.world.memory buf bytes _ _) _ (by simp) ?_
  have first : (state.drive fd).contents (state.entry fd).position =
      transfer state.world.memory buf 1 (state.drive fd).contents (state.entry fd).position
        (buf + 0) := by
    rw [transfer_apply (by omega), Nat.add_zero]
  rw [transfer_eq_iff]
  constructor
  · rintro ⟨moved, -⟩ i inside
    rw [moved i inside]
    split
    next start => rw [start, first]
    next later => exact transfer_apply_of_outside (by omega)
  · intro matching
    refine ⟨?_, fun location outside => (transfer_apply_of_outside (by omega)).symm⟩
    intro i inside
    rw [matching i inside]
    split
    next start => rw [start, first]
    next later => exact (transfer_apply_of_outside (by omega)).symm

theorem Opened.write_iff (opened : Opened state fd) {buf : ℕ} (small : count ≤ 255 * 512) :
    (Call.write buf count).run state fd = (Call.write buf count).onByteArray state fd ↔
      (Call.write buf count).Coincides state fd := by
  simp only [Call.run, Call.onByteArray, Call.Coincides, opened.devWrite_eq, Prod.mk.injEq,
    Int.natCast_inj,
    @moveTo_inj fd (state.withContents fd) (fun reached => (reached.drive fd).contents)
      (contents_moveTo state)]
  refine @counts_agree_iff _ _ opened.word small
    (fun sectors => transfer (state.drive fd).contents _ (512 * sectors) state.world.memory buf)
    (fun bytes => transfer (state.drive fd).contents _ bytes state.world.memory buf) _ (by simp) ?_
  generalize (state.entry fd).position = position
  have written (location : ℕ) :
      transfer (state.drive fd).contents position 1 state.world.memory buf location =
        if location = position then state.world.memory buf
        else (state.drive fd).contents location := by
    split
    next here =>
      have first := @transfer_apply (state.drive fd).contents state.world.memory position 1 buf 0
        (by omega)
      rw [Nat.add_zero, Nat.add_zero] at first
      rw [here, first]
    next elsewhere => exact transfer_apply_of_outside (by omega)
  rw [transfer_eq_iff]
  simp only [written]
  constructor
  · exact fun moved => moved.1
  · intro matching
    refine ⟨matching, ?_⟩
    intro location outside
    rw [if_neg (by omega)]

namespace Opened

variable {state : Framework AtaWorld} {fd : ℤ} (opened : Opened state fd)

include opened

theorem moveTo {position : ℕ} (word : position < 2 ^ 32) :
    Opened (state.moveTo fd position) fd := by
  have slot : (state.moveTo fd position).entry fd =
      { state.entry fd with position := position } := Function.update_self ..
  refine ⟨opened.nonnegative, opened.listed, ?_, ?_, ?_, ?_, ?_⟩
  · rw [slot]
    exact opened.nonnull
  · rw [slot]
    exact opened.driver
  · rw [slot]
    exact opened.minor
  · rw [Framework.drive, slot]
    exact opened.present
  · rw [slot]
    exact word

theorem withMemory (memory : Memory) : Opened (state.withMemory memory) fd :=
  ⟨opened.nonnegative, opened.listed, opened.nonnull, opened.driver, opened.minor, opened.present,
    opened.word⟩

theorem withContents (contents : Memory) : Opened (state.withContents fd contents) fd := by
  refine ⟨opened.nonnegative, opened.listed, opened.nonnull, opened.driver, opened.minor, ?_,
    opened.word⟩
  have drive : (state.withContents fd contents).drive fd =
      { state.drive fd with contents := contents } := Function.update_self ..
  rw [drive]
  exact opened.present

theorem run {call : Call} (inside : call.Inside state fd) : Opened (call.run state fd).2 fd := by
  cases call with
  | seek offset =>
    rcases inside with ⟨nonnegative, small⟩
    rw [Call.run, opened.devSeek_eq nonnegative small]
    exact opened.moveTo (by omega)
  | read buf count =>
    rw [Call.run, opened.devRead_eq]
    exact (opened.withMemory _).moveTo (Word32.add_lt _ _)
  | write buf count =>
    rw [Call.run, opened.devWrite_eq]
    exact (opened.withContents _).moveTo (Word32.add_lt _ _)

theorem run_iff {call : Call} (inside : call.Inside state fd) :
    call.run state fd = call.onByteArray state fd ↔ call.Coincides state fd := by
  cases call with
  | seek offset =>
    rcases inside with ⟨nonnegative, small⟩
    exact iff_of_true (opened.devSeek_eq nonnegative small) trivial
  | read buf count => exact opened.read_iff inside.1
  | write buf count => exact opened.write_iff inside.1

end Opened

def stateAfter (state : Framework AtaWorld) (fd : ℤ) (calls : List Call) : Framework AtaWorld :=
  calls.foldl (fun reached call => (call.run reached fd).2) state

def RunsInside (state : Framework AtaWorld) (fd : ℤ) (calls : List Call) : Prop :=
  ∀ k (listed : k < calls.length), calls[k].Inside (stateAfter state fd (calls.take k)) fd

theorem Opened.stateAfter {calls : List Call} (opened : Opened state fd)
    (inside : RunsInside state fd calls) {k : ℕ} (reached : k ≤ calls.length) :
    Opened (stateAfter state fd (calls.take k)) fd := by
  induction k with
  | zero => exact opened
  | succ k ih =>
    have listed : k < calls.length := reached
    rw [List.take_succ_eq_append_getElem listed, Drivers.stateAfter, List.foldl_append]
    exact (ih (by omega)).run (inside k listed)

/-- The driver that a device name leads to is that of ATA drives. -/
def NamesAta (before : Framework AtaWorld) (name : Bytes) : Prop :=
  ∃ driver, driver ≠ 0 ∧ driverFind before (parseDeviceName name).1 = some driver ∧
    IsAta (before.records driver)

theorem devOpen_opened {before : Framework AtaWorld} {name : Bytes} {flags : ℤ}
    (opens : devOpen before name flags = (fd, state)) (succeeded : 0 ≤ fd)
    (named : NamesAta before name) : Opened state fd := by
  rcases Registry.devOpen_cases opens succeeded with
    ⟨driver, openDevice, slot, found, canOpen, opened, allocated, rfl, rfl⟩
  rcases named with ⟨_, nonnull, sameFound, isAta⟩
  rw [found, Option.some.injEq] at sameFound
  subst sameFound
  rcases Option.map_eq_some_iff.mp isAta with ⟨ops, hasOps, sameOps⟩
  rw [hasOps, Option.bind_some, sameOps] at canOpen
  cases canOpen
  have usable : ¬ (4 ≤ (parseDeviceName name).2 ∨
      (before.world.drives (parseDeviceName name).2).present = false) := by
    intro missing
    rw [ataDriverOpen, if_pos missing] at opened
    exact absurd opened (show ¬ (0 : ℤ) ≤ -1 by decide)
  rw [ataDriverOpen, if_neg usable]
  rw [not_or, Bool.not_eq_false] at usable
  have slotLt : slot < maxOpenDevices := List.mem_range.mp (List.mem_of_find?_eq_some allocated)
  refine ⟨by omega, by omega, ?_, ?_, ?_, ?_, ?_⟩
  all_goals simp only [Framework.drive, Framework.entry, Int.toNat_natCast, Function.update_self]
  · exact nonnull
  · exact isAta
  · exact Nat.lt_of_not_le usable.1
  · exact usable.2
  · decide

/-- Inside the disk, a request behaves as on a byte array exactly when it asks for nothing, or for
one byte whose whole sector is in place already. -/
theorem device_byteArray_iff {before state : Framework AtaWorld} {name : Bytes} {flags fd : ℤ}
    (opens : devOpen before name flags = (fd, state)) (succeeded : 0 ≤ fd)
    (named : NamesAta before name) {calls : List Call} (inside : RunsInside state fd calls) :
    ∀ k (listed : k < calls.length),
      calls[k].run (stateAfter state fd (calls.take k)) fd =
          calls[k].onByteArray (stateAfter state fd (calls.take k)) fd ↔
        calls[k].Coincides (stateAfter state fd (calls.take k)) fd := by
  intro k listed
  have opened := (devOpen_opened opens succeeded named).stateAfter inside listed.le
  exact opened.run_iff (inside k listed)

theorem oneDrive_opens :
    devOpen oneDrive (ascii "/dev/ata0") 0 = (0, (devOpen oneDrive (ascii "/dev/ata0") 0).2) :=
  Prod.ext (by decide) rfl

theorem oneDrive_namesAta : NamesAta oneDrive (ascii "/dev/ata0") := ⟨8, by decide, rfl, rfl⟩

theorem oneDrive_inside :
    RunsInside (devOpen oneDrive (ascii "/dev/ata0") 0).2 0 [Call.read 0x1000 512] := by
  intro k listed
  have first : k = 0 := by simpa using listed
  subst first
  exact ⟨by decide, by decide⟩

theorem device_byteArray_iff_oneDrive :
    (Call.read 0x1000 512).run (devOpen oneDrive (ascii "/dev/ata0") 0).2 0 =
        (Call.read 0x1000 512).onByteArray (devOpen oneDrive (ascii "/dev/ata0") 0).2 0 ↔
      (Call.read 0x1000 512).Coincides (devOpen oneDrive (ascii "/dev/ata0") 0).2 0 :=
  device_byteArray_iff oneDrive_opens (by decide) oneDrive_namesAta oneDrive_inside 0 (by decide)

/-- Reading the first sector of a fresh disk returns 1 and not 512. -/
theorem read_returns_sectors :
    (devRead (devOpen oneDrive (ascii "/dev/ata0") 0).2 0 0x1000 512).1 = 1 ∧
      (Call.read 0x1000 512).run (devOpen oneDrive (ascii "/dev/ata0") 0).2 0 ≠
        (Call.read 0x1000 512).onByteArray (devOpen oneDrive (ascii "/dev/ata0") 0).2 0 := by
  have opened := devOpen_opened oneDrive_opens (by decide) oneDrive_namesAta
  have returned : (devRead (devOpen oneDrive (ascii "/dev/ata0") 0).2 0 0x1000 512).1 = 1 := by
    rw [opened.devRead_eq]
    rfl
  refine ⟨returned, ?_⟩
  intro same
  have code := congrArg Prod.fst same
  rw [Call.run, returned] at code
  exact absurd code (by decide)

end RamOS.Drivers
