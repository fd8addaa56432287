import Mathlib.Algebra.BigOperators.Group.Finset.Piecewise
import RamOS.Drivers.Registry

/-!
# Opens and closes of devices

A call of the framework calls neither `open` nor `close` and leaves the descriptors with the
devices they hold, or fills a free descriptor after one `open`, or takes back an `open` for
which there was no descriptor, or clears a descriptor after one `close`.
-/

namespace RamOS.Drivers.Registry

variable {World : Type} {framework : Framework World} {call : Call}

def held (deviceFds : ℕ → Slot) (driver minor : ℕ) : ℕ :=
  ((Finset.range maxOpenDevices).filter fun i =>
    (deviceFds i).driver = driver ∧ (deviceFds i).minor = minor).card

def Balanced (framework : Framework World) : Prop :=
  ∀ driver minor, driver ≠ 0 →
    (framework.events.count (.opened driver minor) : ℤ) -
      framework.events.count (.closed driver minor) = held framework.deviceFds driver minor

/-- The drivers in the list open and close devices, and only they are held. -/
structure Sound (framework : Framework World) : Prop where
  listed : ∀ driver ∈ framework.driverList,
    driver ≠ 0 ∧ (framework.records driver).OpensAndCloses
  holding : ∀ i, (framework.deviceFds i).driver ≠ 0 →
    (framework.deviceFds i).driver ∈ framework.driverList

/-- What a call does to the descriptors and which callbacks it calls. -/
inductive Effect (before after : Framework World) : Prop
  | quiet (events : after.events = before.events)
      (drivers : ∀ i, (after.deviceFds i).driver = (before.deviceFds i).driver)
      (minors : ∀ i, (after.deviceFds i).minor = (before.deviceFds i).minor)
  | opened (i : ℕ) (slot : Slot) (inside : i < maxOpenDevices)
      (free : (before.deviceFds i).driver = 0) (registered : slot.driver ∈ before.driverList)
      (events : after.events = before.events ++ [.opened slot.driver slot.minor])
      (replaced : after.deviceFds = Function.update before.deviceFds i slot)
  | refused (driver minor : ℕ)
      (events : after.events = before.events ++ [.opened driver minor, .closed driver minor])
      (same : after.deviceFds = before.deviceFds)
  | closed (i : ℕ) (inside : i < maxOpenDevices) (used : (before.deviceFds i).driver ≠ 0)
      (events : after.events =
        before.events ++ [.closed (before.deviceFds i).driver (before.deviceFds i).minor])
      (replaced : after.deviceFds = Function.update before.deviceFds i .cleared)

theorem openSlot_eq_some {fd : ℤ} {slot : Slot} (found : openSlot framework fd = some slot) :
    fd.toNat < maxOpenDevices ∧ framework.deviceFds fd.toNat = slot ∧ slot.driver ≠ 0 := by
  simp only [openSlot, Option.ite_none_left_eq_some, not_or, Option.some.injEq] at found
  rcases found with ⟨⟨nonnegative, inside, used⟩, rfl⟩
  exact ⟨by omega, rfl, used⟩

theorem allocDeviceFd_eq_some {deviceFds : ℕ → Slot} {i : ℕ}
    (allocated : allocDeviceFd deviceFds = some i) :
    i < maxOpenDevices ∧ (deviceFds i).driver = 0 :=
  ⟨List.mem_range.mp (List.mem_of_find?_eq_some allocated),
    by simpa using List.find?_some allocated⟩

theorem callClose_of_closes {driver : ℕ} (minor : ℕ)
    (closes : (framework.records driver).OpensAndCloses) :
    (callClose framework driver minor).events = framework.events ++ [.closed driver minor] ∧
      (callClose framework driver minor).deviceFds = framework.deviceFds := by
  rcases closes with ⟨ops, hasOps, _, canClose⟩
  rcases Option.isSome_iff_exists.mp canClose with ⟨closeDevice, isClose⟩
  simp only [callClose, hasOps, Option.bind_some, isClose, and_self]

theorem Effect.of_position {after : Framework World} {i : ℕ} {slot : Slot}
    (events : after.events = framework.events)
    (replaced : after.deviceFds = Function.update framework.deviceFds i slot)
    (driver : slot.driver = (framework.deviceFds i).driver)
    (minor : slot.minor = (framework.deviceFds i).minor) : Effect framework after := by
  refine .quiet events (fun j => ?_) fun j => ?_
  · by_cases same : j = i
    · rw [replaced, same, Function.update_self, driver]
    · rw [replaced, Function.update_of_ne same]
  · by_cases same : j = i
    · rw [replaced, same, Function.update_self, minor]
    · rw [replaced, Function.update_of_ne same]

theorem Effect.of_same {after : Framework World} (events : after.events = framework.events)
    (same : after.deviceFds = framework.deviceFds) : Effect framework after :=
  .quiet events (fun _ => by rw [same]) fun _ => by rw [same]

theorem driverRegister_effect (driver : ℕ) :
    Effect framework (driverRegister framework driver).2 := by
  have major : (assignMajor framework driver).events = framework.events ∧
      (assignMajor framework driver).deviceFds = framework.deviceFds := by
    rw [assignMajor]
    split
    · exact ⟨rfl, rfl⟩
    · exact ⟨rfl, rfl⟩
  fun_cases driverRegister framework driver with
  | case1 => exact .of_same rfl rfl
  | _ => exact .of_same major.1 major.2

theorem devOpen_effect (sound : Sound framework) (name : Bytes) (flags : ℤ) :
    Effect framework (devOpen framework name flags).2 := by
  fun_cases devOpen framework name flags with
  | case4 _ minor _ driver found _ _ _ _ _ _ opened =>
    have registered : driver ∈ framework.driverList := List.mem_of_find?_eq_some found
    have asked := @callClose_of_closes World opened driver minor (sound.listed driver registered).2
    exact .refused driver minor (asked.1.trans (List.append_assoc ..)) asked.2
  | case5 _ _ _ driver found _ _ _ _ _ _ _ i allocated =>
    have registered : driver ∈ framework.driverList := List.mem_of_find?_eq_some found
    rcases allocDeviceFd_eq_some allocated with ⟨inside, free⟩
    exact .opened i _ inside free registered rfl rfl
  | _ => exact .of_same rfl rfl

theorem devClose_effect (sound : Sound framework) (fd : ℤ) :
    Effect framework (devClose framework fd).2 := by
  fun_cases devClose framework fd with
  | case1 => exact .of_same rfl rfl
  | case2 slot found =>
    rcases openSlot_eq_some found with ⟨inside, rfl, used⟩
    have asked := callClose_of_closes (framework.deviceFds fd.toNat).minor
      (sound.listed _ (sound.holding fd.toNat used)).2
    exact .closed fd.toNat inside used asked.1 (by rw [asked.2])

structure Keeps (before after : Framework World) : Prop where
  ops : ∀ driver, (after.records driver).ops = (before.records driver).ops
  list : after.driverList = before.driverList

theorem Keeps.of_eq {after : Framework World} (records : after.records = framework.records)
    (list : after.driverList = framework.driverList) : Keeps framework after :=
  ⟨fun _ => by rw [records], list⟩

theorem devTransfer_effect (select : DriverOps World → Option (Transfer World)) (fd : ℤ)
    (buf count : ℕ) :
    Effect framework (devTransfer select framework fd buf count).2 ∧
      Keeps framework (devTransfer select framework fd buf count).2 := by
  fun_cases devTransfer select framework fd buf count with
  | case3 slot found =>
    rcases openSlot_eq_some found with ⟨_, rfl, _⟩
    exact ⟨.of_position rfl rfl rfl rfl, .of_eq rfl rfl⟩
  | _ => exact ⟨.of_same rfl rfl, .of_eq rfl rfl⟩

theorem devIoctl_effect (fd : ℤ) (cmd arg : ℕ) :
    Effect framework (devIoctl framework fd cmd arg).2 ∧
      Keeps framework (devIoctl framework fd cmd arg).2 := by
  fun_cases devIoctl framework fd cmd arg
  all_goals exact ⟨.of_same rfl rfl, .of_eq rfl rfl⟩

theorem devSeek_effect (fd offset whence : ℤ) :
    Effect framework (devSeek framework fd offset whence).2 ∧
      Keeps framework (devSeek framework fd offset whence).2 := by
  fun_cases devSeek framework fd offset whence with
  | case1 | case4 => exact ⟨.of_same rfl rfl, .of_eq rfl rfl⟩
  | case2 slot found | case3 slot found =>
    rcases openSlot_eq_some found with ⟨_, rfl, _⟩
    exact ⟨.of_position rfl rfl rfl rfl, .of_eq rfl rfl⟩

theorem Call.run_effect (sound : Sound framework) (call : Call) :
    Effect framework (call.run framework).2 := by
  cases call with
  | register driver => exact driverRegister_effect driver
  | openDevice name flags => exact devOpen_effect sound name flags
  | close fd => exact devClose_effect sound fd
  | read fd buf count => exact (devTransfer_effect DriverOps.read fd buf count).1
  | write fd buf count => exact (devTransfer_effect DriverOps.write fd buf count).1
  | ioctl fd cmd arg => exact (devIoctl_effect fd cmd arg).1
  | seek fd offset whence => exact (devSeek_effect fd offset whence).1

theorem ops_update {driver : ℕ} {record : Record World}
    (same : record.ops = (framework.records driver).ops) (other : ℕ) :
    (Function.update framework.records driver record other).ops =
      (framework.records other).ops := by
  by_cases equal : other = driver
  · rw [equal, Function.update_self, same]
  · rw [Function.update_of_ne equal]

theorem assignMajor_keeps (driver : ℕ) : Keeps framework (assignMajor framework driver) := by
  rw [assignMajor]
  split
  · exact ⟨ops_update rfl, rfl⟩
  · exact .of_eq rfl rfl

theorem callClose_keeps (driver minor : ℕ) :
    Keeps framework (callClose framework driver minor) := by
  rw [callClose]
  split
  · exact .of_eq rfl rfl
  · exact .of_eq rfl rfl

theorem devOpen_keeps (name : Bytes) (flags : ℤ) :
    Keeps framework (devOpen framework name flags).2 := by
  fun_cases devOpen framework name flags with
  | case4 =>
    have kept := @callClose_keeps World
    exact ⟨(kept _ _).ops, (kept _ _).list⟩
  | _ => exact .of_eq rfl rfl

theorem devClose_keeps (fd : ℤ) : Keeps framework (devClose framework fd).2 := by
  simp only [devClose]
  split
  next => exact .of_eq rfl rfl
  next slot _ =>
    have kept := @callClose_keeps World framework slot.driver slot.minor
    exact ⟨kept.ops, kept.list⟩

theorem driverRegister_list (driver : ℕ) :
    (∀ other, ((driverRegister framework driver).2.records other).ops =
        (framework.records other).ops) ∧
      ((driverRegister framework driver).2.driverList = framework.driverList ∨
        driver ≠ 0 ∧
          (driverRegister framework driver).2.driverList = driver :: framework.driverList) := by
  have major := @assignMajor_keeps World framework driver
  have changed {record : Record World}
      (same : record.ops = ((assignMajor framework driver).records driver).ops) (other : ℕ) :
      (Function.update (assignMajor framework driver).records driver record other).ops =
        (framework.records other).ops := (ops_update same other).trans (major.ops other)
  fun_cases driverRegister framework driver with
  | case1 => exact ⟨fun _ => rfl, Or.inl rfl⟩
  | case2 nonzero | case4 nonzero =>
    exact ⟨changed rfl, Or.inr ⟨nonzero, congrArg (driver :: ·) major.list⟩⟩
  | case3 => exact ⟨changed rfl, Or.inl major.list⟩

theorem Call.run_list (valid : call.Valid framework) :
    (∀ driver, ((call.run framework).2.records driver).ops = (framework.records driver).ops) ∧
      ((call.run framework).2.driverList = framework.driverList ∨
        ∃ driver, driver ≠ 0 ∧ (framework.records driver).OpensAndCloses ∧
          (call.run framework).2.driverList = driver :: framework.driverList) := by
  have kept {after : Framework World} (keeps : Keeps framework after) :
      (∀ driver, (after.records driver).ops = (framework.records driver).ops) ∧
        (after.driverList = framework.driverList ∨
          ∃ driver, driver ≠ 0 ∧ (framework.records driver).OpensAndCloses ∧
            after.driverList = driver :: framework.driverList) := ⟨keeps.ops, Or.inl keeps.list⟩
  cases call with
  | register driver =>
    rcases @driverRegister_list World framework driver with ⟨ops, same | ⟨nonzero, added⟩⟩
    · exact ⟨ops, Or.inl same⟩
    · exact ⟨ops, Or.inr ⟨driver, nonzero, valid.2 nonzero, added⟩⟩
  | openDevice name flags => exact kept (devOpen_keeps name flags)
  | close fd => exact kept (devClose_keeps fd)
  | read fd buf count => exact kept (devTransfer_effect DriverOps.read fd buf count).2
  | write fd buf count => exact kept (devTransfer_effect DriverOps.write fd buf count).2
  | ioctl fd cmd arg => exact kept (devIoctl_effect fd cmd arg).2
  | seek fd offset whence => exact kept (devSeek_effect fd offset whence).2

theorem Effect.holding {after : Framework World} (effect : Effect framework after)
    (sound : Sound framework) (i : ℕ) (used : (after.deviceFds i).driver ≠ 0) :
    (after.deviceFds i).driver ∈ framework.driverList := by
  have kept (same : after.deviceFds i = framework.deviceFds i) :
      (after.deviceFds i).driver ∈ framework.driverList := by
    rw [same] at used ⊢
    exact sound.holding i used
  cases effect with
  | quiet _ drivers _ =>
    rw [drivers i] at used ⊢
    exact sound.holding i used
  | opened j slot _ _ registered _ replaced =>
    by_cases same : i = j
    · rw [replaced, same, Function.update_self]
      exact registered
    · exact kept (by rw [replaced, Function.update_of_ne same])
  | refused _ _ _ same => exact kept (by rw [same])
  | closed j _ _ _ replaced =>
    by_cases same : i = j
    · rw [replaced, same, Function.update_self] at used
      exact absurd rfl used
    · exact kept (by rw [replaced, Function.update_of_ne same])

theorem Sound.run (sound : Sound framework) (valid : call.Valid framework) :
    Sound (call.run framework).2 := by
  rcases call.run_list valid with ⟨ops, list⟩
  have opensAndCloses {driver : ℕ} (had : (framework.records driver).OpensAndCloses) :
      ((call.run framework).2.records driver).OpensAndCloses := by
    rcases had with ⟨callbacks, hasOps, both⟩
    exact ⟨callbacks, (ops driver).trans hasOps, both⟩
  have grows : framework.driverList ⊆ (call.run framework).2.driverList := by
    rcases list with same | ⟨driver, _, _, added⟩
    · rw [same]
      exact List.Subset.refl _
    · rw [added]
      exact List.subset_cons_self _ _
  refine ⟨fun driver listed => ?_, fun i used => ?_⟩
  · rcases list with same | ⟨added, nonzero, both, isAdded⟩
    · rw [same] at listed
      exact ⟨(sound.listed driver listed).1, opensAndCloses (sound.listed driver listed).2⟩
    · rw [isAdded, List.mem_cons] at listed
      rcases listed with rfl | before
      · exact ⟨nonzero, opensAndCloses both⟩
      · exact ⟨(sound.listed driver before).1, opensAndCloses (sound.listed driver before).2⟩
  · exact grows ((call.run_effect sound).holding sound i used)

theorem held_update {deviceFds : ℕ → Slot} {i : ℕ} {slot : Slot} (inside : i < maxOpenDevices)
    (driver minor : ℕ) :
    held (Function.update deviceFds i slot) driver minor +
        (if (deviceFds i).driver = driver ∧ (deviceFds i).minor = minor then 1 else 0) =
      held deviceFds driver minor +
        if slot.driver = driver ∧ slot.minor = minor then 1 else 0 := by
  let holds (slot : Slot) : ℕ := if slot.driver = driver ∧ slot.minor = minor then 1 else 0
  have sums (table : ℕ → Slot) :
      held table driver minor = ∑ j ∈ Finset.range maxOpenDevices, holds (table j) := by
    rw [held, Finset.card_filter]
  have member : i ∈ Finset.range maxOpenDevices := Finset.mem_range.mpr inside
  have others : ∑ j ∈ (Finset.range maxOpenDevices).erase i,
      holds (Function.update deviceFds i slot j) =
        ∑ j ∈ (Finset.range maxOpenDevices).erase i, holds (deviceFds j) := by
    refine Finset.sum_congr rfl fun j listed => ?_
    rw [Function.update_of_ne (Finset.ne_of_mem_erase listed)]
  rw [sums, sums, ← Finset.add_sum_erase _ _ member, ← Finset.add_sum_erase _ _ member,
    Function.update_self, others]
  change holds slot + _ + holds (deviceFds i) = holds (deviceFds i) + _ + holds slot
  omega

theorem Effect.balanced {after : Framework World} (effect : Effect framework after)
    (balanced : Balanced framework) : Balanced after := by
  intro driver minor nonzero
  have before := balanced driver minor nonzero
  cases effect with
  | quiet events drivers minors =>
    have same : held after.deviceFds driver minor = held framework.deviceFds driver minor := by
      simp only [held, drivers, minors]
    rw [events, same, before]
  | opened i slot inside free _ events replaced =>
    have moved := @held_update framework.deviceFds i slot inside driver minor
    rw [free, if_neg (fun holds => nonzero holds.1.symm)] at moved
    rw [events, replaced, List.count_append, List.count_append, List.count_singleton,
      List.count_singleton]
    simp only [beq_iff_eq, Event.opened.injEq, reduceCtorEq, if_false]
    split_ifs at moved ⊢
    · omega
    · omega
  | refused other minor' events same =>
    rw [events, same, List.count_append, List.count_append]
    simp only [List.count_cons, List.count_nil, beq_iff_eq, Event.opened.injEq,
      Event.closed.injEq, reduceCtorEq, if_false]
    omega
  | closed i inside used events replaced =>
    have moved := @held_update framework.deviceFds i .cleared inside driver minor
    have cleared : ¬ (Slot.cleared.driver = driver ∧ Slot.cleared.minor = minor) :=
      fun holds => nonzero holds.1.symm
    rw [if_neg cleared] at moved
    rw [events, replaced, List.count_append, List.count_append, List.count_singleton,
      List.count_singleton]
    simp only [beq_iff_eq, Event.closed.injEq, reduceCtorEq, if_false]
    split_ifs at moved ⊢
    · omega
    · omega

theorem balanced_driverInit (framework : Framework World) : Balanced (driverInit framework) := by
  intro driver minor nonzero
  have none : held (driverInit framework).deviceFds driver minor = 0 := by
    rw [held, Finset.card_eq_zero, Finset.filter_eq_empty_iff]
    exact fun _ _ holds => nonzero holds.1.symm
  rw [none]
  rfl

theorem Reachable.sound (reached : Reachable framework) : Sound framework := by
  induction reached with
  | init framework => exact ⟨by simp [driverInit], fun _ used => absurd rfl used⟩
  | call _ valid ih => exact ih.run valid

/-- In every reachable state, the successful opens of a device exceed the closes by the number of
descriptors that hold it. -/
theorem opens_closes_balanced (reached : Reachable framework) : Balanced framework := by
  induction reached with
  | init framework => exact balanced_driverInit framework
  | @call _ call reached _ ih => exact (call.run_effect reached.sound).balanced ih

def sampleRecord : Record Unit where
  name := CString.ascii "tty"
  state := .unloaded
  major := 0
  ops := some
    { openDevice := some fun _ _ => (0, ())
      closeDevice := some fun _ _ => (0, ())
      read := none
      write := none
      init := none
      ioctl := none }

def sampleFramework : Framework Unit where
  world := ()
  records := fun _ => sampleRecord
  driverList := []
  nextMajor := 1
  deviceFds := fun _ => .cleared
  events := []

theorem opens_closes_balanced_sample :
    Balanced ((Call.openDevice (CString.ascii "/dev/tty3") 0).run
      ((Call.register 8).run (driverInit sampleFramework)).2).2 := by
  have valid : (Call.register 8).Valid (driverInit sampleFramework) :=
    ⟨List.not_mem_nil, fun _ => ⟨_, rfl, rfl, rfl⟩⟩
  apply opens_closes_balanced
  apply Reachable.call
  · exact (Reachable.init sampleFramework).call valid
  · trivial

end RamOS.Drivers.Registry
