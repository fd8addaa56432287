import Mathlib.Algebra.Group.Nat.Defs
import RamOS.Lib.Extents

/-!
# The installer's partition table

The installer keeps the four entries of a master boot record. Sector numbers and counts are
words and their sums wrap; the sectors that an entry describes are taken in unbounded integers,
so a table is safe when its entries are extents packed below the disk size. A call that returns
-1 has no result.
-/

namespace RamOS.Installer

/-- The fields of `mbr_partition_t`, without the CHS addresses, which are zero. -/
structure Partition where
  status : UInt8
  type : UInt8
  firstLba : UInt32
  numSectors : UInt32

/-- `mbr_t`, without the boot code. -/
structure Mbr where
  partitions : Fin 4 → Partition
  signature : UInt16

/-- Which of the system calls succeed in full, and the size that the control request of
`get_disk_size` stores, whatever the disk's own size is: 0 where the request fails. -/
structure Io where
  opens : Bool
  reads : Bool
  writes : Bool
  sizeOpens : Bool
  stored : UInt32

structure Call where
  io : Io
  partitionNum : ℤ
  startSector : UInt32
  numSectors : UInt32

def clearedPartition : Partition where
  status := 0
  type := 0
  firstLba := 0
  numSectors := 0

def createPartitionTable (io : Io) : Option Mbr :=
  if io.opens && io.writes then
    some { partitions := fun _ => clearedPartition, signature := 0xAA55 }
  else none

def getDiskSize (io : Io) : UInt32 :=
  if !io.sizeOpens then 0 else if io.stored = 0 then 8 * 1024 * 1024 * 2 else io.stored

def pushStart (mbr : Mbr) (start : UInt32) (i : Fin 4) : UInt32 :=
  if 0 < (mbr.partitions i).numSectors then
    let stop := (mbr.partitions i).firstLba + (mbr.partitions i).numSectors
    if start < stop then stop else start
  else start

def resolveStart (mbr : Mbr) (idx : Fin 4) (startSector : UInt32) : UInt32 :=
  if startSector = 0 then ((List.finRange 4).filter (· < idx)).foldl (pushStart mbr) 2048
  else startSector

def partitionIndex (partitionNum : ℤ) : Option (Fin 4) :=
  if inRange : 1 ≤ partitionNum ∧ partitionNum ≤ 4 then
    some ⟨(partitionNum - 1).toNat, by omega⟩
  else none

def resolveCount (first : UInt32) (call : Call) : UInt32 :=
  if call.numSectors = 0 then getDiskSize call.io - first else call.numSectors

def createPartition (mbr : Mbr) (call : Call) : Option Mbr :=
  match partitionIndex call.partitionNum with
  | none => none
  | some idx =>
    if !(call.io.opens && call.io.reads) then none
    else if mbr.signature ≠ 0xAA55 then none
    else
      let first := resolveStart mbr idx call.startSector
      if !call.io.writes then none
      else
        some { mbr with
          partitions := Function.update mbr.partitions idx
            { status := if call.partitionNum = 1 then 0x80 else 0x00
              type := 0x83
              firstLba := first
              numSectors := resolveCount first call } }

def tableAfter (io : Io) (calls : List Call) : Option Mbr :=
  (createPartitionTable io).bind fun mbr => calls.foldlM createPartition mbr

def bootCall (io : Io) : Call where
  io := io
  partitionNum := 1
  startSector := 0
  numSectors := 256 * 1024 * 2

def rootCall (io : Io) : Call where
  io := io
  partitionNum := 2
  startSector := 256 * 1024 * 2
  numSectors := 0

def partitionDisk (tableIo bootIo rootIo : Io) : Option Mbr :=
  tableAfter tableIo [bootCall bootIo, rootCall rootIo]

def Partition.extent (partition : Partition) : Extent where
  first := partition.firstLba.toNat
  count := partition.numSectors.toNat

def Safe (diskSize : UInt32) (mbr : Mbr) : Prop :=
  Extent.Packed diskSize.toNat fun i => (mbr.partitions i).extent

/-- Any other entry with sectors, except the lower-numbered ones when the start sector is
automatic. -/
def Competes (mbr : Mbr) (idx : Fin 4) (call : Call) (other : Fin 4) : Prop :=
  other ≠ idx ∧ 0 < (mbr.partitions other).numSectors ∧ (call.startSector = 0 → idx < other)

/-- The sector behind the last one a call asks for, in unbounded integers. -/
def Call.lastSector (call : Call) (first : ℕ) : ℕ :=
  if call.numSectors = 0 then (getDiskSize call.io).toNat
  else first + call.numSectors.toNat

/-- The call asks for the rest of the disk where none is left, or for sectors inside the disk and
apart from every competing entry. -/
def Admissible (diskSize : UInt32) (mbr : Mbr) (call : Call) : Prop :=
  ∀ idx, partitionIndex call.partitionNum = some idx →
    let first := (resolveStart mbr idx call.startSector).toNat
    let last := call.lastSector first
    (call.numSectors = 0 ∧ first = last) ∨
      (first < last ∧ last ≤ diskSize.toNat ∧ ∀ other, Competes mbr idx call other →
        (mbr.partitions other).extent.stop ≤ first ∨ last ≤ (mbr.partitions other).extent.first)

theorem le_foldl_pushStart (mbr : Mbr) (entries : List (Fin 4)) (start : UInt32) :
    start.toNat ≤ (entries.foldl (pushStart mbr) start).toNat ∧
      ∀ i ∈ entries, 0 < (mbr.partitions i).numSectors →
        ((mbr.partitions i).firstLba + (mbr.partitions i).numSectors).toNat ≤
          (entries.foldl (pushStart mbr) start).toNat := by
  induction entries generalizing start with
  | nil => simp
  | cons entry entries ih =>
    rcases ih (pushStart mbr start entry) with ⟨grows, covers⟩
    have step : start.toNat ≤ (pushStart mbr start entry).toNat ∧
        (0 < (mbr.partitions entry).numSectors →
          ((mbr.partitions entry).firstLba + (mbr.partitions entry).numSectors).toNat ≤
            (pushStart mbr start entry).toNat) := by
      simp only [pushStart]
      split
      next =>
        split
        next later => exact ⟨(UInt32.lt_iff_toNat_lt.mp later).le, fun _ => le_rfl⟩
        next earlier =>
          rw [UInt32.lt_iff_toNat_lt, not_lt] at earlier
          exact ⟨le_rfl, fun _ => earlier⟩
      next empty => exact ⟨le_rfl, fun nonempty => absurd nonempty empty⟩
    rw [List.foldl_cons]
    refine ⟨step.1.trans grows, ?_⟩
    intro i listed nonempty
    rcases List.mem_cons.mp listed with rfl | later
    · exact (step.2 nonempty).trans grows
    · exact covers i later nonempty

variable {diskSize : UInt32} {mbr : Mbr} {io : Io} {calls : List Call}

theorem stop_le_resolveStart {idx other : Fin 4} (safe : Safe diskSize mbr) (lower : other < idx)
    (nonempty : 0 < (mbr.partitions other).numSectors) :
    (mbr.partitions other).extent.stop ≤ (resolveStart mbr idx 0).toNat := by
  have inside : (mbr.partitions other).extent.stop ≤ diskSize.toNat :=
    safe.inside other (UInt32.lt_iff_toNat_lt.mp nonempty)
  have listed : other ∈ (List.finRange 4).filter (· < idx) := by
    simpa using lower
  have covered := (le_foldl_pushStart mbr ((List.finRange 4).filter (· < idx)) 2048).2 other listed
    nonempty
  have bound := diskSize.toNat_lt
  rw [UInt32.toNat_add] at covered
  simp only [Partition.extent, Extent.stop] at inside ⊢
  rw [resolveStart, if_pos rfl]
  omega

theorem createPartition_cases {next : Mbr} {call : Call}
    (succeeds : createPartition mbr call = some next) :
    ∃ idx, partitionIndex call.partitionNum = some idx ∧
      (fun i => (next.partitions i).extent) =
        Function.update (fun i => (mbr.partitions i).extent) idx
          { first := (resolveStart mbr idx call.startSector).toNat
            count :=
              (resolveCount (resolveStart mbr idx call.startSector) call).toNat } := by
  revert succeeds
  fun_cases createPartition mbr call with
  | case5 idx index _ _ first =>
    rintro ⟨⟩
    refine ⟨idx, index, ?_⟩
    funext i
    by_cases same : i = idx
    · subst same
      simp [Partition.extent, first]
    · simp [same]
  | _ => exact fun succeeds => nomatch succeeds

theorem resolveCount_cases (first : UInt32) (call : Call) :
    (call.numSectors = 0 ∧ first.toNat = call.lastSector first.toNat ∧
        (resolveCount first call).toNat = 0) ∨
      (first.toNat < call.lastSector first.toNat ∧
        first.toNat + (resolveCount first call).toNat =
          call.lastSector first.toNat) ∨
      (call.numSectors = 0 ∧ call.lastSector first.toNat < first.toNat ∧
        2 ^ 32 ≤ first.toNat + (resolveCount first call).toNat) := by
  have firstLt := first.toNat_lt
  by_cases rest : call.numSectors = 0
  · have sizeLt := (getDiskSize call.io).toNat_lt
    have count : resolveCount first call =
        getDiskSize call.io - first := by rw [resolveCount, if_pos rest]
    have last : call.lastSector first.toNat =
        (getDiskSize call.io).toNat := by rw [Call.lastSector, if_pos rest]
    rw [count, last, UInt32.toNat_sub]
    simp only [rest, true_and]
    omega
  · have positive : 0 < call.numSectors.toNat := by
      rw [Nat.pos_iff_ne_zero]
      exact fun zero => rest (UInt32.toNat_inj.mp zero)
    rw [resolveCount, Call.lastSector, if_neg rest, if_neg rest]
    exact Or.inr (Or.inl ⟨by omega, rfl⟩)

theorem createPartition_safe_iff {next : Mbr} {call : Call} (safe : Safe diskSize mbr)
    (succeeds : createPartition mbr call = some next) :
    Safe diskSize next ↔ Admissible diskSize mbr call := by
  rcases createPartition_cases succeeds with ⟨idx, index, replaced⟩
  have diskLt := diskSize.toNat_lt
  have firstLt := (resolveStart mbr idx call.startSector).toNat_lt
  have competing (first last : ℕ)
      (behind : call.startSector = 0 → (resolveStart mbr idx 0).toNat = first) :
      (∀ other ≠ idx, 0 < (mbr.partitions other).extent.count →
          (mbr.partitions other).extent.stop ≤ first ∨
            last ≤ (mbr.partitions other).extent.first) ↔
        ∀ other, Competes mbr idx call other →
          (mbr.partitions other).extent.stop ≤ first ∨
            last ≤ (mbr.partitions other).extent.first := by
    constructor
    · rintro apart other ⟨distinct, nonempty, -⟩
      exact apart other distinct (UInt32.lt_iff_toNat_lt.mp nonempty)
    · intro apart other distinct nonempty
      have hasSectors : 0 < (mbr.partitions other).numSectors :=
        UInt32.lt_iff_toNat_lt.mpr nonempty
      by_cases covered : call.startSector = 0 ∧ other < idx
      · rw [← behind covered.1]
        exact Or.inl (stop_le_resolveStart safe covered.2 hasSectors)
      · refine apart other ⟨distinct, hasSectors, fun automatic => ?_⟩
        have notLower : ¬ other.val < idx.val := fun lower => covered ⟨automatic, lower⟩
        have notSame : other.val ≠ idx.val := fun same => distinct (Fin.ext same)
        rw [Fin.lt_def]
        omega
  rw [Safe, replaced, safe.update_iff]
  simp only [Admissible, index, Option.some.injEq, forall_eq']
  rw [← competing _ _ (fun automatic => by rw [automatic])]
  simp only [Extent.stop]
  rcases resolveCount_cases (resolveStart mbr idx call.startSector) call with
    ⟨rest, ends, empty⟩ | ⟨ordered, ends⟩ | ⟨rest, wrapped, large⟩
  · exact iff_of_true (Or.inl empty) (Or.inl ⟨rest, ends⟩)
  · rw [ends]
    constructor
    · rintro (empty | fits)
      · omega
      · exact Or.inr ⟨ordered, fits⟩
    · rintro (⟨-, same⟩ | ⟨-, fits⟩)
      · omega
      · exact Or.inr fits
  · refine iff_of_false ?_ ?_
    · rintro (empty | ⟨inside, -⟩)
      all_goals omega
    · rintro (⟨-, same⟩ | ⟨ordered, -⟩)
      all_goals omega

theorem createPartitionTable_safe (created : createPartitionTable io = some mbr) :
    Safe diskSize mbr := by
  rw [createPartitionTable] at created
  split at created
  next =>
    cases created
    refine ⟨fun index nonempty => ?_, fun left right _ => ?_⟩
    · exact absurd nonempty (Nat.lt_irrefl 0)
    · exact Extent.disjoint_cells_of_empty rfl _
  next => cases created

theorem tableAfter_append (io : Io) (calls more : List Call) :
    tableAfter io (calls ++ more) =
      (tableAfter io calls).bind
        fun mbr => more.foldlM createPartition mbr := by
  rw [tableAfter, tableAfter, Option.bind_assoc]
  congr 1
  funext mbr
  exact List.foldlM_append

theorem tableAfter_take_succ {k : ℕ} (inside : k < calls.length) :
    tableAfter io (calls.take (k + 1)) =
      (tableAfter io (calls.take k)).bind fun mbr =>
        createPartition mbr calls[k] := by
  rw [List.take_succ_eq_append_getElem inside, tableAfter_append]
  congr 1
  funext mbr
  simp

theorem tableAfter_take_isSome {final : Mbr} (succeeds : tableAfter io calls = some final)
    (k : ℕ) :
    ∃ mbr, tableAfter io (calls.take k) = some mbr := by
  rw [← List.take_append_drop k calls, tableAfter_append] at succeeds
  rcases Option.bind_eq_some_iff.mp succeeds with ⟨mbr, reached, -⟩
  exact ⟨mbr, reached⟩

theorem safe_of_admissible
    (admissible : ∀ k (inside : k < calls.length) mbr,
      tableAfter io (calls.take k) = some mbr → Admissible diskSize mbr calls[k])
    (k : ℕ) (mbr : Mbr) (reached : tableAfter io (calls.take k) = some mbr) :
    Safe diskSize mbr := by
  induction k generalizing mbr with
  | zero =>
    rcases Option.bind_eq_some_iff.mp reached with ⟨created, made, same⟩
    cases same
    exact createPartitionTable_safe made
  | succ k ih =>
    by_cases inside : k < calls.length
    · rw [tableAfter_take_succ inside] at reached
      rcases Option.bind_eq_some_iff.mp reached with ⟨before, reachedBefore, stepped⟩
      exact (createPartition_safe_iff (ih before reachedBefore) stepped).mpr
        (admissible k inside before reachedBefore)
    · rw [List.take_of_length_le (by omega)] at reached
      exact ih mbr (by rwa [List.take_of_length_le (by omega)])

/-- The installer's own two partitions overlap or leave the disk, unless the size request reports
just the sectors of the boot partition on a larger disk: then the root partition is empty. -/
theorem partitionDisk_safe {tableIo bootIo rootIo : Io} {table : Mbr}
    (succeeds : partitionDisk tableIo bootIo rootIo = some table) :
    Safe diskSize table ↔ 2048 + 524288 ≤ diskSize.toNat ∧ getDiskSize rootIo = 524288 := by
  rcases Option.bind_eq_some_iff.mp succeeds with ⟨empty, created, calls⟩
  rcases Option.bind_eq_some_iff.mp calls with ⟨boot, bootMade, rest⟩
  rcases Option.bind_eq_some_iff.mp rest with ⟨last, rootMade, same⟩
  cases same
  have size : (rootCall rootIo).lastSector 524288 = (getDiskSize rootIo).toNat := rfl
  constructor
  · intro safe
    rcases createPartition_cases bootMade with ⟨bootIdx, bootIndex, bootExtents⟩
    rcases createPartition_cases rootMade with ⟨rootIdx, rootIndex, rootExtents⟩
    have isFirst : bootIdx = 0 := (Option.some.inj bootIndex).symm
    have isSecond : rootIdx = 1 := (Option.some.inj rootIndex).symm
    subst isFirst isSecond
    have bootExtent : (table.partitions 0).extent = { first := 2048, count := 524288 } := by
      have kept := congrFun rootExtents 0
      have made := congrFun bootExtents 0
      rw [Function.update_of_ne (by decide)] at kept
      rw [Function.update_self] at made
      exact kept.trans made
    have rootExtent : (table.partitions 1).extent =
        { first := 524288, count := (resolveCount 524288 (rootCall rootIo)).toNat } := by
      have made := congrFun rootExtents 1
      rwa [Function.update_self] at made
    have bootInside := safe.inside 0
    have separate := safe.apart (by decide : (0 : Fin 4) ≠ 1)
    rw [bootExtent] at bootInside
    rw [bootExtent, rootExtent] at separate
    refine ⟨bootInside (by decide), ?_⟩
    by_contra other
    have nonempty : 0 < (resolveCount 524288 (rootCall rootIo)).toNat := by
      have start : UInt32.toNat 524288 = 524288 := rfl
      rcases resolveCount_cases 524288 (rootCall rootIo) with
        ⟨-, ends, -⟩ | ⟨ordered, ends⟩ | ⟨-, -, large⟩
      · exact absurd (UInt32.toNat_inj.mp (size.symm.trans ends.symm)) other
      all_goals omega
    have apart := separate (by decide) nonempty
    simp only [Extent.stop] at apart
    omega
  · rintro ⟨bootInside, noRest⟩
    have bootSafe : Safe diskSize boot := by
      refine (createPartition_safe_iff (createPartitionTable_safe created) bootMade).mpr ?_
      rintro idx ⟨⟩
      refine Or.inr ⟨show 2048 < 2048 + 524288 by decide, bootInside, fun other competes => ?_⟩
      rw [createPartitionTable] at created
      split at created
      · cases created
        exact absurd competes.2.1 (lt_irrefl 0)
      · cases created
    refine (createPartition_safe_iff bootSafe rootMade).mpr ?_
    rintro idx ⟨⟩
    refine Or.inl ⟨rfl, ?_⟩
    change 524288 = (getDiskSize rootIo).toNat
    rw [noRest]
    rfl

/-- Along successful calls the table is safe in all states exactly when every call is admissible
where it is made; the installer's sequence leaves a safe table only where the device reports 256 MB
and has more. -/
theorem partitions_safe_iff {diskSize : UInt32} {io : Io} {calls : List Call} {final : Mbr}
    (succeeds : tableAfter io calls = some final) :
    ((∀ k mbr, tableAfter io (calls.take k) = some mbr → Safe diskSize mbr) ↔
      ∀ k (inside : k < calls.length) mbr,
        tableAfter io (calls.take k) = some mbr → Admissible diskSize mbr calls[k]) ∧
    ∀ tableIo bootIo rootIo table, partitionDisk tableIo bootIo rootIo = some table →
      (Safe diskSize table ↔
        2048 + 524288 ≤ diskSize.toNat ∧ getDiskSize rootIo = 524288) := by
  refine ⟨⟨?_, safe_of_admissible⟩, fun _ _ _ _ => partitionDisk_safe⟩
  intro safe k inside mbr reached
  rcases tableAfter_take_isSome succeeds (k + 1) with ⟨next, reachedNext⟩
  have stepped := reachedNext
  rw [tableAfter_take_succ inside, reached, Option.bind_some] at stepped
  exact (createPartition_safe_iff (safe k mbr reached) stepped).mp (safe (k + 1) next reachedNext)

def workingIo (stored : UInt32) : Io where
  opens := true
  reads := true
  writes := true
  sizeOpens := true
  stored := stored

/-- The rest of a disk of 2 GB whose size request fails is a partition of nearly 8 GB. -/
theorem partitions_safe_iff_rest :
    ¬ ∀ k mbr,
      tableAfter (workingIo 0)
        ([{ io := workingIo 0, partitionNum := 1, startSector := 2048, numSectors := 0 }].take k) =
          some mbr → Safe 4194304 mbr := by
  intro safe
  rcases (partitions_safe_iff rfl).1.mp safe 0 (by decide) _ rfl 0 rfl with
    ⟨-, same⟩ | ⟨-, inside, -⟩
  · exact absurd same (by decide)
  · exact absurd inside (by decide)

/-- On 8 GB the installer's boot partition reaches 2048 sectors into its root partition. -/
theorem partitionDisk_overlaps :
    ∃ table, partitionDisk (workingIo 16777216) (workingIo 16777216) (workingIo 16777216) =
        some table ∧
      (table.partitions 0).extent = { first := 2048, count := 524288 } ∧
      (table.partitions 1).extent = { first := 524288, count := 16252928 } ∧
      ¬ Safe 16777216 table :=
  ⟨_, rfl, rfl, rfl, fun safe => absurd ((@partitionDisk_safe _ (workingIo 16777216)
    (workingIo 16777216) (workingIo 16777216) _ rfl).mp safe).2 (by decide)⟩

end RamOS.Installer
