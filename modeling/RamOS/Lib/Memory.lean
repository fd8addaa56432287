import Mathlib.Algebra.Group.Nat.Defs
import Mathlib.Data.Set.BooleanAlgebra
import Mathlib.Order.CompletePartialOrder

/-!
# Byte-addressed memory

A memory is a total function from addresses to bytes. Words are stored little endian. Two
memories that agree on a footprint are compared with `Set.EqOn`.

The loops that fill or copy a range are kept as loops: a copy whose source and target overlap
behaves as the byte-by-byte loop does.
-/

abbrev Bytes := List UInt8

namespace ByteMemory

abbrev Memory := ℕ → UInt8

def range (start length : ℕ) : Set ℕ := Set.Ico start (start + length)

variable {address leftLength rightLength dest count src location offset : ℕ} {memory : Memory}

@[simp]
theorem mem_range {start length : ℕ} :
    address ∈ range start length ↔ start ≤ address ∧ address < start + length := Iff.rfl

theorem mem_compl_range {start length address : ℕ} :
    address ∈ (range start length)ᶜ ↔ ¬ (start ≤ address ∧ address < start + length) := Iff.rfl

theorem range_subset_range {left right : ℕ} (lower : right ≤ left)
    (upper : left + leftLength ≤ right + rightLength) :
    range left leftLength ⊆ range right rightLength := by
  intro address inside
  rw [mem_range] at inside ⊢
  omega

theorem apart_of_disjoint_range {left right : ℕ}
    (disjoint : Disjoint (range left leftLength) (range right rightLength))
    (leftPos : 0 < leftLength) (rightPos : 0 < rightLength) :
    left + leftLength ≤ right ∨ right + rightLength ≤ left := by
  by_contra overlap
  have inLeft : max left right ∈ range left leftLength := by
    rw [mem_range]
    omega
  have inRight : max left right ∈ range right rightLength := by
    rw [mem_range]
    omega
  exact Set.disjoint_left.mp disjoint inLeft inRight

theorem disjoint_range {left right : ℕ}
    (apart : left + leftLength ≤ right ∨ right + rightLength ≤ left) :
    Disjoint (range left leftLength) (range right rightLength) := by
  rw [Set.disjoint_left]
  intro address inLeft inRight
  rw [mem_range] at inLeft inRight
  omega

def read32 (memory : Memory) (address : ℕ) : ℕ :=
  (memory address).toNat + 2 ^ 8 * (memory (address + 1)).toNat +
    2 ^ 16 * (memory (address + 2)).toNat + 2 ^ 24 * (memory (address + 3)).toNat

def write32 (memory : Memory) (address value : ℕ) : Memory := fun location =>
  if address ≤ location ∧ location < address + 4 then
    UInt8.ofNat (value / 2 ^ (8 * (location - address)))
  else memory location

def write8 (memory : Memory) (address : ℕ) (value : UInt8) : Memory :=
  Function.update memory address value

/-- The byte loop `while (n--) *dest++ = *src++`. -/
def copy (memory : Memory) (dest src : ℕ) : ℕ → Memory
  | 0 => memory
  | count + 1 => copy (write8 memory dest (memory src)) (dest + 1) (src + 1) count

/-- The byte loop `while (n--) *p++ = value`. -/
def fill (memory : Memory) (dest : ℕ) (value : UInt8) : ℕ → Memory
  | 0 => memory
  | count + 1 => fill (write8 memory dest value) (dest + 1) value count

def fillWords (memory : Memory) (dest value : ℕ) : ℕ → Memory
  | 0 => memory
  | count + 1 => write32 (fillWords memory dest value count) (dest + 4 * count) value

def copyWords (memory : Memory) (dest src : ℕ) : ℕ → Memory
  | 0 => memory
  | count + 1 =>
    let copied := copyWords memory dest src count
    write32 copied (dest + 4 * count) (read32 copied (src + 4 * count))

/-- Replace `count` bytes from `dest` on by those of another store from `src` on. -/
def transfer (target : Memory) (dest count : ℕ) (source : Memory) (src : ℕ) : Memory :=
  fun location =>
    if dest ≤ location ∧ location < dest + count then source (src + (location - dest))
    else target location

theorem transfer_apply {target source : Memory} {dest count src offset : ℕ}
    (inside : offset < count) :
    transfer target dest count source src (dest + offset) = source (src + offset) := by
  have condition : dest ≤ dest + offset ∧ dest + offset < dest + count := by omega
  rw [transfer, if_pos condition, Nat.add_sub_cancel_left]

theorem transfer_apply_of_outside {target source : Memory}
    (outside : ¬ (dest ≤ location ∧ location < dest + count)) :
    transfer target dest count source src location = target location := by
  rw [transfer, if_neg outside]

/-- The result agrees with the source on the replaced bytes and with the target elsewhere. -/
theorem transfer_eq_iff {target source result : Memory} :
    transfer target dest count source src = result ↔
      (∀ offset < count, source (src + offset) = result (dest + offset)) ∧
        ∀ location, ¬ (dest ≤ location ∧ location < dest + count) →
          target location = result location := by
  constructor
  · rintro rfl
    exact ⟨fun offset inside => (transfer_apply inside).symm,
      fun location outside => (transfer_apply_of_outside outside).symm⟩
  · rintro ⟨replaced, kept⟩
    funext location
    by_cases inside : dest ≤ location ∧ location < dest + count
    · have shape : location = dest + (location - dest) := by omega
      rw [shape, transfer_apply (by omega)]
      exact replaced _ (by omega)
    · rw [transfer_apply_of_outside inside]
      exact kept location inside

@[simp]
theorem transfer_zero (target : Memory) (dest : ℕ) (source : Memory) (src : ℕ) :
    transfer target dest 0 source src = target := by
  funext location
  exact transfer_apply_of_outside (by omega)

theorem transfer_transfer (target : Memory) (dest first second : ℕ) (source : Memory) (src : ℕ) :
    transfer (transfer target dest first source src) (dest + first) second source (src + first) =
      transfer target dest (first + second) source src := by
  funext location
  simp only [transfer]
  split
  next inside =>
    rw [if_pos (by omega)]
    congr 1
    omega
  next outside =>
    split
    next before => rw [if_pos (by omega)]
    next => rw [if_neg (by omega)]

theorem read32_lt (memory : Memory) (address : ℕ) : read32 memory address < 2 ^ 32 := by
  have byte0 := (memory address).toNat_lt
  have byte1 := (memory (address + 1)).toNat_lt
  have byte2 := (memory (address + 2)).toNat_lt
  have byte3 := (memory (address + 3)).toNat_lt
  simp only [read32]
  omega

theorem read32_congr {left right : Memory} (agree : Set.EqOn left right (range address 4)) :
    read32 left address = read32 right address := by
  have byte (offset : ℕ) (inside : offset < 4) :
      left (address + offset) = right (address + offset) := by
    apply agree
    rw [mem_range]
    omega
  have byte0 := byte 0 (by omega)
  simp only [Nat.add_zero] at byte0
  simp only [read32, byte0, byte 1 (by omega), byte 2 (by omega), byte 3 (by omega)]

theorem read32_write32_same (memory : Memory) (address value : ℕ) :
    read32 (write32 memory address value) address = value % 2 ^ 32 := by
  have byte (offset : ℕ) (inside : offset < 4) :
      (write32 memory address value (address + offset)).toNat =
        value / 2 ^ (8 * offset) % 2 ^ 8 := by
    have condition : address ≤ address + offset ∧ address + offset < address + 4 := by omega
    simp only [write32, if_pos condition, Nat.add_sub_cancel_left]
    rfl
  have byte0 := byte 0 (by omega)
  simp only [Nat.add_zero] at byte0
  simp only [read32, byte0, byte 1 (by omega), byte 2 (by omega), byte 3 (by omega)]
  omega

theorem write32_eqOn (memory : Memory) (address value : ℕ) :
    Set.EqOn (write32 memory address value) memory (range address 4)ᶜ := by
  intro location outside
  rw [mem_compl_range] at outside
  simp only [write32, if_neg outside]

theorem write32_apply_of_outside {value : ℕ}
    (outside : location < address ∨ address + 4 ≤ location) :
    write32 memory address value location = memory location := by
  apply write32_eqOn
  rw [mem_compl_range]
  omega

theorem read32_write32_of_disjoint {value other : ℕ}
    (disjoint : other + 4 ≤ address ∨ address + 4 ≤ other) :
    read32 (write32 memory address value) other = read32 memory other := by
  apply read32_congr
  intro location inside
  rw [mem_range] at inside
  apply write32_apply_of_outside
  omega

@[simp]
theorem write8_same (memory : Memory) (address : ℕ) (value : UInt8) :
    write8 memory address value address = value := by
  simp [write8]

theorem write8_apply_of_ne {value : UInt8} (distinct : location ≠ address) :
    write8 memory address value location = memory location := by
  simp [write8, distinct]

theorem write8_eqOn {bytes : Set ℕ} {value : UInt8} (outside : address ∉ bytes) :
    Set.EqOn (write8 memory address value) memory bytes := by
  intro location inside
  apply write8_apply_of_ne
  rintro rfl
  exact outside inside

theorem read32_write8_of_outside {other : ℕ} {value : UInt8}
    (outside : address < other ∨ other + 4 ≤ address) :
    read32 (write8 memory address value) other = read32 memory other := by
  apply read32_congr
  intro location inside
  rw [mem_range] at inside
  apply write8_apply_of_ne
  omega

theorem copy_eqOn (memory : Memory) (dest src count : ℕ) :
    Set.EqOn (copy memory dest src count) memory (range dest count)ᶜ := by
  induction count generalizing memory dest src with
  | zero => exact fun _ _ => rfl
  | succ count ih =>
    intro location outside
    rw [mem_compl_range] at outside
    rw [copy, ih _ _ _ (by rw [mem_compl_range]; omega)]
    apply write8_apply_of_ne
    omega

theorem copy_apply (apart : dest + count ≤ src ∨ src + count ≤ dest) (inside : offset < count) :
    copy memory dest src count (dest + offset) = memory (src + offset) := by
  induction count generalizing memory dest src offset with
  | zero => omega
  | succ count ih =>
    rw [copy]
    rcases offset with _ | offset
    · rw [copy_eqOn _ _ _ _ (by rw [mem_compl_range]; omega)]
      simp
    · have shifted : dest + (offset + 1) = dest + 1 + offset := by omega
      rw [shifted, ih (by omega) (by omega)]
      rw [write8_apply_of_ne (by omega)]
      congr 1
      omega

theorem fill_eqOn (memory : Memory) (dest : ℕ) (value : UInt8) (count : ℕ) :
    Set.EqOn (fill memory dest value count) memory (range dest count)ᶜ := by
  induction count generalizing memory dest with
  | zero => exact fun _ _ => rfl
  | succ count ih =>
    intro location outside
    rw [mem_compl_range] at outside
    rw [fill, ih _ _ (by rw [mem_compl_range]; omega)]
    apply write8_apply_of_ne
    omega

theorem fill_apply {value : UInt8} (inside : offset < count) :
    fill memory dest value count (dest + offset) = value := by
  induction count generalizing memory dest offset with
  | zero => omega
  | succ count ih =>
    rw [fill]
    rcases offset with _ | offset
    · rw [fill_eqOn _ _ _ _ (by rw [mem_compl_range]; omega), Nat.add_zero,
        write8_same]
    · have shifted : dest + (offset + 1) = dest + 1 + offset := by omega
      rw [shifted, ih (by omega)]

theorem fill_eq_transfer (memory : Memory) (dest : ℕ) (value : UInt8) (count : ℕ) :
    fill memory dest value count = transfer memory dest count (fun _ => value) 0 := by
  symm
  rw [transfer_eq_iff]
  refine ⟨fun offset inside => (fill_apply inside).symm, fun location outside => ?_⟩
  exact (fill_eqOn memory dest value count (mem_compl_range.mpr outside)).symm

theorem fillWords_eqOn (memory : Memory) (dest value count : ℕ) :
    Set.EqOn (fillWords memory dest value count) memory (range dest (4 * count))ᶜ := by
  induction count with
  | zero => exact fun _ _ => rfl
  | succ count ih =>
    intro location outside
    rw [mem_compl_range] at outside
    rw [fillWords, write32_apply_of_outside (by omega)]
    apply ih
    rw [mem_compl_range]
    omega

theorem read32_fillWords {memory : Memory} {dest value count index : ℕ} (inside : index < count) :
    read32 (fillWords memory dest value count) (dest + 4 * index) = value % 2 ^ 32 := by
  induction count with
  | zero => omega
  | succ count ih =>
    rw [fillWords]
    by_cases last : index = count
    · subst last
      exact read32_write32_same _ _ _
    · rw [read32_write32_of_disjoint (by omega)]
      exact ih (by omega)

theorem copyWords_eqOn (memory : Memory) (dest src count : ℕ) :
    Set.EqOn (copyWords memory dest src count) memory (range dest (4 * count))ᶜ := by
  induction count with
  | zero => exact fun _ _ => rfl
  | succ count ih =>
    intro location outside
    rw [mem_compl_range] at outside
    simp only [copyWords]
    rw [write32_apply_of_outside (by omega)]
    apply ih
    rw [mem_compl_range]
    omega

theorem read32_copyWords_of_disjoint (disjoint : address + 4 ≤ dest ∨ dest + 4 * count ≤ address) :
    read32 (copyWords memory dest src count) address = read32 memory address := by
  apply read32_congr
  intro location inside
  apply copyWords_eqOn
  simp only [mem_compl_range, mem_range] at inside ⊢
  omega

theorem read32_copyWords {memory : Memory} {dest src count index : ℕ} (inside : index < count)
    (apart : dest + 4 * count ≤ src ∨ src + 4 * count ≤ dest) :
    read32 (copyWords memory dest src count) (dest + 4 * index) =
      read32 memory (src + 4 * index) := by
  induction count with
  | zero => omega
  | succ count ih =>
    simp only [copyWords]
    by_cases last : index = count
    · subst last
      rw [read32_write32_same, read32_copyWords_of_disjoint (by omega)]
      exact Nat.mod_eq_of_lt (read32_lt _ _)
    · rw [read32_write32_of_disjoint (by omega)]
      exact ih (by omega) (by omega)

theorem apply_eq_of_read32_eq {left right : Memory} {address other offset : ℕ}
    (same : read32 left address = read32 right other) (inside : offset < 4) :
    left (address + offset) = right (other + offset) := by
  have leftLt (place : ℕ) := (left place).toNat_lt
  have rightLt (place : ℕ) := (right place).toNat_lt
  have left0 := leftLt address
  have left1 := leftLt (address + 1)
  have left2 := leftLt (address + 2)
  have left3 := leftLt (address + 3)
  have right0 := rightLt other
  have right1 := rightLt (other + 1)
  have right2 := rightLt (other + 2)
  have right3 := rightLt (other + 3)
  simp only [read32] at same
  rw [← UInt8.toNat_inj]
  match offset, inside with
  | 0, _ => simp only [Nat.add_zero]; omega
  | 1, _ => omega
  | 2, _ => omega
  | 3, _ => omega

theorem copyWords_apply (inside : offset < 4 * count)
    (apart : dest + 4 * count ≤ src ∨ src + 4 * count ≤ dest) :
    copyWords memory dest src count (dest + offset) = memory (src + offset) := by
  have word := @read32_copyWords memory dest src count (offset / 4) (by omega) apart
  have byte := @apply_eq_of_read32_eq _ _ _ _ (offset % 4) word (by omega)
  rwa [show dest + 4 * (offset / 4) + offset % 4 = dest + offset by omega,
    show src + 4 * (offset / 4) + offset % 4 = src + offset by omega] at byte

end ByteMemory
