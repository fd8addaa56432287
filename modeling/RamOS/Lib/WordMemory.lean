import Mathlib.Data.List.Nodup
import RamOS.Lib.CString
import RamOS.Lib.Slice
import RamOS.Lib.Word32

/-!
# Buffers in a 32-bit address space

The addresses of a buffer are counted as words, so that a buffer may go on at address 0
behind the last one. A copy is a byte loop over the addresses that are written and the
addresses that are read; it delivers what was there before as long as no address is written
twice and none is both read and written.
-/

namespace WordMemory

open ByteMemory CString Slice

def addresses (buffer count : ℕ) : List ℕ := (List.range count).map (Word32.add buffer)

/-- The byte loop that stores what it reads at the sources to the targets. -/
def copyAlong (memory : Memory) : List ℕ → List ℕ → Memory
  | target :: targets, source :: sources =>
    copyAlong (write8 memory target (memory source)) targets sources
  | _, _ => memory

/-- The byte loop that stores a value to the targets, one by one. -/
def fillAlong (memory : Memory) (value : UInt8) : List ℕ → Memory
  | target :: targets => fillAlong (write8 memory target value) value targets
  | [] => memory

@[simp]
theorem length_addresses (buffer count : ℕ) : (addresses buffer count).length = count := by
  simp [addresses]

variable {buffer count address : ℕ} {memory : Memory} {targets : List ℕ}

theorem mem_addresses :
    address ∈ addresses buffer count ↔ ∃ offset < count, Word32.add buffer offset = address := by
  simp [addresses]

theorem addresses_subset {more : ℕ} (atMost : count ≤ more) :
    addresses buffer count ⊆ addresses buffer more := by
  intro address listed
  rcases mem_addresses.mp listed with ⟨offset, inside, same⟩
  exact mem_addresses.mpr ⟨offset, by omega, same⟩

theorem nodup_addresses (fits : count ≤ 2 ^ 32) :
    (addresses buffer count).Nodup := by
  refine List.Nodup.map_on ?_ List.nodup_range
  intro left leftInside right rightInside same
  rw [List.mem_range] at leftInside rightInside
  simp only [Word32.add] at same
  omega

theorem slice_addresses {total offset : ℕ} (inside : offset + count ≤ total) :
    slice (addresses buffer total) offset count =
      addresses (Word32.add buffer offset) count := by
  apply List.ext_getElem
  · simp only [slice, List.length_take, List.length_drop, length_addresses]
    omega
  · intro index listed _
    simp only [slice, addresses, List.getElem_take, List.getElem_drop, List.getElem_map,
      List.getElem_range, Word32.add]
    omega

theorem mem_addresses_of_le (inside : buffer + count ≤ 2 ^ 32) :
    address ∈ addresses buffer count ↔ address ∈ range buffer count := by
  rw [mem_addresses, mem_range]
  constructor
  · rintro ⟨offset, below, rfl⟩
    rw [Word32.add_eq (by omega)]
    omega
  · rintro ⟨lower, upper⟩
    refine ⟨address - buffer, by omega, ?_⟩
    rw [Word32.add_eq (by omega)]
    omega

theorem map_addresses_of_le (inside : buffer + count ≤ 2 ^ 32) :
    (addresses buffer count).map memory = load memory buffer count := by
  apply List.ext_getElem
  · simp
  · intro index listed loaded
    simp only [List.length_map, length_addresses] at listed
    have value := @getD_load memory buffer count index listed
    rw [List.getD_eq_getElem _ _ loaded] at value
    rw [value, List.getElem_map]
    simp only [addresses, List.getElem_map, List.getElem_range]
    rw [Word32.add_eq (by omega)]

theorem copyAlong_of_notMem {sources : List ℕ} (outside : address ∉ targets) :
    copyAlong memory targets sources address = memory address := by
  induction targets generalizing memory sources with
  | nil => rfl
  | cons target targets ih =>
    rw [List.mem_cons, not_or] at outside
    cases sources with
    | nil => rfl
    | cons source sources =>
      rw [copyAlong, ih outside.2]
      exact write8_apply_of_ne outside.1

theorem map_copyAlong {sources : List ℕ} (sameLength : targets.length = sources.length)
    (nodup : targets.Nodup) (apart : targets.Disjoint sources) :
    targets.map (copyAlong memory targets sources) = sources.map memory := by
  induction targets generalizing memory sources with
  | nil =>
    rw [List.length_nil, eq_comm, List.length_eq_zero_iff] at sameLength
    rw [sameLength, List.map_nil, List.map_nil]
  | cons target targets ih =>
    cases sources with
    | nil => cases sameLength
    | cons source sources =>
      rw [List.nodup_cons] at nodup
      rw [List.disjoint_cons_left, List.disjoint_cons_right] at apart
      rw [List.mem_cons, not_or] at apart
      have others : sources.map (write8 memory target (memory source)) = sources.map memory := by
        refine List.map_congr_left fun other listed => write8_apply_of_ne ?_
        rintro rfl
        exact apart.1.2 listed
      rw [copyAlong, List.map_cons, copyAlong_of_notMem nodup.1, write8_same,
        ih (Nat.succ.inj sameLength) nodup.2 apart.2.2, others, List.map_cons]

theorem fillAlong_of_notMem {value : UInt8} (outside : address ∉ targets) :
    fillAlong memory value targets address = memory address := by
  induction targets generalizing memory with
  | nil => rfl
  | cons target targets ih =>
    rw [List.mem_cons, not_or] at outside
    rw [fillAlong, ih outside.2]
    exact write8_apply_of_ne outside.1

theorem fillAlong_of_mem {value : UInt8} (listed : address ∈ targets) :
    fillAlong memory value targets address = value := by
  induction targets generalizing memory with
  | nil => cases listed
  | cons target targets ih =>
    rw [fillAlong]
    by_cases again : address ∈ targets
    · exact ih again
    · rcases List.mem_cons.mp listed with rfl | later
      · rw [fillAlong_of_notMem again, write8_same]
      · exact absurd later again

end WordMemory
