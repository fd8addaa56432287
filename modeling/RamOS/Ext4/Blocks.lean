import RamOS.Ext4.Model

/-!
# The block layer over a byte device

Neither block operation seeks before it accesses the device, so the block number
has no influence: the accesses go through the device from the position at which
the first of them found it, one block each. Nothing behind the position has been
written yet, and a read returns what the device held there at the start.
-/

namespace RamOS.Ext4

open Slice

/-- The descriptor is open on an array of bytes: an access inside it transfers the bytes at the
position and advances it, and any other is refused. -/
structure IsByteArray {World : Type} (device : Device World) (fd : ℤ)
    (contents : World → Bytes) (position : World → ℕ) : Prop where
  read : ∀ world count, position world + count ≤ (contents world).length →
    ∃ after, device.devRead world fd count =
        ((count : ℤ), slice (contents world) (position world) count, after) ∧
      contents after = contents world ∧ position after = position world + count
  write : ∀ world data, position world + data.length ≤ (contents world).length →
    ∃ after, device.devWrite world fd data = ((data.length : ℤ), after) ∧
      contents after = splice (contents world) (position world) data ∧
      position after = position world + data.length
  readRefused : ∀ world count, (contents world).length < position world + count →
    ∃ code after, device.devRead world fd count = (code, [], after) ∧ code < 0 ∧
      contents after = contents world ∧ position after = position world
  writeRefused : ∀ world data, (contents world).length < position world + data.length →
    ∃ code after, device.devWrite world fd data = (code, after) ∧ code < 0 ∧
      contents after = contents world ∧ position after = position world

inductive BlockCall where
  | read (blockNum : ℕ)
  | write (blockNum : ℕ) (data : Bytes)

variable {World : Type}

def BlockCall.run (device : Device World) (fs : Fs) (world : World) : BlockCall → World
  | read blockNum => (ext4ReadBlock device fs world blockNum).2.2
  | write blockNum data => (ext4WriteBlock device fs world blockNum data).2

def worldAfter (device : Device World) (fs : Fs) (world : World) (calls : List BlockCall) : World :=
  calls.foldl (BlockCall.run device fs) world

/-- The data of the last write to the block, or what the device held at the start. -/
def lastWritten (fs : Fs) (original : Bytes) (blockNum : ℕ) : List BlockCall → Bytes
  | [] => slice original (blockNum * fs.blockSize) fs.blockSize
  | .read _ :: earlier => lastWritten fs original blockNum earlier
  | .write written data :: earlier =>
    if written = blockNum then data else lastWritten fs original blockNum earlier

def WholeBlocks (fs : Fs) (calls : List BlockCall) : Prop :=
  ∀ blockNum data, BlockCall.write blockNum data ∈ calls → data.length = fs.blockSize

structure Reached (fs : Fs) (original : Bytes) (start calls : ℕ) (contents : Bytes)
    (position : ℕ) : Prop where
  length : contents.length = original.length
  unwritten : contents.drop position = original.drop position
  advanced : start + calls * fs.blockSize ≤ original.length →
    position = start + calls * fs.blockSize
  stuck : original.length < start + calls * fs.blockSize →
    original.length < position + fs.blockSize

namespace Reached

variable {fs : Fs} {original contents : Bytes} {start calls position : ℕ}

theorem fits_iff (reached : Reached fs original start calls contents position) :
    position + fs.blockSize ≤ contents.length ↔
      start + (calls + 1) * fs.blockSize ≤ original.length := by
  have length := reached.length
  have next : (calls + 1) * fs.blockSize = calls * fs.blockSize + fs.blockSize := Nat.succ_mul ..
  by_cases inside : start + calls * fs.blockSize ≤ original.length
  · have := reached.advanced inside
    omega
  · have := reached.stuck (by omega)
    omega

theorem refused (reached : Reached fs original start calls contents position)
    (outside : contents.length < position + fs.blockSize) :
    Reached fs original start (calls + 1) contents position := by
  have past : ¬ start + (calls + 1) * fs.blockSize ≤ original.length := by
    rw [← reached.fits_iff]
    omega
  refine ⟨reached.length, reached.unwritten, fun inside => absurd inside past, fun _ => ?_⟩
  have length := reached.length
  omega

theorem advance (reached : Reached fs original start calls contents position)
    {after : Bytes} (inside : position + fs.blockSize ≤ contents.length)
    (length : after.length = contents.length)
    (unwritten : after.drop (position + fs.blockSize) =
      contents.drop (position + fs.blockSize)) :
    Reached fs original start (calls + 1) after (position + fs.blockSize) := by
  have next : (calls + 1) * fs.blockSize = calls * fs.blockSize + fs.blockSize := Nat.succ_mul ..
  have fits := reached.fits_iff.mp inside
  have here := reached.advanced (by omega)
  refine ⟨length.trans reached.length, ?_, fun _ => by omega, fun past => by omega⟩
  rw [unwritten, ← List.drop_drop, reached.unwritten, List.drop_drop]

end Reached

section Runs

variable {device : Device World} {fs : Fs} {contents : World → Bytes} {position : World → ℕ}

/-- One call moves the device on by one block, or leaves it stuck at the end. -/
theorem Reached.run {original : Bytes} {start calls : ℕ} {world : World}
    (isArray : IsByteArray device fs.deviceFd contents position) (opened : 0 ≤ fs.deviceFd)
    (reached : Reached fs original start calls (contents world) (position world))
    {call : BlockCall} (whole : WholeBlocks fs [call]) :
    Reached fs original start (calls + 1) (contents (call.run device fs world))
      (position (call.run device fs world)) := by
  cases call with
  | read blockNum =>
    simp only [BlockCall.run, ext4ReadBlock, if_pos opened]
    by_cases inside : position world + fs.blockSize ≤ (contents world).length
    · rcases isArray.read world fs.blockSize inside with ⟨after, run, sameContents, moved⟩
      rw [run, sameContents, moved]
      exact reached.advance inside rfl rfl
    · rcases isArray.readRefused world fs.blockSize (by omega) with
        ⟨code, after, run, -, sameContents, stayed⟩
      rw [run, sameContents, stayed]
      exact reached.refused (by omega)
  | write blockNum data =>
    have size : data.length = fs.blockSize := whole blockNum data (by simp)
    have passed : data.take fs.blockSize = data := List.take_of_length_le size.le
    simp only [BlockCall.run, ext4WriteBlock, if_pos opened, passed]
    by_cases inside : position world + fs.blockSize ≤ (contents world).length
    · have dataInside : position world + data.length ≤ (contents world).length := by omega
      rcases isArray.write world data dataInside with ⟨after, run, changed, moved⟩
      rw [run, changed, moved, size]
      refine reached.advance inside (length_splice dataInside) ?_
      rw [← size]
      exact drop_splice dataInside
    · rcases isArray.writeRefused world data (by omega) with
        ⟨code, after, run, -, sameContents, stayed⟩
      rw [run, sameContents, stayed]
      exact reached.refused (by omega)

theorem reached_worldAfter (isArray : IsByteArray device fs.deviceFd contents position)
    (opened : 0 ≤ fs.deviceFd) (world : World) {calls : List BlockCall}
    (whole : WholeBlocks fs calls) {k : ℕ} (inside : k ≤ calls.length) :
    Reached fs (contents world) (position world) k
      (contents (worldAfter device fs world (calls.take k)))
      (position (worldAfter device fs world (calls.take k))) := by
  induction k with
  | zero => exact ⟨rfl, rfl, fun _ => by simp [worldAfter], fun past => by simp [worldAfter]; omega⟩
  | succ k ih =>
    have listed : k < calls.length := inside
    rw [List.take_succ_eq_append_getElem listed, worldAfter, List.foldl_append]
    refine (ih (by omega)).run isArray opened ?_
    intro blockNum data written
    rw [List.mem_singleton] at written
    exact whole blockNum data (by rw [written]; exact List.getElem_mem listed)

/-- A read returns what a block store would exactly when the device held that at the start, as
many blocks behind the start position as calls have been made; no block number plays a part. -/
theorem blockStore_read_iff (isArray : IsByteArray device fs.deviceFd contents position)
    (opened : 0 ≤ fs.deviceFd) (world : World) {calls : List BlockCall}
    (whole : WholeBlocks fs calls) :
    ∀ k blockNum, calls[k]? = some (.read blockNum) →
      ((∃ after, ext4ReadBlock device fs (worldAfter device fs world (calls.take k)) blockNum =
          ((fs.blockSize : ℤ),
            lastWritten fs (contents world) blockNum (calls.take k).reverse, after)) ↔
        position world + (k + 1) * fs.blockSize ≤ (contents world).length ∧
          slice (contents world) (position world + k * fs.blockSize) fs.blockSize =
            lastWritten fs (contents world) blockNum (calls.take k).reverse) := by
  intro k blockNum isRead
  rcases List.getElem?_eq_some_iff.mp isRead with ⟨listed, -⟩
  have reached := reached_worldAfter isArray opened world whole listed.le
  generalize worldAfter device fs world (calls.take k) = here at reached ⊢
  rw [ext4ReadBlock, if_pos opened]
  by_cases inside : position here + fs.blockSize ≤ (contents here).length
  · have fits := reached.fits_iff.mp inside
    have next : (k + 1) * fs.blockSize = k * fs.blockSize + fs.blockSize := Nat.succ_mul ..
    have stands := reached.advanced (by omega)
    have unwritten : slice (contents here) (position here) fs.blockSize =
        slice (contents world) (position world + k * fs.blockSize) fs.blockSize := by
      rw [slice, slice, reached.unwritten, stands]
    rcases isArray.read here fs.blockSize inside with ⟨after, run, -, -⟩
    rw [run, unwritten]
    constructor
    · rintro ⟨ending, same⟩
      simp only [Prod.mk.injEq, true_and] at same
      exact ⟨fits, same.1⟩
    · rintro ⟨-, same⟩
      exact ⟨after, by rw [same]⟩
  · rcases isArray.readRefused here fs.blockSize (by omega) with ⟨code, after, run, failed, -, -⟩
    rw [run]
    refine iff_of_false ?_ ?_
    · rintro ⟨ending, same⟩
      have succeeded := congrArg Prod.fst same
      simp only at succeeded
      omega
    · rintro ⟨fits, -⟩
      exact inside (reached.fits_iff.mpr fits)

end Runs

def listDevice : Device (Bytes × ℕ) where
  devRead := fun (contents, position) _ count =>
    if position + count ≤ contents.length then
      ((count : ℤ), slice contents position count, (contents, position + count))
    else (-1, [], (contents, position))
  devWrite := fun (contents, position) _ data =>
    if position + data.length ≤ contents.length then
      ((data.length : ℤ), (splice contents position data, position + data.length))
    else (-1, (contents, position))

theorem listDevice_isByteArray (fd : ℤ) : IsByteArray listDevice fd Prod.fst Prod.snd := by
  refine ⟨?_, ?_, ?_, ?_⟩
  · rintro ⟨contents, position⟩ count inside
    exact ⟨_, if_pos inside, rfl, rfl⟩
  · rintro ⟨contents, position⟩ data inside
    exact ⟨_, if_pos inside, rfl, rfl⟩
  · rintro ⟨contents, position⟩ count outside
    exact ⟨_, _, if_neg (Nat.not_le.mpr outside), by decide, rfl, rfl⟩
  · rintro ⟨contents, position⟩ data outside
    exact ⟨_, _, if_neg (Nat.not_le.mpr outside), by decide, rfl, rfl⟩

def smallFs : Fs where
  deviceFd := 0
  blockSize := 2
  inodeSize := 2
  inodesPerGroup := 1
  blocksPerGroup := 1

def writeThenRead : List BlockCall := [.write 0 [9, 9], .read 0]

theorem writeThenRead_whole : WholeBlocks smallFs writeThenRead := by
  intro blockNum data listed
  simp only [writeThenRead, List.mem_cons, BlockCall.write.injEq, reduceCtorEq, List.not_mem_nil,
    or_false] at listed
  rw [listed.2]
  rfl

theorem blockStore_read_iff_small :
    (∃ after, ext4ReadBlock listDevice smallFs
        (worldAfter listDevice smallFs ([1, 2, 3, 4], 0) (writeThenRead.take 1)) 0 =
        ((smallFs.blockSize : ℤ),
          lastWritten smallFs [1, 2, 3, 4] 0 (writeThenRead.take 1).reverse, after)) ↔
      0 + (1 + 1) * smallFs.blockSize ≤ [1, 2, 3, 4].length ∧
        slice [1, 2, 3, 4] (0 + 1 * smallFs.blockSize) smallFs.blockSize =
          lastWritten smallFs [1, 2, 3, 4] 0 (writeThenRead.take 1).reverse :=
  blockStore_read_iff (listDevice_isByteArray 0) (by decide) ([1, 2, 3, 4], 0)
    writeThenRead_whole 1 0 rfl

/-- Reading the block that was just written returns the block behind it. -/
theorem read_misses_written_block :
    ext4ReadBlock listDevice smallFs
        (worldAfter listDevice smallFs ([1, 2, 3, 4], 0) [.write 0 [9, 9]]) 0 =
      (2, [3, 4], ([9, 9, 3, 4], 4)) ∧
    lastWritten smallFs [1, 2, 3, 4] 0 [.write 0 [9, 9]] = [9, 9] := by
  decide

end RamOS.Ext4
