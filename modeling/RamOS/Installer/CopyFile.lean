import Mathlib.Data.Int.Basic
import Mathlib.Data.List.Basic
import RamOS.Lib.Memory

/-!
# `copy_file` of the installer

The installer copies a file in chunks of at most 4096 bytes. What the system calls answer is
left open.

A short write makes the copy fail. A failed read ends the loop just as the end of the file does,
and the copy is then reported as complete.
-/

namespace RamOS.Installer

/-- What the system calls answer; the reads and writes are numbered. -/
structure CopyIo where
  openSrc : ℤ
  openDst : ℤ
  read : ℕ → ℤ
  write : ℕ → ℤ

def bufferSize : ℕ := 4096

/-- An error, or a number of bytes that are left in the file and fit into the buffer. -/
def readResult (answer : ℤ) (remaining : Bytes) : ℤ :=
  if answer < 0 then answer else min answer (min bufferSize remaining.length : ℕ)

/-- The result of `copy_file`, what the destination has received, and the descriptors opened and
closed. -/
structure Copy where
  returned : ℤ
  written : Bytes
  opened : List ℤ
  closed : List ℤ

/-- The loop of `copy_file` from the read with a number on. -/
def copyLoop (io : CopyIo) : ℕ → ℕ → Bytes → Bytes → Option Copy
  | 0, _, _, _ => none
  | fuel + 1, call, remaining, written =>
    let bytes := readResult (io.read call) remaining
    if 0 < bytes then
      let chunk := remaining.take bytes.toNat
      if io.write call ≠ bytes then
        some
          { returned := -1
            written := written ++ chunk.take (io.write call).toNat
            opened := [io.openSrc, io.openDst]
            closed := [io.openSrc, io.openDst] }
      else copyLoop io fuel (call + 1) (remaining.drop bytes.toNat) (written ++ chunk)
    else
      some
        { returned := 0
          written := written
          opened := [io.openSrc, io.openDst]
          closed := [io.openSrc, io.openDst] }

def copyFile (fuel : ℕ) (io : CopyIo) (contents : Bytes) : Option Copy :=
  if io.openSrc < 0 then some { returned := -1, written := [], opened := [], closed := [] }
  else if io.openDst < 0 then
    some { returned := -1, written := [], opened := [io.openSrc], closed := [io.openSrc] }
  else copyLoop io fuel 0 contents []

structure Reliable (contents : Bytes) (copy : Copy) : Prop where
  complete : copy.returned = 0 → copy.written = contents
  closes : copy.closed = copy.opened

theorem reliable_of_failed {contents : Bytes} {copy : Copy} (failed : copy.returned = -1)
    (closes : copy.closed = copy.opened) : Reliable contents copy := by
  refine ⟨?_, closes⟩
  intro success
  rw [failed] at success
  exact absurd success (by decide)

inductive Reaches (io : CopyIo) : ℕ → Bytes → ℕ → Bytes → Prop where
  | refl (call : ℕ) (remaining : Bytes) : Reaches io call remaining call remaining
  | step {call later : ℕ} {remaining left : Bytes}
      (reads : 0 < readResult (io.read call) remaining)
      (writes : io.write call = readResult (io.read call) remaining)
      (reaches : Reaches io (call + 1)
        (remaining.drop (readResult (io.read call) remaining).toNat) later left) :
      Reaches io call remaining later left

def EndsEarly (io : CopyIo) (call : ℕ) (remaining : Bytes) : Prop :=
  ∃ later left, Reaches io call remaining later left ∧ io.read later ≤ 0 ∧ left ≠ []

section Steps

variable {io : CopyIo} {call : ℕ} {remaining : Bytes}

theorem readResult_pos_iff {answer : ℤ} :
    0 < readResult answer remaining ↔ 0 < answer ∧ remaining ≠ [] := by
  rw [readResult, ← List.length_pos_iff]
  split
  · omega
  · rw [bufferSize]
    omega

theorem endsEarly_iff_of_stops
    (stops : ¬ (0 < readResult (io.read call) remaining ∧
      io.write call = readResult (io.read call) remaining)) :
    EndsEarly io call remaining ↔ io.read call ≤ 0 ∧ remaining ≠ [] := by
  constructor
  · rintro ⟨later, left, reaches, early⟩
    cases reaches with
    | refl => exact early
    | step reads writes => exact absurd ⟨reads, writes⟩ stops
  · intro early
    exact ⟨call, remaining, Reaches.refl _ _, early⟩

theorem endsEarly_iff_of_step (reads : 0 < readResult (io.read call) remaining)
    (writes : io.write call = readResult (io.read call) remaining) :
    EndsEarly io call remaining ↔
      EndsEarly io (call + 1) (remaining.drop (readResult (io.read call) remaining).toNat) := by
  constructor
  · rintro ⟨later, left, reaches, early⟩
    cases reaches with
    | refl =>
      have positive := (readResult_pos_iff.mp reads).1
      omega
    | step _ _ reaches => exact ⟨later, left, reaches, early⟩
  · rintro ⟨later, left, reaches, early⟩
    exact ⟨later, left, Reaches.step reads writes reaches, early⟩

end Steps

theorem copyLoop_reliable_iff {io : CopyIo} {fuel call : ℕ} {remaining written : Bytes}
    (enough : remaining.length < fuel) :
    ∃ copy, copyLoop io fuel call remaining written = some copy ∧
      (Reliable (written ++ remaining) copy ↔ ¬ EndsEarly io call remaining) := by
  induction fuel generalizing call remaining written with
  | zero => omega
  | succ fuel ih =>
    rw [copyLoop]
    by_cases reads : 0 < readResult (io.read call) remaining
    · rw [if_pos reads]
      by_cases writes : io.write call = readResult (io.read call) remaining
      · rw [if_neg (not_not.mpr writes), endsEarly_iff_of_step reads writes]
        have shorter :
            (remaining.drop (readResult (io.read call) remaining).toNat).length < fuel := by
          have nonempty := List.length_pos_iff.mpr (readResult_pos_iff.mp reads).2
          rw [List.length_drop]
          omega
        rcases @ih (call + 1) _
          (written ++ remaining.take (readResult (io.read call) remaining).toNat) shorter with
          ⟨copy, runs, reliable⟩
        rw [List.append_assoc, List.take_append_drop] at reliable
        exact ⟨copy, runs, reliable⟩
      · rw [if_pos writes, endsEarly_iff_of_stops (fun both => writes both.2)]
        refine ⟨_, rfl, iff_of_true (reliable_of_failed rfl rfl) ?_⟩
        have positive := (readResult_pos_iff.mp reads).1
        omega
    · rw [if_neg reads, endsEarly_iff_of_stops (fun both => reads both.1)]
      refine ⟨_, rfl, ?_⟩
      rw [readResult_pos_iff, not_and_not_right] at reads
      constructor
      · rintro ⟨complete, -⟩ ⟨-, nonempty⟩
        have whole := complete rfl
        simp [nonempty] at whole
      · intro ends
        have ended : remaining = [] := by
          by_contra nonempty
          exact ends ⟨by by_contra positive; exact nonempty (reads (by omega)), nonempty⟩
        exact ⟨fun _ => by rw [ended, List.append_nil], rfl⟩

/-- The copy ends, and is reliable exactly when no read fails or returns nothing while bytes are
left in the file. -/
theorem copyFile_reliable_iff {io : CopyIo} {contents : Bytes} {fuel : ℕ}
    (enough : contents.length < fuel) :
    ∃ copy, copyFile fuel io contents = some copy ∧
      (Reliable contents copy ↔
        (0 ≤ io.openSrc → 0 ≤ io.openDst → ¬ EndsEarly io 0 contents)) := by
  rw [copyFile]
  by_cases srcFails : io.openSrc < 0
  · rw [if_pos srcFails]
    exact ⟨_, rfl, iff_of_true (reliable_of_failed rfl rfl) (by omega)⟩
  by_cases dstFails : io.openDst < 0
  · rw [if_neg srcFails, if_pos dstFails]
    exact ⟨_, rfl, iff_of_true (reliable_of_failed rfl rfl) (by omega)⟩
  · rw [if_neg srcFails, if_neg dstFails]
    rcases @copyLoop_reliable_iff io fuel 0 contents [] enough with ⟨copy, runs, reliable⟩
    refine ⟨copy, runs, reliable.trans ?_⟩
    simp [Int.not_lt.mp srcFails, Int.not_lt.mp dstFails]

def copyingIo : CopyIo where
  openSrc := 3
  openDst := 4
  read := fun call => if call = 0 then 2 else 0
  write := fun _ => 2

theorem copyFile_two_bytes :
    ∃ copy, copyFile 3 copyingIo [104, 105] = some copy ∧
      (Reliable [104, 105] copy ↔
        (0 ≤ copyingIo.openSrc → 0 ≤ copyingIo.openDst → ¬ EndsEarly copyingIo 0 [104, 105])) :=
  copyFile_reliable_iff (by decide)

def truncatingIo : CopyIo where
  openSrc := 3
  openDst := 4
  read := fun call => if call = 0 then 1 else -1
  write := fun _ => 1

/-- A read error behind the first byte is reported as a complete copy. -/
theorem copyFile_loses_byte :
    ∃ copy, copyFile 3 truncatingIo [104, 105] = some copy ∧ copy.returned = 0 ∧
      copy.written = [104] ∧ ¬ Reliable [104, 105] copy := by
  refine ⟨_, rfl, rfl, rfl, ?_⟩
  intro reliable
  exact absurd (reliable.complete rfl) (by decide)

end RamOS.Installer
