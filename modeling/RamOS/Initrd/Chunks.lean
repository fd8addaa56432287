import RamOS.Initrd.Files

/-!
# Reading a file in chunks

A descriptor on a file of the initrd is read again and again, with other file operations in
between. As long as no buffer lies over the contents of the file, the chunks that the reads
deliver follow each other in the file, and put together they are its beginning.
-/

namespace RamOS.Initrd

open ByteMemory CString Slice WordMemory
open Vfs (FileCall FileDescriptor Files Machine)

def positionOf (fd : ℤ) (files : Files (Machine Disk)) : ℕ := (files.fdTable fd.toNat).position

def chunkOf (fd : ℤ) (result : ℤ) (after : Files (Machine Disk)) : FileCall → Bytes
  | .read other buffer _ =>
    if other = fd then (addresses buffer result.toNat).map after.env.memory else []
  | _ => []

def dataRead (fd : ℤ) : Files (Machine Disk) → List FileCall → Bytes
  | _, [] => []
  | files, call :: calls =>
    let (result, after) := call.run initrdInterface files
    chunkOf fd result after call ++ dataRead fd after calls

def sizeRequested (fd : ℤ) : FileCall → ℕ
  | .read other _ size => if other = fd then size else 0
  | _ => 0

def totalRequested (fd : ℤ) (calls : List FileCall) : ℕ := (calls.map (sizeRequested fd)).sum

/-- A read of the descriptor into a buffer apart from the file, or a call for other descriptors
that stores nothing over it. -/
inductive ValidCall (fd : ℤ) (file : InitrdFile) : FileCall → Prop
  | own (buffer size : ℕ) (nonnull : buffer ≠ 0) (small : size < 2 ^ 31)
      (apart : (addresses buffer (min size file.size)).Disjoint (fileAddresses file)) :
      ValidCall fd file (.read fd buffer size)
  | other (call : FileCall) (avoids : call.Avoids fd)
      (apart : Disjoint (storesTo call) {address | address ∈ fileAddresses file}) :
      ValidCall fd file call

/-- A read stores the next bytes of the text, and no others, and returns their number. -/
structure ReadsChunk (files : Files (Machine Disk)) (fd : ℤ) (buffer size : ℕ)
    (text : Bytes) : Prop where
  returned : (Vfs.vfsRead initrdInterface files fd buffer size).1 =
    (min size (text.length - positionOf fd files) : ℕ)
  stored : (addresses buffer (min size (text.length - positionOf fd files))).map
      (Vfs.vfsRead initrdInterface files fd buffer size).2.env.memory =
    slice text (positionOf fd files) (min size (text.length - positionOf fd files))
  framed : Framed files.env (Vfs.vfsRead initrdInterface files fd buffer size).2.env
    {address | address ∈ addresses buffer (min size (text.length - positionOf fd files))}
  advanced : positionOf fd (Vfs.vfsRead initrdInterface files fd buffer size).2 =
    positionOf fd files + min size (text.length - positionOf fd files)

structure ChunksInOrder (start : Files (Machine Disk)) (fd : ℤ) (text : Bytes)
    (calls : List FileCall) : Prop where
  inside : ∀ k, positionOf fd (Vfs.filesAfter initrdInterface start (calls.take k)) ≤ text.length
  chunks : ∀ k buffer size, calls[k]? = some (.read fd buffer size) →
    ReadsChunk (Vfs.filesAfter initrdInterface start (calls.take k)) fd buffer size text
  ended : ∀ k later buffer size, k ≤ later →
    positionOf fd (Vfs.filesAfter initrdInterface start (calls.take k)) = text.length →
    calls[later]? = some (.read fd buffer size) →
    (Vfs.vfsRead initrdInterface (Vfs.filesAfter initrdInterface start (calls.take later)) fd
      buffer size).1 = 0
  together : dataRead fd start calls = text.take (min text.length (totalRequested fd calls))

theorem sizeRequested_of_avoids {fd : ℤ} {call : FileCall} (avoids : call.Avoids fd) :
    sizeRequested fd call = 0 := by
  cases call with
  | read other buffer size => exact if_neg avoids
  | _ => rfl

theorem chunkOf_of_avoids {fd result : ℤ} {after : Files (Machine Disk)} {call : FileCall}
    (avoids : call.Avoids fd) : chunkOf fd result after call = [] := by
  cases call with
  | read other buffer size => exact if_neg avoids
  | _ => rfl

structure Reading (disk : Disk) (fd : ℤ) (index : ℕ) (text : Bytes) (entry : FileDescriptor)
    (files : Files (Machine Disk)) : Prop extends OpenOn disk fd index text entry files where
  inside : entry.position ≤ text.length

namespace Reading

variable {disk : Disk} {fd : ℤ} {index : ℕ} {text : Bytes} {entry : FileDescriptor}
  {files : Files (Machine Disk)}

theorem positionOf_eq (reading : Reading disk fd index text entry files) :
    positionOf fd files = entry.position := by
  rw [positionOf, reading.held]

section

variable (reading : Reading disk fd index text entry files) (short : text.length < 2 ^ 31)

include reading short

theorem read {buffer size : ℕ} (nonnull : buffer ≠ 0) (small : size < 2 ^ 31)
    (apart : (addresses buffer (min size text.length)).Disjoint
      (fileAddresses (disk.initrd.files index))) :
    Reading disk fd index text
        { entry with position := entry.position + min size (text.length - entry.position) }
        (Vfs.vfsRead initrdInterface files fd buffer size).2 ∧
      ReadsChunk files fd buffer size text := by
  rcases reading.toOpenOn.read short (fun _ => by omega) nonnull apart with
    ⟨returned, next, stored, framed⟩
  have position := reading.positionOf_eq
  refine ⟨⟨next, ?_⟩, ?_⟩
  · show entry.position + min size (text.length - entry.position) ≤ text.length
    have := reading.inside
    omega
  · refine ⟨?_, ?_, ?_, ?_⟩
    all_goals rw [position]
    · exact returned
    · exact stored
    · exact framed
    · rw [positionOf, next.held]

theorem run {calls : List FileCall}
    (valid : ∀ call ∈ calls, ValidCall fd (disk.initrd.files index) call) :
    Reading disk fd index text
        { entry with position := min text.length (entry.position + totalRequested fd calls) }
        (Vfs.filesAfter initrdInterface files calls) ∧
      dataRead fd files calls =
        slice text entry.position
          (min (totalRequested fd calls) (text.length - entry.position)) := by
  have inside := reading.inside
  induction calls generalizing entry files with
  | nil =>
    have position : min text.length (entry.position + totalRequested fd []) = entry.position := by
      simp [totalRequested, inside]
    rw [position]
    exact ⟨reading, by simp [dataRead, totalRequested, slice]⟩
  | cons call calls ih =>
    rw [List.forall_mem_cons] at valid
    have total : totalRequested fd (call :: calls) =
        sizeRequested fd call + totalRequested fd calls := by
      rw [totalRequested, List.map_cons, List.sum_cons, ← totalRequested]
    rw [total, dataRead]
    rcases valid.1 with ⟨buffer, size, nonnull, small, apart⟩ | ⟨_, avoids, apart⟩
    · rw [← reading.length_eq] at apart
      rcases reading.read short nonnull small apart with ⟨next, chunk⟩
      rcases ih next valid.2 next.inside with ⟨last, data⟩
      have own : sizeRequested fd (.read fd buffer size) = size := if_pos rfl
      have position := reading.positionOf_eq
      have stored := chunk.stored
      rw [position] at stored
      have first : chunkOf fd (Vfs.vfsRead initrdInterface files fd buffer size).1
          (Vfs.vfsRead initrdInterface files fd buffer size).2 (.read fd buffer size) =
            slice text entry.position (min size (text.length - entry.position)) := by
        rw [chunkOf, if_pos rfl, chunk.returned, position, Int.toNat_natCast, stored]
      rw [own]
      dsimp only at last data
      constructor
      · have reached : min text.length
            (entry.position + min size (text.length - entry.position) +
              totalRequested fd calls) =
            min text.length (entry.position + (size + totalRequested fd calls)) := by omega
        rw [reached] at last
        exact last
      · have amount : min (size + totalRequested fd calls) (text.length - entry.position) =
            min size (text.length - entry.position) +
              min (totalRequested fd calls)
                (text.length - (entry.position + min size (text.length - entry.position))) := by
          omega
        rw [amount, slice_add, ← first, ← data]
        rfl
    · rcases ih ⟨reading.run_other avoids apart, inside⟩ valid.2 inside with ⟨last, data⟩
      rw [sizeRequested_of_avoids avoids, Nat.zero_add]
      refine ⟨last, ?_⟩
      rw [← data]
      dsimp only
      rw [chunkOf_of_avoids avoids, List.nil_append]

theorem run_take {calls : List FileCall}
    (valid : ∀ call ∈ calls, ValidCall fd (disk.initrd.files index) call) (k : ℕ) :
    Reading disk fd index text
      { entry with
        position := min text.length (entry.position + totalRequested fd (calls.take k)) }
      (Vfs.filesAfter initrdInterface files (calls.take k)) :=
  (reading.run short fun call listed => valid call (List.mem_of_mem_take listed)).1

end

end Reading

theorem totalRequested_take_le (fd : ℤ) (calls : List FileCall) {k later : ℕ}
    (ordered : k ≤ later) :
    totalRequested fd (calls.take k) ≤ totalRequested fd (calls.take later) := by
  rcases Nat.exists_eq_add_of_le ordered with ⟨more, rfl⟩
  rw [List.take_add, totalRequested, totalRequested, List.map_append, List.sum_append]
  exact Nat.le_add_right _ _

/-- For every file of the initrd below two gigabytes and every sequence of reads of its
descriptor, with any calls for others in between, the reads deliver the contents in order. -/
theorem vfsRead_chunksInOrder {files opened : Files (Machine Disk)} {path : Bytes}
    {flags fd : ℤ} {index : ℕ}
    (isNode : IsFileNode files.env.rest.initrd (files.env.rest.resolve path) index)
    (short : (files.env.rest.initrd.files index).size < 2 ^ 31)
    (readable : Word32.ofInt flags &&& Vfs.oWronly = 0)
    (ran : Vfs.vfsOpen initrdInterface files (some path) flags = (fd, opened))
    (succeeded : 0 ≤ fd) {calls : List FileCall}
    (valid : ∀ call ∈ calls, ValidCall fd (files.env.rest.initrd.files index) call) :
    ChunksInOrder opened fd (contents files.env.memory (files.env.rest.initrd.files index))
      calls := by
  have reading : Reading _ _ _ _ _ opened :=
    ⟨openOn_of_vfsOpen isNode readable ran succeeded, Nat.zero_le _⟩
  have length := reading.length_eq
  rw [← length] at short
  generalize contents files.env.memory (files.env.rest.initrd.files index) = text at *
  have position (k : ℕ) : positionOf fd (Vfs.filesAfter initrdInterface opened (calls.take k)) =
      min text.length (totalRequested fd (calls.take k)) := by
    rw [(reading.run_take short valid k).positionOf_eq, Nat.zero_add]
  have chunk (k buffer size : ℕ) (isRead : calls[k]? = some (.read fd buffer size)) :
      ReadsChunk (Vfs.filesAfter initrdInterface opened (calls.take k)) fd buffer size text := by
    rcases valid _ (List.mem_of_getElem? isRead) with ⟨_, _, nonnull, small, apart⟩ | ⟨_, avoids, _⟩
    · rw [← length] at apart
      exact ((reading.run_take short valid k).read short nonnull small apart).2
    · exact absurd rfl avoids
  refine ⟨?_, chunk, ?_, ?_⟩
  · intro k
    rw [position]
    exact Nat.min_le_left _ _
  · intro k later buffer size ordered reached isRead
    have more := totalRequested_take_le fd calls ordered
    rw [position] at reached
    rw [(chunk later buffer size isRead).returned, position]
    omega
  · have data := (reading.run short valid).2
    rw [Nat.sub_zero, Nat.min_comm] at data
    exact data

theorem vfsRead_chunksInOrder_greeting :
    ChunksInOrder (Vfs.vfsOpen initrdInterface (loneFiles (ascii "hi!")) (some (ascii "/file")) 1).2
      3 (contents (place 0x800000 (ascii "hi!")) (loneFile 3))
      [.read 3 0x100000 2, .dup 3, .read 3 0x100000 7] := by
  refine @vfsRead_chunksInOrder (loneFiles (ascii "hi!")) _ (ascii "/file") 1 3 0
    ⟨ascii "file", 3, rfl⟩ (by decide) (by decide) rfl (by decide) _ ?_
  simp only [List.forall_mem_cons, List.not_mem_nil, false_implies, implies_true, and_true]
  exact ⟨.own 0x100000 2 (by decide) (by decide) (loneFile_apart (by decide) (by decide)),
    .other (.dup 3) trivial (Set.empty_disjoint _),
    .own 0x100000 7 (by decide) (by decide) (loneFile_apart (by decide) (by decide))⟩

end RamOS.Initrd
