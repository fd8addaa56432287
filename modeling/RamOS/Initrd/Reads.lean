import RamOS.Initrd.Malformed

/-!
# Reading the files of an archive

`cat` and `initrd_read` take the address and the size of a file from the table, which holds what
the headers said. `initrd_read` cuts a request down to the end of the file, but compares with
the sum of the offset and the size as a word. A request whose sum wraps may pass, and is then
copied whole: it runs over the end of the address space.
-/

namespace RamOS.Initrd

open ByteMemory CString Relation

def initrdReadAddresses (file : InitrdFile) (offset size : ℕ) : List ℕ :=
  if file.size ≤ offset then []
  else
    let count := if file.size < Word32.add offset size then Word32.sub file.size offset else size
    (List.range count).map fun index => Word32.add (Word32.add file.data offset) index

/-- `initrd_read`: the bytes copied to the buffer, whose number it returns. -/
def initrdRead (memory : Memory) (file : InitrdFile) (offset size : ℕ) : Bytes :=
  (initrdReadAddresses file offset size).map memory

/-- The addresses that `cmd_cat` reads: the contents, and the last byte once more. -/
def catAddresses (file : InitrdFile) : List ℕ :=
  (List.range file.size).map (Word32.add file.data) ++
    if 0 < file.size then [Word32.add file.data (Word32.sub file.size 1)] else []

/-- `cmd_cat`: the characters that are printed. -/
def cmdCat (memory : Memory) (state : State) (args : Bytes) : Bytes :=
  if args = [] then ascii "Usage: cat <filename>\n"
  else
    match initrdFind state args with
    | none => ascii "Error: File '" ++ args ++ ascii "' not found\n"
    | some index =>
      let file := state.files index
      let contents := (List.range file.size).map fun position =>
        memory (Word32.add file.data position)
      if 0 < file.size ∧
          memory (Word32.add file.data (Word32.sub file.size 1)) ≠ '\n'.toUInt8 then
        contents ++ ['\n'.toUInt8]
      else contents

theorem cmdCat_congr {left right : Memory} {state : State} {args : Bytes}
    (agree : ∀ index, initrdFind state args = some index →
      ∀ address ∈ catAddresses (state.files index), left address = right address) :
    cmdCat left state args = cmdCat right state args := by
  unfold cmdCat
  split
  next => rfl
  next =>
    cases found : initrdFind state args with
    | none => rfl
    | some index =>
      have same := agree index found
      have sameContents : ∀ position < (state.files index).size,
          left (Word32.add (state.files index).data position) =
            right (Word32.add (state.files index).data position) := by
        intro position inside
        refine same _ (List.mem_append_left _ ?_)
        exact List.mem_map.mpr ⟨position, List.mem_range.mpr inside, rfl⟩
      have contents : ((List.range (state.files index).size).map fun position =>
          left (Word32.add (state.files index).data position)) =
          (List.range (state.files index).size).map fun position =>
            right (Word32.add (state.files index).data position) :=
        List.map_congr_left fun position listed => sameContents position (List.mem_range.mp listed)
      by_cases positive : 0 < (state.files index).size
      · have last := same (Word32.add (state.files index).data
          (Word32.sub (state.files index).size 1))
          (List.mem_append_right _ (by rw [if_pos positive]; exact List.mem_singleton_self _))
        simp only [contents, last]
      · simp only [contents, positive, false_and]

structure StaysInside (addr size : ℕ) (file : InitrdFile) (offset count : ℕ) : Prop where
  starts : addr ≤ file.data
  ends : file.data + file.size ≤ addr + size
  cat : ∀ address ∈ catAddresses file, address ∈ range addr size
  read : ∀ address ∈ initrdReadAddresses file offset count, address ∈ range addr size

def Fits (memory : Memory) (addr size data : ℕ) : Prop :=
  addr ≤ contentsAt memory data ∧ contentsAt memory data + sizeAt memory data ≤ addr + size

/-- The sum of the offset and the size wraps to one that is not beyond the file. -/
def PassesWrapped (fileSize offset count : ℕ) : Prop :=
  offset < fileSize ∧ 2 ^ 32 ≤ offset + count ∧ offset + count ≤ fileSize + 2 ^ 32

theorem catAddresses_inside {addr size : ℕ} {file : InitrdFile} (starts : addr ≤ file.data)
    (ends : file.data + file.size ≤ addr + size) (fits : addr + size < 2 ^ 32) :
    ∀ address ∈ catAddresses file, address ∈ range addr size := by
  have within (position : ℕ) (below : position < file.size) :
      Word32.add file.data position ∈ range addr size := by
    rw [Word32.add_eq (by omega), mem_range]
    omega
  intro address listed
  rcases List.mem_append.mp listed with inContents | isLast
  · rcases List.mem_map.mp inContents with ⟨position, inside, rfl⟩
    exact within position (List.mem_range.mp inside)
  · split at isLast
    next positive =>
      rw [List.mem_singleton.mp isLast, Word32.sub_eq positive (by omega)]
      exact within _ (by omega)
    next => cases isLast

theorem initrdReadAddresses_inside_iff {addr size offset count : ℕ} {file : InitrdFile}
    (starts : addr ≤ file.data) (ends : file.data + file.size ≤ addr + size)
    (fits : addr + size < 2 ^ 32) (word : count < 2 ^ 32) :
    (∀ address ∈ initrdReadAddresses file offset count, address ∈ range addr size) ↔
      ¬PassesWrapped file.size offset count := by
  by_cases beyond : file.size ≤ offset
  · rw [initrdReadAddresses, if_pos beyond]
    refine ⟨fun _ passes => ?_, fun _ address listed => by cases listed⟩
    have := passes.1
    omega
  rw [initrdReadAddresses, if_neg beyond, Word32.sub_eq (by omega) (by omega),
    @Word32.add_eq file.data offset (by omega)]
  have within {taken : ℕ} (short : taken ≤ file.size - offset) :
      ∀ address ∈ (List.range taken).map fun index => Word32.add (file.data + offset) index,
        address ∈ range addr size := by
    intro address listed
    rcases List.mem_map.mp listed with ⟨index, inside, rfl⟩
    rw [List.mem_range] at inside
    rw [Word32.add_eq (by omega), mem_range]
    omega
  by_cases wraps : 2 ^ 32 ≤ offset + count
  · have sum : Word32.add offset count = offset + count - 2 ^ 32 := by
      rw [Word32.add]
      omega
    rw [sum]
    by_cases passes : offset + count ≤ file.size + 2 ^ 32
    · rw [if_neg (by omega)]
      refine ⟨fun inside => ?_, fun notWrapped => absurd ⟨by omega, wraps, passes⟩ notWrapped⟩
      have top : Word32.add (file.data + offset) (2 ^ 32 - 1 - (file.data + offset)) =
          2 ^ 32 - 1 := by
        rw [Word32.add]
        omega
      have outside := inside _ (List.mem_map.mpr
        ⟨2 ^ 32 - 1 - (file.data + offset), List.mem_range.mpr (by omega), rfl⟩)
      rw [top, mem_range] at outside
      omega
    · rw [if_pos (by omega)]
      exact ⟨fun _ passed => passes passed.2.2, fun _ => within le_rfl⟩
  · rw [Word32.add_eq (by omega)]
    refine ⟨fun _ passed => wraps passed.2.1, fun _ => within ?_⟩
    split <;> omega

variable {memory : Memory} {allocate : ℕ → ℕ} {finish fuel addr : ℕ} {state : State}

def FromEntry (memory : Memory) (file : InitrdFile) (data : ℕ) : Prop :=
  file.data = contentsAt memory data ∧ file.size = sizeAt memory data

theorem Continues.files {before after : ℕ × State}
    (continues : Continues memory allocate finish before after) :
    Dotted memory before.1 ∧ after.2 = before.2 ∨
      Registers memory finish before ∧ after.2.fileCount = before.2.fileCount + 1 ∧
        FromEntry memory (after.2.files before.2.fileCount) before.1 ∧
        ∀ index, index ≠ before.2.fileCount → after.2.files index = before.2.files index := by
  rcases continues.cases.2 with ⟨⟨_, _, dotted, _⟩, same⟩ | ⟨registers, _, _, registered⟩
  · exact Or.inl ⟨dotted, same⟩
  · right
    rw [registered]
    refine ⟨registers, State.register_fileCount _ _ _ _ _, ?_, ?_⟩
    · rw [State.register_files_same]
      exact ⟨rfl, rfl⟩
    · intro index other
      exact State.register_files_of_ne other

theorem files_kept {start position : ℕ × State} {index : ℕ}
    (path : ReflTransGen (Continues memory allocate finish) start position)
    (listed : index < start.2.fileCount) :
    index < position.2.fileCount ∧ position.2.files index = start.2.files index := by
  induction path with
  | refl => exact ⟨listed, rfl⟩
  | tail _ continues ih =>
    rcases continues.files with ⟨_, same⟩ | ⟨_, more, _, others⟩
    · rwa [same]
    · refine ⟨by omega, ?_⟩
      rw [others index (by omega), ih.2]

theorem files_fromEntry {position : ℕ × State}
    (reached : Reached memory allocate finish addr state position) {index : ℕ}
    (listed : index < position.2.fileCount) :
    ∃ origin, Reached memory allocate finish addr state origin ∧
      Registers memory finish origin ∧ FromEntry memory (position.2.files index) origin.1 := by
  induction reached with
  | refl => cases listed
  | @tail middle last before continues ih =>
    rcases continues.files with ⟨_, same⟩ | ⟨registers, more, fromEntry, others⟩
    · rw [same] at listed ⊢
      exact ih listed
    · by_cases newest : index = middle.2.fileCount
      · rw [newest]
        exact ⟨middle, before, registers, fromEntry⟩
      · rw [others index newest]
        exact ih (by omega)

theorem initrdLoop_last {start : ℕ × State} {loaded : State}
    (run : initrdLoop memory allocate finish fuel start.1 start.2 = some loaded) :
    ∃ data, ReflTransGen (Continues memory allocate finish) start (data, loaded) := by
  rcases start with ⟨data, state⟩
  dsimp only at run
  fun_induction initrdLoop memory allocate finish fuel data state with
  | case1 | case2 => cases run
  | case3 | case5 =>
    cases run
    exact ⟨_, .refl⟩
  | case4 fuel data state inside next changed entry ih =>
    rcases ih run with ⟨last, path⟩
    exact ⟨last, .head ⟨inside.1, inside.2, fuel, entry⟩ path⟩

section Loaded

variable {size count : ℕ} {loaded : State}

theorem initrdInit_files
    (run : initrdInit fuel memory allocate addr size state = some (count, loaded)) :
    ∃ data walked, Reached memory allocate (Word32.add addr size) addr state (data, walked) ∧
      walked.fileCount = count ∧ walked.files = loaded.files := by
  rcases Option.map_eq_some_iff.mp run with ⟨walked, loop, result⟩
  rcases @initrdLoop_last _ _ _ _ (walkStart addr state) _ loop with ⟨data, reached⟩
  rw [Prod.mk.injEq] at result
  exact ⟨data, walked, reached, result.1, by rw [← result.2]; rfl⟩

theorem exists_file_of_registers
    (run : initrdInit fuel memory allocate addr size state = some (count, loaded))
    {position : ℕ × State}
    (reached : Reached memory allocate (Word32.add addr size) addr state position)
    (registers : Registers memory (Word32.add addr size) position) :
    ∃ index < count, FromEntry memory (loaded.files index) position.1 := by
  rcases registers.exists_continues (namesEnd_of_initrdInit run position reached registers) with
    ⟨after, continues⟩
  rcases Option.map_eq_some_iff.mp run with ⟨walked, loop, result⟩
  rcases Iteration.exists_steps (reached.tail continues) with ⟨steps, chain⟩
  rcases @initrdLoop_steps _ _ _ _ (walkStart addr state) _ _ _ loop chain with ⟨less, _, rest⟩
  rcases initrdLoop_last rest with ⟨data, path⟩
  rw [Prod.mk.injEq] at result
  rcases continues.files with ⟨dotted, _⟩ | ⟨_, more, fromEntry, _⟩
  · exact absurd dotted registers.2.2.2
  · rcases files_kept path (by omega : position.2.fileCount < after.2.fileCount) with
      ⟨listed, kept⟩
    refine ⟨position.2.fileCount, by rw [← result.1]; exact listed, ?_⟩
    rw [← result.2]
    rw [← kept] at fromEntry
    exact fromEntry

theorem end_lt_of_registers (word : size < 2 ^ 32) {position : ℕ × State}
    (reached : Reached memory allocate (Word32.add addr size) addr state position)
    (registers : Registers memory (Word32.add addr size) position) : addr + size < 2 ^ 32 := by
  have entered : addr < Word32.add addr size := by
    rcases ReflTransGen.cases_head reached with start | ⟨_, first, _⟩
    · rw [← start] at registers
      exact registers.1
    · exact first.1
  rw [Word32.add] at entered
  omega

/-- The files in the table and what is read of them stay inside the archive exactly if every entry
for a file says that it lies inside, and the request does not wrap and pass. -/
theorem initrdInit_staysInside_iff (memory : Memory) (allocate : ℕ → ℕ)
    (addr size : Fin (2 ^ 32)) (state : State) (fuel count : ℕ) (loaded : State)
    (run : initrdInit fuel memory allocate addr size state = some (count, loaded))
    (offset requested : Fin (2 ^ 32)) :
    (∀ index < count, StaysInside addr size (loaded.files index) offset requested) ↔
      ∀ position, Reached memory allocate (Word32.add addr size) addr state position →
        Registers memory (Word32.add addr size) position →
          Fits memory addr size position.1 ∧
            ¬PassesWrapped (sizeAt memory position.1) offset requested := by
  constructor
  · intro inside position reached registers
    rcases exists_file_of_registers run reached registers with ⟨index, listed, place, length⟩
    have file := inside index listed
    have fits := end_lt_of_registers size.isLt reached registers
    have read := (initrdReadAddresses_inside_iff file.starts file.ends fits requested.isLt).mp
      file.read
    rw [Fits, ← place, ← length]
    exact ⟨⟨file.starts, file.ends⟩, read⟩
  · intro each index listed
    rcases initrdInit_files run with ⟨data, walked, walkedTo, isCount, sameFiles⟩
    rw [← isCount] at listed
    rcases files_fromEntry walkedTo listed with ⟨origin, reached, registers, place, length⟩
    have fits := end_lt_of_registers size.isLt reached registers
    rcases each origin reached registers with ⟨⟨starts, ends⟩, notWrapped⟩
    rw [← sameFiles]
    rw [← place] at starts ends
    rw [← length] at ends notWrapped
    exact ⟨starts, ends, catAddresses_inside starts ends fits,
      (initrdReadAddresses_inside_iff starts ends fits requested.isLt).mpr notWrapped⟩

end Loaded

theorem initrdInit_staysInside_iff_sample :
    ∃ loaded,
      initrdInit 259 (place 0x800000 sampleArchive) (fun _ => 0) 0x800000 376 State.initial =
        some (2, loaded) ∧
      ((∀ index < 2, StaysInside 0x800000 376 (loaded.files index) 1 2) ↔
        ∀ position, Reached (place 0x800000 sampleArchive) (fun _ => 0)
          (Word32.add 0x800000 376) 0x800000 State.initial position →
          Registers (place 0x800000 sampleArchive) (Word32.add 0x800000 376) position →
            Fits (place 0x800000 sampleArchive) 0x800000 376 position.1 ∧
              ¬PassesWrapped (sizeAt (place 0x800000 sampleArchive) position.1) 1 2) := by
  rcases @initrdInit_valid _ (fun _ => 0) _ State.initial _ _ sampleArchive_isArchive (by decide)
    sampleFiles_valid (by rw [length_sampleArchive]; omega) (load_place_all 0x800000 sampleArchive)
    with ⟨loaded, runs, -⟩
  have run := runs 259 (by decide)
  rw [length_sampleArchive] at run
  exact ⟨_, run, initrdInit_staysInside_iff _ _ 0x800000 376 _ _ _ _ run 1 2⟩

/-- An archive that ends after the name of its only entry, of 4096 bytes by its header. -/
def oversizedEntry : Bytes :=
  plainHeader (ascii "00001000") (ascii "00000002") ++ ascii "a" ++ [0]

theorem oversizedEntry_loaded :
    ∃ loaded,
      initrdInit 3 (place 0x800000 oversizedEntry) (fun _ => 0) 0x800000 112 State.initial =
        some (1, loaded) ∧
      (loaded.files 0).data = 0x800070 ∧ (loaded.files 0).size = 0x1000 :=
  ⟨_, rfl, by decide, by decide⟩

/-- `cat` and `initrd_read` both read the byte behind the archive. -/
theorem initrd_file_beyond_archive :
    ∃ loaded,
      initrdInit 3 (place 0x800000 oversizedEntry) (fun _ => 0) 0x800000 112 State.initial =
        some (1, loaded) ∧
      0x800000 + 112 < (loaded.files 0).data + (loaded.files 0).size ∧
      0x800000 + 112 ∈ catAddresses (loaded.files 0) ∧
      0x800000 + 112 ∈ initrdReadAddresses (loaded.files 0) 0 1 := by
  rcases oversizedEntry_loaded with ⟨loaded, run, data, size⟩
  refine ⟨loaded, run, by omega, ?_, ?_⟩
  · refine List.mem_append_left _ (List.mem_map.mpr ⟨0, List.mem_range.mpr (by omega), ?_⟩)
    rw [data, Word32.add_eq (by omega)]
  · rw [initrdReadAddresses, size, data]
    decide

end RamOS.Initrd
