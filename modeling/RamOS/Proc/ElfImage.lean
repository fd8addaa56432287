import RamOS.Initrd.Boot
import RamOS.Proc.Elf

/-!
# The image that the ELF loader leaves

For a file of the initrd whose segments lie inside the file, and in memory apart from each
other, from the file and from the kernel, the loop of `elf_load` puts every segment where it
belongs and touches nothing else. The one exception is a segment at address 0 with bytes in
the file: to `vfs_read` its address is a null pointer, and the segment is skipped. In a booted
kernel, this holds for the programs of the archive.
-/

namespace RamOS.Proc

open ByteMemory CString Slice WordMemory
open Initrd (Disk Framed IsFileNode OpenOn contents fileAddresses initrdInterface)
open Vfs (FileDescriptor Files Machine vfsClose vfsOpen vfsRead vfsSeek)

def headerOf (text : Bytes) : ElfHeader := .ofBytes (slice text 0 headerBytes)

def programHeaderOf (text : Bytes) (i : ℕ) : ProgramHeader :=
  .ofBytes (slice text ((headerOf text).phoff + i * (headerOf text).phentsize) programHeaderBytes)

def headerPlace (text : Bytes) (i : ℕ) : ℕ :=
  (headerOf text).phoff + i * (headerOf text).phentsize

/-- A program header lies inside the file. -/
def HeaderInside (text : Bytes) (i : ℕ) : Prop :=
  headerPlace text i + programHeaderBytes ≤ text.length

/-- The segment has no bytes in the file, or bytes that are all there and do not belong at
address 0. -/
def SegmentInside (text : Bytes) (phdr : ProgramHeader) : Prop :=
  phdr.filesz = 0 ∨ phdr.vaddr ≠ 0 ∧ phdr.offset + phdr.filesz ≤ text.length

namespace ProgramHeader

def footprint (phdr : ProgramHeader) : Set ℕ := range phdr.vaddr (max phdr.filesz phdr.memsz)

/-- Memory holds the bytes of a segment, with zeros behind them. -/
structure InMemory (phdr : ProgramHeader) (text : Bytes) (memory : Memory) : Prop where
  bytes : load memory phdr.vaddr phdr.filesz = slice text phdr.offset phdr.filesz
  zeros : ∀ address ∈ range (phdr.vaddr + phdr.filesz) (phdr.memsz - phdr.filesz),
    memory address = 0

/-- The loop may write to the memory of a segment. With bytes in the file and at address 0 it is
skipped, unless there are so many that their count is negative as an `int`. -/
def Written (phdr : ProgramHeader) (text : Bytes) : Prop :=
  phdr.type = ptLoad ∧ (phdr.vaddr ≠ 0 ∨ phdr.filesz = 0 ∨ text.length < phdr.filesz)

/-- A segment whose sums do not wrap, and whose memory is apart from the given addresses. -/
structure Apart (kernel fileBytes : Set ℕ) (phdr : ProgramHeader) : Prop where
  fileRange : 0 < phdr.filesz → phdr.offset + phdr.filesz < 2 ^ 32
  noWrap : phdr.vaddr + max phdr.filesz phdr.memsz ≤ 2 ^ 32
  notKernel : Disjoint phdr.footprint kernel
  notFile : Disjoint phdr.footprint fileBytes

theorem InMemory.congr {phdr : ProgramHeader} {text : Bytes} {left right : Memory}
    (inMemory : phdr.InMemory text left) (agree : Set.EqOn right left phdr.footprint) :
    phdr.InMemory text right := by
  refine ⟨?_, ?_⟩
  · rw [← inMemory.bytes]
    exact load_congr (agree.mono (range_subset_range le_rfl (by omega)))
  · intro address inside
    rw [← inMemory.zeros address inside]
    exact agree (range_subset_range (by omega) (by omega) inside)

end ProgramHeader

/-- A file with a valid header whose program headers and segments lie inside the file, and
whose segments do not wrap and are apart from each other and from the given addresses. -/
structure Loadable (kernel fileBytes : Set ℕ) (text : Bytes) : Prop where
  hasHeader : headerBytes ≤ text.length
  valid : elfValidate (headerOf text)
  headersInside : ∀ i < (headerOf text).phnum,
    (headerOf text).phoff + i * (headerOf text).phentsize + programHeaderBytes ≤ text.length
  segmentsInside : ∀ i < (headerOf text).phnum, (programHeaderOf text i).type = ptLoad →
    (programHeaderOf text i).filesz = 0 ∨
      (programHeaderOf text i).offset + (programHeaderOf text i).filesz ≤ text.length
  noWrap : ∀ i < (headerOf text).phnum, (programHeaderOf text i).type = ptLoad →
    (programHeaderOf text i).vaddr +
      max (programHeaderOf text i).filesz (programHeaderOf text i).memsz ≤ 2 ^ 32
  apart : ∀ i < (headerOf text).phnum, ∀ j < (headerOf text).phnum, i ≠ j →
    (programHeaderOf text i).type = ptLoad → (programHeaderOf text j).type = ptLoad →
      Disjoint (programHeaderOf text i).footprint (programHeaderOf text j).footprint
  notKernel : ∀ i < (headerOf text).phnum, (programHeaderOf text i).type = ptLoad →
    Disjoint (programHeaderOf text i).footprint kernel
  notFile : ∀ i < (headerOf text).phnum, (programHeaderOf text i).type = ptLoad →
    Disjoint (programHeaderOf text i).footprint fileBytes

/-- The loop can seek to every program header, and the segments of those that are there are
apart. -/
structure LoadsApart (kernel fileBytes : Set ℕ) (text : Bytes) : Prop where
  places : ∀ i < (headerOf text).phnum, headerPlace text i < 2 ^ 31
  segments : ∀ i < (headerOf text).phnum, HeaderInside text i →
    (programHeaderOf text i).type = ptLoad → (programHeaderOf text i).Apart kernel fileBytes

theorem Loadable.loadsApart {kernel fileBytes : Set ℕ} {text : Bytes}
    (loadable : Loadable kernel fileBytes text) (short : text.length < 2 ^ 31) :
    LoadsApart kernel fileBytes text := by
  refine ⟨fun i listed => ?_, fun i listed _ isLoad => ⟨fun fromFile => ?_,
    loadable.noWrap i listed isLoad, loadable.notKernel i listed isLoad,
    loadable.notFile i listed isLoad⟩⟩
  · have within := loadable.headersInside i listed
    rw [headerPlace]
    omega
  · have inside := loadable.segmentsInside i listed isLoad
    omega

/-- `elf_load` returns the entry point, leaves every segment in memory and nothing else changed
but its local variables, and frees its descriptor. -/
structure LoadsFaithfully (frame : Frame) (text : Bytes) (files : Files (Machine Disk))
    (path : Bytes) (fd : ℤ) : Prop where
  entry : (elfLoad initrdInterface frame files (some path)).1 = (headerOf text).entry
  segments : ∀ i < (headerOf text).phnum, (programHeaderOf text i).type = ptLoad →
    (programHeaderOf text i).InMemory text
      (elfLoad initrdInterface frame files (some path)).2.env.memory
  unchanged : ∀ address, address ∉ range frame.header headerBytes →
    address ∉ range frame.phdr programHeaderBytes →
    (∀ i < (headerOf text).phnum, (programHeaderOf text i).type = ptLoad →
      address ∉ (programHeaderOf text i).footprint) →
    (elfLoad initrdInterface frame files (some path)).2.env.memory address =
      files.env.memory address
  free : ((elfLoad initrdInterface frame files (some path)).2.fdTable fd.toNat).node = 0

section Steps

variable {disk : Disk} {fd : ℤ} {index : ℕ} {text : Bytes} {entry : FileDescriptor}
  {files : Files (Machine Disk)} {phdr : ProgramHeader} {kernel : Set ℕ}

theorem zeroRest_of_mem (noWrap : phdr.vaddr + phdr.memsz ≤ 2 ^ 32) {address : ℕ}
    (inside : address ∈ range (phdr.vaddr + phdr.filesz) (phdr.memsz - phdr.filesz)) :
    (zeroRest files phdr).env.memory address = 0 := by
  have more : phdr.filesz < phdr.memsz := by
    rw [mem_range] at inside
    omega
  rw [zeroRest, if_pos more]
  refine fillAlong_of_mem ?_
  rw [Word32.add_eq (by omega), mem_addresses_of_le (by omega)]
  exact inside

theorem zeroRest_framed (noWrap : phdr.vaddr + phdr.memsz ≤ 2 ^ 32) :
    Framed files.env (zeroRest files phdr).env
      (range (phdr.vaddr + phdr.filesz) (phdr.memsz - phdr.filesz)) := by
  rw [zeroRest]
  split
  next more =>
    refine ⟨rfl, fun address outside => fillAlong_of_notMem ?_⟩
    rw [Word32.add_eq (by omega), mem_addresses_of_le (by omega)]
    exact outside
  next => exact .refl _ _

theorem zeroRest_fdTable : (zeroRest files phdr).fdTable = files.fdTable := by
  rw [zeroRest]
  split <;> rfl

theorem inMemory_zeroRest (noWrap : phdr.vaddr + max phdr.filesz phdr.memsz ≤ 2 ^ 32)
    (bytes : load files.env.memory phdr.vaddr phdr.filesz = slice text phdr.offset phdr.filesz) :
    phdr.InMemory text (zeroRest files phdr).env.memory := by
  refine ⟨?_, fun address inside => zeroRest_of_mem (by omega) inside⟩
  rw [← bytes]
  refine load_congr fun address inside => (zeroRest_framed (by omega)).memory ?_
  rw [mem_range] at inside
  rw [mem_compl_range]
  omega

variable (isOpen : OpenOn disk fd index text entry files)
include isOpen

theorem openOn_zeroRest (noWrap : phdr.vaddr + max phdr.filesz phdr.memsz ≤ 2 ^ 32)
    (notFile : Disjoint phdr.footprint (disk.initrd.files index).bytes) :
    OpenOn disk fd index text entry (zeroRest files phdr) := by
  refine isOpen.moved (zeroRest_framed (by omega)) (notFile.mono_left ?_) ?_
  · exact range_subset_range (by omega) (by omega)
  · rw [zeroRest_fdTable]
    exact isOpen.held

/-- An offset that is negative as an `int` leads nowhere. -/
theorem seek_word {place : ℕ} (word : place < 2 ^ 32) :
    OpenOn disk fd index text
      { entry with position := if place < 2 ^ 31 then place else entry.position }
      (vfsSeek initrdInterface files fd (Word32.toInt place) 0).2 := by
  rcases isOpen.seek (Word32.toInt place) with ⟨position, sought, lands, stays⟩
  split
  next near =>
    rw [Word32.toInt_eq near] at lands
    rwa [lands (by omega) (by omega), Int.toNat_natCast] at sought
  next far =>
    have negative : Word32.toInt place = (place : ℤ) - 2 ^ 32 := by
      rw [Word32.toInt, if_neg (by omega)]
    rw [negative] at stays
    rwa [stays (by omega) (by omega)] at sought

theorem vfsRead_null (size : ℕ) :
    vfsRead initrdInterface files fd 0 size = (-1, files) := by
  simp only [vfsRead, isOpen.found, true_or, if_true]

/-- A read gives what the file has from the position on, and stores into the buffer only. -/
theorem read_atMost (short : text.length < 2 ^ 31) {address size : ℕ}
    (fits : entry.position < text.length → entry.position + size < 2 ^ 32)
    (inside : 0 < address ∧ address + size ≤ 2 ^ 32)
    (apart : Disjoint (range address size) (disk.initrd.files index).bytes) :
    let amount := min size (text.length - entry.position)
    (vfsRead initrdInterface files fd address size).1 = amount ∧
      OpenOn disk fd index text { entry with position := entry.position + amount }
        (vfsRead initrdInterface files fd address size).2 ∧
      load (vfsRead initrdInterface files fd address size).2.env.memory address amount =
        slice text entry.position amount ∧
      Framed files.env (vfsRead initrdInterface files fd address size).2.env
        (range address size) := by
  have notFile : (addresses address (min size text.length)).Disjoint
      (fileAddresses (disk.initrd.files index)) := by
    intro location inBuffer inFile
    rw [mem_addresses_of_le (by omega)] at inBuffer
    exact Set.disjoint_left.mp apart (range_subset_range le_rfl (by omega) inBuffer) inFile
  rcases isOpen.read short fits (by omega : address ≠ 0) notFile with
    ⟨returned, next, stored, framed⟩
  rw [map_addresses_of_le (by omega)] at stored
  refine ⟨returned, next, stored, framed.rest, fun location outside => framed.memory ?_⟩
  exact fun listed => outside (range_subset_range le_rfl (by omega)
    ((mem_addresses_of_le (by omega)).mp listed))

/-- Whatever part of a segment is there, only its memory changes. -/
theorem loadSegment_step (short : text.length < 2 ^ 31) (isLoad : phdr.type = ptLoad)
    (apart : phdr.Apart kernel (disk.initrd.files index).bytes) :
    (∃ last, OpenOn disk fd index text last (loadSegment initrdInterface fd files phdr)) ∧
      (SegmentInside text phdr →
        phdr.InMemory text (loadSegment initrdInterface fd files phdr).env.memory) ∧
      ∀ address, (phdr.Written text → address ∉ phdr.footprint) →
        (loadSegment initrdInterface fd files phdr).env.memory address =
          files.env.memory address := by
  have noWrap := apart.noWrap
  have env := @Vfs.vfsSeek_env _ initrdInterface files fd (Word32.toInt phdr.offset) 0
  have zeroed {here : Files (Machine Disk)} {last : FileDescriptor}
      (sought : OpenOn disk fd index text last here) (written : phdr.Written text)
      (same : Set.EqOn here.env.memory files.env.memory phdr.footprintᶜ) :
      (∃ last, OpenOn disk fd index text last (zeroRest here phdr)) ∧
        ∀ address, (phdr.Written text → address ∉ phdr.footprint) →
          (zeroRest here phdr).env.memory address = files.env.memory address := by
    refine ⟨⟨_, openOn_zeroRest sought noWrap apart.notFile⟩, fun address outside => ?_⟩
    rw [(zeroRest_framed (by omega)).memory, same (outside written)]
    exact fun listed => outside written (range_subset_range (by omega) (by omega) listed)
  simp only [loadSegment]
  by_cases fromFile : 0 < phdr.filesz
  · have fits := apart.fileRange fromFile
    have sought := seek_word isOpen (by omega : phdr.offset < 2 ^ 32)
    generalize (vfsSeek initrdInterface files fd (Word32.toInt phdr.offset) 0).2 = here at *
    rw [if_pos fromFile]
    by_cases null : phdr.vaddr = 0
    · -- the address is taken for a null pointer, and the rest of the iteration is skipped
      have notInside : ¬SegmentInside text phdr := by
        rintro (empty | ⟨placed, _⟩)
        · omega
        · exact placed null
      have refused : vfsRead initrdInterface here fd phdr.vaddr phdr.filesz = (-1, here) := by
        rw [null, vfsRead_null sought]
      simp only [refused]
      split
      · exact ⟨⟨_, sought⟩, fun inside => absurd inside notInside, fun _ _ => by rw [env]⟩
      next full =>
        have long : text.length < phdr.filesz := by
          rw [not_not, Word32.toInt] at full
          split at full <;> omega
        rcases zeroed sought ⟨isLoad, Or.inr (Or.inr long)⟩ (fun _ _ => by rw [env]) with
          ⟨stillOpen, same⟩
        exact ⟨stillOpen, fun inside => absurd inside notInside, same⟩
    · have part : range phdr.vaddr phdr.filesz ⊆ phdr.footprint :=
        range_subset_range le_rfl (by omega)
      rcases read_atMost sought short (by dsimp only; split <;> omega) ⟨by omega, by omega⟩
        (apart.notFile.mono_left part) with ⟨returned, next, stored, framed⟩
      have written : phdr.Written text := ⟨isLoad, Or.inl null⟩
      have unread : Set.EqOn (vfsRead initrdInterface here fd phdr.vaddr phdr.filesz).2.env.memory
          files.env.memory phdr.footprintᶜ := by
        intro address outside
        rw [framed.memory fun listed => outside (part listed), env]
      have whole (inside : SegmentInside text phdr) :
          (vfsRead initrdInterface here fd phdr.vaddr phdr.filesz).1 = phdr.filesz ∧
            load (vfsRead initrdInterface here fd phdr.vaddr phdr.filesz).2.env.memory phdr.vaddr
              phdr.filesz = slice text phdr.offset phdr.filesz := by
        have within := (inside.resolve_left (by omega)).2
        dsimp only at returned stored
        rw [if_pos (by omega), min_eq_left (by omega)] at returned stored
        exact ⟨returned, stored⟩
      split
      next partly =>
        refine ⟨⟨_, next⟩, fun inside => absurd ?_ partly, fun address outside =>
          unread (outside written)⟩
        have within := (inside.resolve_left (by omega)).2
        rw [(whole inside).1, Word32.toInt_eq (by omega)]
      · rcases zeroed next written unread with ⟨stillOpen, same⟩
        exact ⟨stillOpen, fun inside => inMemory_zeroRest noWrap (whole inside).2, same⟩
  · rcases isOpen.seek (Word32.toInt phdr.offset) with ⟨position, sought, -, -⟩
    generalize (vfsSeek initrdInterface files fd (Word32.toInt phdr.offset) 0).2 = here at *
    rw [if_neg fromFile]
    have empty : phdr.filesz = 0 := by omega
    rcases zeroed sought ⟨isLoad, Or.inr (Or.inl empty)⟩ (fun _ _ => by rw [env]) with
      ⟨stillOpen, same⟩
    refine ⟨stillOpen, fun _ => inMemory_zeroRest noWrap ?_, same⟩
    rw [empty]
    rfl

end Steps

section Loop

variable {disk : Disk} {fd : ℤ} {index i : ℕ} {text : Bytes} {frame : Frame}
  {entry : FileDescriptor} {kernel : Set ℕ} {files started : Files (Machine Disk)}

/-- The memory that a local variable and the loaded segments do not take. -/
def Untouched (frame : Frame) (text : Bytes) (count address : ℕ) : Prop :=
  address ∉ range frame.phdr programHeaderBytes ∧
    ∀ i < count, HeaderInside text i → (programHeaderOf text i).Written text →
      address ∉ (programHeaderOf text i).footprint

variable (short : text.length < 2 ^ 31)
  (locals : range frame.header headerBytes ∪ range frame.phdr programHeaderBytes ⊆ kernel)
  (kernelApart : Disjoint kernel (disk.initrd.files index).bytes)
  (apart : LoadsApart kernel (disk.initrd.files index).bytes text)

include short locals kernelApart apart

/-- An iteration reads what the file has of its program header. -/
theorem programHeader_read (isOpen : OpenOn disk fd index text entry files)
    (listed : i < (headerOf text).phnum) :
    let sought := seekProgramHeader initrdInterface fd (headerOf text) files i
    let read := vfsRead initrdInterface sought fd frame.phdr programHeaderBytes
    (sought.fdTable fd.toNat).position = headerPlace text i ∧
      (read.1 = programHeaderBytes ↔ HeaderInside text i) ∧
      (∃ last, OpenOn disk fd index text last read.2 ∧
        (HeaderInside text i → last.position ≤ text.length)) ∧
      (HeaderInside text i → frame.phdrIn read.2.env.memory = programHeaderOf text i) ∧
      Framed files.env read.2.env (range frame.phdr programHeaderBytes) := by
  rw [Set.union_subset_iff] at locals
  have place := apart.places i listed
  have word : ((headerOf text).phoff + i * (headerOf text).phentsize) % 2 ^ 32 =
      headerPlace text i := Nat.mod_eq_of_lt (by simp only [headerPlace] at place; omega)
  have env := @Vfs.vfsSeek_env _ initrdInterface files fd (Word32.toInt (headerPlace text i)) 0
  have sought := seek_word isOpen (by omega : headerPlace text i < 2 ^ 32)
  rw [if_pos place] at sought
  intro here read
  simp only [read, here, seekProgramHeader, word]
  generalize (vfsSeek initrdInterface files fd (Word32.toInt (headerPlace text i)) 0).2 = start
    at *
  have size : programHeaderBytes = 32 := rfl
  rcases read_atMost sought short (fun _ => by dsimp only; omega) frame.phdrInside
    (kernelApart.mono_left locals.2) with ⟨returned, next, stored, framed⟩
  dsimp only at returned next stored
  rw [env] at framed
  rw [returned, sought.held, HeaderInside]
  refine ⟨rfl, by omega, ⟨_, next, fun inside => ?_⟩, fun inside => ?_, framed⟩
  · dsimp only
    omega
  · rw [show min programHeaderBytes (text.length - headerPlace text i) = programHeaderBytes by
      omega] at stored
    rw [Frame.phdrIn, stored]
    rfl

theorem loadProgramHeader_step (isOpen : OpenOn disk fd index text entry files)
    (listed : i < (headerOf text).phnum) :
    (∃ last, OpenOn disk fd index text last
        (loadProgramHeader initrdInterface frame fd (headerOf text) files i)) ∧
      (HeaderInside text i → (programHeaderOf text i).type = ptLoad →
        SegmentInside text (programHeaderOf text i) → (programHeaderOf text i).InMemory text
          (loadProgramHeader initrdInterface frame fd (headerOf text) files i).env.memory) ∧
      ∀ address, address ∉ range frame.phdr programHeaderBytes →
        (HeaderInside text i → (programHeaderOf text i).Written text →
          address ∉ (programHeaderOf text i).footprint) →
        (loadProgramHeader initrdInterface frame fd (headerOf text) files i).env.memory address =
          files.env.memory address := by
  rcases programHeader_read short locals kernelApart apart isOpen listed with
    ⟨-, full, ⟨last, next, -⟩, isHeader, framed⟩
  simp only [loadProgramHeader]
  generalize vfsRead initrdInterface (seekProgramHeader initrdInterface fd (headerOf text) files i)
    fd frame.phdr programHeaderBytes = read at *
  split
  next partly =>
    exact ⟨⟨last, next⟩, fun inside => absurd (full.mpr inside) partly,
      fun address notLocal _ => framed.memory notLocal⟩
  next isFull =>
    have inside := full.mp (not_not.mp isFull)
    rw [isHeader inside]
    split
    next other =>
      exact ⟨⟨last, next⟩, fun _ isLoad => absurd isLoad other,
        fun address notLocal _ => framed.memory notLocal⟩
    next isLoad =>
      have isLoad := not_not.mp isLoad
      rcases loadSegment_step next short isLoad (apart.segments i listed inside isLoad) with
        ⟨stillOpen, inMemory, unchanged⟩
      refine ⟨stillOpen, fun _ _ => inMemory, fun address notLocal notSegment => ?_⟩
      rw [unchanged address (notSegment inside), framed.memory notLocal]

theorem loadProgramHeaders_run (isOpen : OpenOn disk fd index text entry started)
    {count : ℕ} (atMost : count ≤ (headerOf text).phnum) :
    (∃ last, OpenOn disk fd index text last
        (loadProgramHeaders initrdInterface frame fd (headerOf text) started count)) ∧
      ∀ address, Untouched frame text count address →
        (loadProgramHeaders initrdInterface frame fd (headerOf text) started count).env.memory
          address = started.env.memory address := by
  induction count with
  | zero => exact ⟨⟨entry, isOpen⟩, fun _ _ => rfl⟩
  | succ count ih =>
    rcases ih (by omega) with ⟨⟨last, stillOpen⟩, unchanged⟩
    rcases loadProgramHeader_step short locals kernelApart apart stillOpen
      (by omega : count < (headerOf text).phnum) with ⟨afterOpen, -, kept⟩
    rw [loadProgramHeaders_succ]
    refine ⟨afterOpen, fun address untouched => ?_⟩
    rw [kept address untouched.1 (untouched.2 count (by omega))]
    exact unchanged address ⟨untouched.1, fun i listed => untouched.2 i (by omega)⟩

theorem entryLeft_eq (isOpen : OpenOn disk fd index text entry started)
    (isHeader : frame.headerIn started.env.memory = headerOf text) :
    entryLeft initrdInterface frame fd started = (headerOf text).entry := by
  rcases loadProgramHeaders_run short locals kernelApart apart isOpen le_rfl with ⟨-, unchanged⟩
  rw [Set.union_subset_iff] at locals
  simp only [entryLeft, isHeader, Initrd.passive_initrdInterface.vfsClose_env]
  rw [Frame.headerIn, load_congr, ← Frame.headerIn, isHeader]
  -- no segment is loaded over the header
  refine fun address inHeader => unchanged address
    ⟨Set.disjoint_left.mp frame.apart inHeader, fun i listed inside written inSegment => ?_⟩
  exact Set.disjoint_left.mp (apart.segments i listed inside written.1).notKernel inSegment
    (locals.1 inHeader)

end Loop

section Loadable

variable {disk : Disk} {fd : ℤ} {index i : ℕ} {text : Bytes} {frame : Frame}
  {entry : FileDescriptor} {kernel fileBytes : Set ℕ} {started : Files (Machine Disk)}

theorem Loadable.not_long (loadable : Loadable kernel fileBytes text)
    (listed : i < (headerOf text).phnum) (isLoad : (programHeaderOf text i).type = ptLoad) :
    (programHeaderOf text i).filesz ≤ text.length := by
  have inside := loadable.segmentsInside i listed isLoad
  omega

theorem Loadable.segmentInside (loadable : Loadable kernel fileBytes text)
    (listed : i < (headerOf text).phnum) (written : (programHeaderOf text i).Written text) :
    SegmentInside text (programHeaderOf text i) := by
  have inside := loadable.segmentsInside i listed written.1
  have short := loadable.not_long listed written.1
  rcases written.2 with placed | empty | long
  · exact inside.imp_right fun within => ⟨placed, within⟩
  · exact Or.inl empty
  · omega

theorem loadProgramHeaders_loadable (short : text.length < 2 ^ 31)
    (locals : range frame.header headerBytes ∪ range frame.phdr programHeaderBytes ⊆ kernel)
    (kernelApart : Disjoint kernel (disk.initrd.files index).bytes)
    (loadable : Loadable kernel (disk.initrd.files index).bytes text)
    (isOpen : OpenOn disk fd index text entry started) {count : ℕ}
    (atMost : count ≤ (headerOf text).phnum) :
    ∀ i < count, (programHeaderOf text i).Written text → (programHeaderOf text i).InMemory text
      (loadProgramHeaders initrdInterface frame fd (headerOf text) started count).env.memory := by
  have apart := loadable.loadsApart short
  induction count with
  | zero => exact fun i none => absurd none (Nat.not_lt_zero i)
  | succ count ih =>
    intro i listed written
    have isLast : count < (headerOf text).phnum := by omega
    rcases loadProgramHeaders_run short locals kernelApart apart isOpen isLast.le with
      ⟨⟨last, stillOpen⟩, -⟩
    rcases loadProgramHeader_step short locals kernelApart apart stillOpen isLast with
      ⟨-, loaded, kept⟩
    rw [loadProgramHeaders_succ]
    rcases Nat.lt_succ_iff_lt_or_eq.mp listed with earlier | rfl
    · -- what was loaded before is apart from this segment and from the local variable
      refine (ih (by omega) i earlier written).congr fun address inSegment => kept address ?_ ?_
      · exact fun inLocal => Set.disjoint_left.mp
          (loadable.notKernel i (by omega) written.1) inSegment (locals (Or.inr inLocal))
      · exact fun _ others inOther => Set.disjoint_left.mp
          (loadable.apart i (by omega) count (by omega) (by omega) written.1 others.1)
          inSegment inOther
    · exact loaded (loadable.headersInside i isLast) written.1
        (loadable.segmentInside isLast written)

theorem untouched_of_skipped
    (locals : range frame.header headerBytes ∪ range frame.phdr programHeaderBytes ⊆ kernel)
    (loadable : Loadable kernel fileBytes text) (listed : i < (headerOf text).phnum)
    (isLoad : (programHeaderOf text i).type = ptLoad)
    (skipped : ¬(programHeaderOf text i).Written text) {address : ℕ}
    (inSegment : address ∈ (programHeaderOf text i).footprint) :
    Untouched frame text (headerOf text).phnum address := by
  constructor
  · exact fun inLocal => Set.disjoint_left.mp (loadable.notKernel i listed isLoad) inSegment
      (locals (Or.inr inLocal))
  · intro j other _ written inOther
    have different : i ≠ j := by
      rintro rfl
      exact skipped written
    exact Set.disjoint_left.mp (loadable.apart i listed j other different isLoad written.1)
      inSegment inOther

end Loadable

section Call

variable {files opened : Files (Machine Disk)} {path : Bytes} {fd : ℤ} {index : ℕ}
  {frame : Frame} {kernel : Set ℕ} {text : Bytes}

section

variable (isNode : IsFileNode files.env.rest.initrd (files.env.rest.resolve path) index)
  (isText : contents files.env.memory (files.env.rest.initrd.files index) = text)
  (short : text.length < 2 ^ 31)
  (ran : vfsOpen initrdInterface files (some path) 0 = (fd, opened)) (succeeded : 0 ≤ fd)
  (locals : range frame.header headerBytes ∪ range frame.phdr programHeaderBytes ⊆ kernel)
  (kernelApart : Disjoint kernel (files.env.rest.initrd.files index).bytes)

include isNode isText short ran succeeded locals kernelApart

theorem header_read :
    (vfsRead initrdInterface opened fd frame.header headerBytes).1 =
        (min headerBytes text.length : ℕ) ∧
      (∃ entry, OpenOn files.env.rest fd index text entry
        (vfsRead initrdInterface opened fd frame.header headerBytes).2) ∧
      (headerBytes ≤ text.length → frame.headerIn
        (vfsRead initrdInterface opened fd frame.header headerBytes).2.env.memory =
          headerOf text) ∧
      Framed files.env (vfsRead initrdInterface opened fd frame.header headerBytes).2.env
        (range frame.header headerBytes) := by
  have env := @Vfs.Interface.Passive.vfsOpen_env _ _ files Initrd.passive_initrdInterface
    (some path) 0
  have isOpen := Initrd.openOn_of_vfsOpen isNode (by decide) ran succeeded
  rw [ran] at env
  rw [isText] at isOpen
  rcases read_atMost isOpen short (fun _ => by dsimp only [headerBytes]; omega) frame.headerInside
    (kernelApart.mono_left (Set.union_subset_iff.mp locals).1) with
    ⟨returned, next, stored, framed⟩
  rw [env] at framed
  dsimp only at returned next stored
  rw [Nat.sub_zero] at returned next stored
  refine ⟨returned, ⟨_, next⟩, fun enough => ?_, framed⟩
  rw [min_eq_left enough] at stored
  rw [Frame.headerIn, stored, headerOf]

theorem elfLoad_loadable
    (loadable : Loadable kernel (files.env.rest.initrd.files index).bytes text) :
    (elfLoad initrdInterface frame files (some path)).1 = (headerOf text).entry ∧
      ((elfLoad initrdInterface frame files (some path)).2.fdTable fd.toNat).node = 0 ∧
      (∀ i < (headerOf text).phnum, (programHeaderOf text i).Written text →
        (programHeaderOf text i).InMemory text
          (elfLoad initrdInterface frame files (some path)).2.env.memory) ∧
      ∀ address, address ∉ range frame.header headerBytes →
        Untouched frame text (headerOf text).phnum address →
        (elfLoad initrdInterface frame files (some path)).2.env.memory address =
          files.env.memory address := by
  have enough := loadable.hasHeader
  rcases header_read isNode isText short ran succeeded locals kernelApart with
    ⟨returned, ⟨entry, next⟩, isHeader, framed⟩
  rw [min_eq_left enough] at returned
  have read : vfsRead initrdInterface opened fd frame.header headerBytes =
      ((headerBytes : ℤ), (vfsRead initrdInterface opened fd frame.header headerBytes).2) :=
    Prod.ext returned rfl
  generalize (vfsRead initrdInterface opened fd frame.header headerBytes).2 = started at *
  have isHeader := isHeader enough
  have accepted : Accepted initrdInterface frame files (some path) fd started :=
    ⟨by rw [ran], succeeded, by rw [ran]; exact read, by rw [isHeader]; exact loadable.valid⟩
  have apart := loadable.loadsApart short
  rcases loadProgramHeaders_run short locals kernelApart apart next le_rfl with
    ⟨⟨last, stillOpen⟩, unchanged⟩
  rw [elfLoad_of_accepted accepted,
    entryLeft_eq short locals kernelApart apart next isHeader, isHeader]
  simp only [Initrd.passive_initrdInterface.vfsClose_env]
  refine ⟨trivial, ?_,
    loadProgramHeaders_loadable short locals kernelApart loadable next le_rfl, ?_⟩
  · rw [Vfs.vfsClose_table stillOpen.found, Function.update_self]
    rfl
  · intro address notHeader untouched
    rw [unchanged address untouched, framed.memory notHeader]

end

/-- A loadable file of the initrd is loaded faithfully exactly if memory already held every
segment that has bytes in the file and belongs at address 0. -/
theorem elfLoad_faithful_iff
    (isNode : IsFileNode files.env.rest.initrd (files.env.rest.resolve path) index)
    (isText : contents files.env.memory (files.env.rest.initrd.files index) = text)
    (short : text.length < 2 ^ 31)
    (ran : vfsOpen initrdInterface files (some path) 0 = (fd, opened)) (succeeded : 0 ≤ fd)
    (locals : range frame.header headerBytes ∪ range frame.phdr programHeaderBytes ⊆ kernel)
    (kernelApart : Disjoint kernel (files.env.rest.initrd.files index).bytes)
    (loadable : Loadable kernel (files.env.rest.initrd.files index).bytes text) :
    LoadsFaithfully frame text files path fd ↔
      ∀ i < (headerOf text).phnum, (programHeaderOf text i).type = ptLoad →
        (programHeaderOf text i).vaddr = 0 → 0 < (programHeaderOf text i).filesz →
          (programHeaderOf text i).InMemory text files.env.memory := by
  rcases elfLoad_loadable isNode isText short ran succeeded locals kernelApart loadable with
    ⟨entry, free, inMemory, unchanged⟩
  have same {i : ℕ} (listed : i < (headerOf text).phnum)
      (isLoad : (programHeaderOf text i).type = ptLoad)
      (skipped : ¬(programHeaderOf text i).Written text) :
      Set.EqOn (elfLoad initrdInterface frame files (some path)).2.env.memory files.env.memory
        (programHeaderOf text i).footprint := by
    intro address inSegment
    refine unchanged address ?_ (untouched_of_skipped locals loadable listed isLoad skipped
      inSegment)
    exact fun inHeader => Set.disjoint_left.mp (loadable.notKernel i listed isLoad) inSegment
      (locals (Or.inl inHeader))
  constructor
  · intro faithful i listed isLoad null fromFile
    have short := loadable.not_long listed isLoad
    have skipped : ¬(programHeaderOf text i).Written text := by
      rintro ⟨-, placed | empty | long⟩
      · exact placed null
      · omega
      · omega
    exact (faithful.segments i listed isLoad).congr (same listed isLoad skipped).symm
  · intro already
    refine ⟨entry, ?_, ?_, free⟩
    · intro i listed isLoad
      by_cases written : (programHeaderOf text i).Written text
      · exact inMemory i listed written
      · have null := not_not.mp fun placed => written ⟨isLoad, Or.inl placed⟩
        have fromFile := Nat.pos_of_ne_zero fun empty => written ⟨isLoad, Or.inr (Or.inl empty)⟩
        exact (already i listed isLoad null fromFile).congr (same listed isLoad written)
    · intro address notHeader notPhdr notSegment
      exact unchanged address notHeader
        ⟨notPhdr, fun i listed _ written => notSegment i listed written.1⟩

end Call

/-- A program with one segment, of four bytes in the file and eight in memory. -/
def smallProgram (vaddr : ℕ) : Bytes :=
  elfHeaderFile 0x300000 52 32 1 ++
    LittleEndian.pack [(4, 1), (4, 84), (4, vaddr), (4, vaddr), (4, 4), (4, 8), (4, 7), (4, 4)] ++
    ascii "code"

def sampleKernel : Set ℕ := range 0x7000 0x1000

theorem sampleFrame_locals :
    range sampleFrame.header headerBytes ∪ range sampleFrame.phdr programHeaderBytes ⊆
      sampleKernel := by
  rw [Set.union_subset_iff]
  exact ⟨range_subset_range (by decide) (by decide), range_subset_range (by decide) (by decide)⟩

theorem range_disjoint_loneFile {address count size : ℕ} (below : address + count ≤ 0x800000)
    (small : size ≤ 0x800000) :
    Disjoint (range address count) (Initrd.loneFile size).bytes := by
  refine Set.disjoint_left.mpr fun location inRange inFile => ?_
  refine Initrd.loneFile_apart below small ?_ inFile
  exact (mem_addresses_of_le (by omega)).mpr inRange

theorem smallProgram_loadable {vaddr : ℕ} (length : (smallProgram vaddr).length = 88)
    (valid : elfValidate (headerOf (smallProgram vaddr)))
    (phnum : (headerOf (smallProgram vaddr)).phnum = 1)
    (phoff : (headerOf (smallProgram vaddr)).phoff = 52)
    (segment : programHeaderOf (smallProgram vaddr) 0 = ⟨1, 84, vaddr, 4, 8⟩)
    (place : vaddr + 8 ≤ 0x7000 ∨ 0x8000 ≤ vaddr ∧ vaddr + 8 ≤ 0x800000) :
    Loadable sampleKernel (Initrd.loneFile (smallProgram vaddr).length).bytes
      (smallProgram vaddr) := by
  have footprint : (programHeaderOf (smallProgram vaddr) 0).footprint = range vaddr 8 := by
    rw [segment]
    rfl
  have alone {i : ℕ} (listed : i < (headerOf (smallProgram vaddr)).phnum) : i = 0 := by omega
  refine ⟨?_, valid, ?_, ?_, ?_, ?_, ?_, ?_⟩
  · rw [length]
    decide
  · intro i listed
    rw [alone listed, phoff, length, programHeaderBytes]
    omega
  · intro i listed _
    rw [alone listed, segment, length]
    exact Or.inr le_rfl
  · intro i listed _
    rw [alone listed, segment]
    show vaddr + 8 ≤ 2 ^ 32
    omega
  · intro i listed j other different
    exact absurd ((alone listed).trans (alone other).symm) different
  · intro i listed _
    rw [alone listed, footprint]
    exact disjoint_range (by omega)
  · intro i listed _
    rw [alone listed, footprint, length]
    exact range_disjoint_loneFile (by omega) (by decide)

theorem elfLoad_faithful_small :
    LoadsFaithfully sampleFrame (smallProgram 0x300000)
      (Initrd.loneFiles (smallProgram 0x300000)) (ascii "/file") 3 := by
  have length : (smallProgram 0x300000).length = 88 := by decide +kernel
  have phnum : (headerOf (smallProgram 0x300000)).phnum = 1 := by decide +kernel
  have segment : programHeaderOf (smallProgram 0x300000) 0 = ⟨1, 84, 0x300000, 4, 8⟩ := by
    decide +kernel
  have loadable := smallProgram_loadable length (by decide +kernel) phnum (by decide +kernel)
    segment (by decide)
  have opens : (vfsOpen initrdInterface (Initrd.loneFiles (smallProgram 0x300000))
      (some (ascii "/file")) 0).1 = 3 := by decide +kernel
  refine (@elfLoad_faithful_iff _ _ (ascii "/file") 3 0 _ _ _ ⟨ascii "file", _, rfl⟩
    (Initrd.contents_loneFile (by rw [length]; decide)) (by rw [length]; decide)
    (Prod.ext opens rfl) (by decide) sampleFrame_locals
    (range_disjoint_loneFile (by decide) (by rw [length]; decide)) loadable).mpr ?_
  intro i listed _ null
  have only : i = 0 := by omega
  rw [only, segment] at null
  cases null

/-- The entry point of a loadable file is returned, but the first byte of its segment at address 0
is not there. -/
theorem segment_at_zero_is_skipped :
    Loadable sampleKernel (Initrd.loneFile (smallProgram 0).length).bytes
        (smallProgram 0) ∧
      (elfLoad initrdInterface sampleFrame (Initrd.loneFiles (smallProgram 0))
        (some (ascii "/file"))).1 = 0x300000 ∧
      (elfLoad initrdInterface sampleFrame (Initrd.loneFiles (smallProgram 0))
        (some (ascii "/file"))).2.env.memory 0 = 0 ∧
      slice (smallProgram 0) 84 4 = ascii "code" := by
  refine ⟨?_, by decide +kernel, by decide +kernel, by decide +kernel⟩
  exact smallProgram_loadable (by decide +kernel) (by decide +kernel) (by decide +kernel)
    (by decide +kernel) (by decide +kernel) (by decide)

theorem Loadable.mono {kernel less more : Set ℕ} {text : Bytes}
    (loadable : Loadable kernel more text) (subset : less ⊆ more) : Loadable kernel less text :=
  { loadable with
    notFile := fun i listed isLoad => (loadable.notFile i listed isLoad).mono_right subset }

/-- Booting from an archive and loading a program at its top level, without segments at address 0,
leads to the entry point and the image of the program that was archived. -/
theorem boot_loads_program {memory : Memory} {allocate : ℕ → ℕ} {addr rootMount : ℕ}
    {files : List Initrd.File} {archive : Bytes} {kernel : Set ℕ} {frame : Frame}
    (boots : Initrd.Boots memory allocate addr rootMount files archive) (state : Initrd.State)
    (locals : range frame.header headerBytes ∪ range frame.phdr programHeaderBytes ⊆ kernel)
    (kernelApart : Disjoint kernel (range addr archive.length)) :
    ∃ loaded,
      Initrd.initrdInit (files.length + 257) memory allocate addr archive.length state =
        some (files.length, loaded) ∧
      ∀ (index : ℕ) (listed : index < files.length),
        Vfs.IsComponent files[index].name → files[index].contents.length < 2 ^ 31 →
        Loadable kernel (range addr archive.length) files[index].contents →
        (∀ i < (headerOf files[index].contents).phnum,
          (programHeaderOf files[index].contents i).type = ptLoad →
          (programHeaderOf files[index].contents i).vaddr ≠ 0) →
        LoadsFaithfully frame files[index].contents
          (Vfs.clearedFiles (Initrd.bootMachine memory loaded rootMount))
          ('/'.toUInt8 :: files[index].name) 3 := by
  rcases boots.finds state with ⟨loaded, ran, finds⟩
  refine ⟨loaded, ran, fun index listed proper short loadable placed => ?_⟩
  have found := finds index listed proper
  rcases elfLoad_loadable found.isNode found.text short
    (Prod.ext (found.vfsOpen_cleared 0) rfl) (by decide) locals
    (kernelApart.mono_right found.inside) (loadable.mono found.inside) with
    ⟨entry, free, inMemory, unchanged⟩
  refine ⟨entry, ?_, ?_, free⟩
  · intro i header isLoad
    exact inMemory i header ⟨isLoad, Or.inl (placed i header isLoad)⟩
  · intro address notHeader notPhdr notSegment
    exact unchanged address notHeader
      ⟨notPhdr, fun i header _ written => notSegment i header written.1⟩

def initFile : Initrd.File where
  name := ascii "init"
  contents := smallProgram 0x300000

theorem exists_initArchive :
    ∃ archive, Initrd.Boots (place 0x800000 archive) Initrd.sampleNodes 0x800000 0x400000
      [initFile] archive := by
  have isEntry : Initrd.IsEntry initFile
      (Initrd.plainHeader (ascii "00000058") (ascii "00000005")) [0] [] :=
    ⟨by decide +kernel, by decide +kernel, by decide +kernel, by decide +kernel, by decide +kernel,
      by decide +kernel⟩
  refine ⟨_, .add isEntry (.close [] Initrd.trailer_isEntry), by decide, ?_, by decide +kernel,
    by decide +kernel, load_place_all _ _, fun call _ => Initrd.sampleNodes_ne_zero call,
    Initrd.sampleNodes_injective.injOn, by decide⟩
  rintro file listed
  rw [List.mem_singleton.mp listed]
  exact ⟨by decide, by decide, by decide, by decide, by decide, by decide⟩

theorem boot_loads_program_init :
    ∃ archive loaded,
      Initrd.initrdInit 258 (place 0x800000 archive) Initrd.sampleNodes 0x800000 archive.length
        Initrd.State.initial = some (1, loaded) ∧
      LoadsFaithfully sampleFrame (smallProgram 0x300000)
        (Vfs.clearedFiles (Initrd.bootMachine (place 0x800000 archive) loaded 0x400000))
        (ascii "/init") 3 := by
  rcases exists_initArchive with ⟨archive, boots⟩
  have phnum : (headerOf (smallProgram 0x300000)).phnum = 1 := by decide +kernel
  have segment : programHeaderOf (smallProgram 0x300000) 0 = ⟨1, 84, 0x300000, 4, 8⟩ := by
    decide +kernel
  have only (i : ℕ) (listed : i < (headerOf (smallProgram 0x300000)).phnum) : i = 0 := by omega
  have loadable := smallProgram_loadable (by decide +kernel) (by decide +kernel) phnum
    (by decide +kernel) segment (by decide)
  rcases boot_loads_program boots Initrd.State.initial sampleFrame_locals
    (disjoint_range (Or.inl (by decide))) with ⟨loaded, ran, loads⟩
  refine ⟨archive, loaded, ran, loads 0 (by decide) ?_ (by decide +kernel)
    { loadable with notFile := fun i listed _ => ?_ } fun i listed _ => ?_⟩
  · exact ⟨by decide, by decide, by decide, by decide, by decide, by decide⟩
  · change Disjoint (programHeaderOf (smallProgram 0x300000) i).footprint _
    rw [only i listed, segment]
    exact disjoint_range (Or.inl (by decide))
  · change (programHeaderOf (smallProgram 0x300000) i).vaddr ≠ 0
    rw [only i listed, segment]
    decide

end RamOS.Proc
