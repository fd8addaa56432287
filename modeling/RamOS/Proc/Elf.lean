import RamOS.Initrd.Files
import RamOS.Lib.LittleEndian
import RamOS.Proc.Model

/-!
# The ELF loader

`elf_load` reads the header of a file, and then for every program header seeks, reads it, and
for a loadable segment seeks and reads again. What goes wrong in this loop is skipped, and in
the end the entry point is returned. Its two records are local variables, into which the reads
store as into any other buffer.
-/

namespace RamOS.Proc

open ByteMemory CString LittleEndian WordMemory
open Vfs (Files Interface Machine vfsClose vfsOpen vfsRead vfsSeek)

/-- The fields of `elf_header_t` that the loader uses. -/
structure ElfHeader where
  ident : Bytes
  type : ℕ
  machine : ℕ
  entry : ℕ
  phoff : ℕ
  phentsize : ℕ
  phnum : ℕ

/-- The fields of `elf_program_header_t` that the loader uses. -/
structure ProgramHeader where
  type : ℕ
  offset : ℕ
  vaddr : ℕ
  filesz : ℕ
  memsz : ℕ
deriving DecidableEq

def ElfHeader.ofBytes (bytes : Bytes) : ElfHeader :=
  let value (index : ℕ) : ℕ :=
    (unpack [2, 2, 4, 4, 4, 4, 4, 2, 2, 2, 2, 2, 2] (bytes.drop 16)).getD index 0
  { ident := bytes.take 16
    type := value 0
    machine := value 1
    entry := value 3
    phoff := value 4
    phentsize := value 8
    phnum := value 9 }

def ProgramHeader.ofBytes (bytes : Bytes) : ProgramHeader :=
  let value (index : ℕ) : ℕ := (unpack [4, 4, 4, 4, 4, 4, 4, 4] bytes).getD index 0
  { type := value 0
    offset := value 1
    vaddr := value 2
    filesz := value 4
    memsz := value 5 }

def headerBytes : ℕ := 52

def programHeaderBytes : ℕ := 32

def ptLoad : ℕ := 1

def elfValidate (header : ElfHeader) : Bool :=
  header.ident.take 4 = [0x7F, 0x45, 0x4C, 0x46] && header.ident.getD 4 0 = 1 &&
    header.ident.getD 5 0 = 1 && header.type = 2 && header.machine = 3

/-- Where the two local variables of `elf_load` lie. -/
structure Frame where
  header : ℕ
  phdr : ℕ
  headerInside : 0 < header ∧ header + headerBytes ≤ 2 ^ 32
  phdrInside : 0 < phdr ∧ phdr + programHeaderBytes ≤ 2 ^ 32
  apart : Disjoint (range header headerBytes) (range phdr programHeaderBytes)

variable {Rest : Type}

def Frame.headerIn (frame : Frame) (memory : Memory) : ElfHeader :=
  .ofBytes (load memory frame.header headerBytes)

def Frame.phdrIn (frame : Frame) (memory : Memory) : ProgramHeader :=
  .ofBytes (load memory frame.phdr programHeaderBytes)

def zeroRest (files : Files (Machine Rest)) (phdr : ProgramHeader) : Files (Machine Rest) :=
  if phdr.filesz < phdr.memsz then
    { files with
      env :=
        { files.env with
          memory := fillAlong files.env.memory 0
            (addresses (Word32.add phdr.vaddr phdr.filesz) (phdr.memsz - phdr.filesz)) } }
  else files

section Loader

variable (api : Interface (Machine Rest)) (frame : Frame) (fd : ℤ)

def loadSegment (files : Files (Machine Rest)) (phdr : ProgramHeader) : Files (Machine Rest) :=
  let files := (vfsSeek api files fd (Word32.toInt phdr.offset) 0).2
  if 0 < phdr.filesz then
    let (result, files) := vfsRead api files fd phdr.vaddr phdr.filesz
    if result ≠ Word32.toInt phdr.filesz then files else zeroRest files phdr
  else zeroRest files phdr

/-- The seek to a program header, whose offset is computed as a word. -/
def seekProgramHeader (header : ElfHeader) (files : Files (Machine Rest)) (i : ℕ) :
    Files (Machine Rest) :=
  let offset := (header.phoff + i * header.phentsize) % 2 ^ 32
  (vfsSeek api files fd (Word32.toInt offset) 0).2

def loadProgramHeader (header : ElfHeader) (files : Files (Machine Rest)) (i : ℕ) :
    Files (Machine Rest) :=
  let files := seekProgramHeader api fd header files i
  let (result, files) := vfsRead api files fd frame.phdr programHeaderBytes
  if result ≠ programHeaderBytes then files
  else
    let phdr := frame.phdrIn files.env.memory
    if phdr.type ≠ ptLoad then files else loadSegment api fd files phdr

def loadProgramHeaders (header : ElfHeader) (files : Files (Machine Rest)) (count : ℕ) :
    Files (Machine Rest) :=
  (List.range count).foldl (loadProgramHeader api frame fd header) files

def elfLoad (files : Files (Machine Rest)) (path : Option Bytes) :
    ℕ × Files (Machine Rest) :=
  let (fd, files) := vfsOpen api files path 0
  if fd < 0 then (0, files)
  else
    let (result, files) := vfsRead api files fd frame.header headerBytes
    if result ≠ headerBytes then (0, (vfsClose api files fd).2)
    else
      let header := frame.headerIn files.env.memory
      if !elfValidate header then (0, (vfsClose api files fd).2)
      else
        let files := loadProgramHeaders api frame fd header files header.phnum
        let files := (vfsClose api files fd).2
        ((frame.headerIn files.env.memory).entry, files)

/-- The header was read and accepted; `started` is the state before the loop. -/
structure Accepted (files : Files (Machine Rest)) (path : Option Bytes) (fd : ℤ)
    (started : Files (Machine Rest)) : Prop where
  isFd : (vfsOpen api files path 0).1 = fd
  opened : 0 ≤ fd
  read : vfsRead api (vfsOpen api files path 0).2 fd frame.header headerBytes =
    ((headerBytes : ℤ), started)
  valid : elfValidate (frame.headerIn started.env.memory)

/-- The entry point that is returned after the loop, from the state before it. -/
def entryLeft (started : Files (Machine Rest)) : ℕ :=
  let header := frame.headerIn started.env.memory
  let files := loadProgramHeaders api frame fd header started header.phnum
  (frame.headerIn (vfsClose api files fd).2.env.memory).entry

variable {api frame fd} {files started : Files (Machine Rest)} {path : Option Bytes}

theorem loadProgramHeaders_succ (header : ElfHeader) (count : ℕ) :
    loadProgramHeaders api frame fd header started (count + 1) =
      loadProgramHeader api frame fd header
        (loadProgramHeaders api frame fd header started count) count := by
  rw [loadProgramHeaders, List.range_succ, List.foldl_append]
  rfl

theorem elfLoad_of_accepted (accepted : Accepted api frame files path fd started) :
    elfLoad api frame files path =
      (entryLeft api frame fd started,
        (vfsClose api
          (loadProgramHeaders api frame fd (frame.headerIn started.env.memory) started
            (frame.headerIn started.env.memory).phnum) fd).2) := by
  have isFd := accepted.isFd
  have opened := accepted.opened
  simp only [elfLoad, isFd, if_neg (Int.not_lt.mpr opened), accepted.read, ne_eq,
    not_true_eq_false, if_false, accepted.valid, Bool.not_true, Bool.false_eq_true]
  rfl

end Loader

def elfHeaderFile (entry phoff phentsize phnum : ℕ) : Bytes :=
  [0x7F, 0x45, 0x4C, 0x46, 1, 1] ++ List.replicate 10 0 ++
    pack [(2, 2), (2, 3), (4, 1), (4, entry), (4, phoff), (4, 0), (4, 0), (2, headerBytes),
      (2, phentsize), (2, phnum), (2, 0), (2, 0), (2, 0)]

def sampleFrame : Frame where
  header := 0x7000
  phdr := 0x7100
  headerInside := by decide
  phdrInside := by decide
  apart := disjoint_range (by decide)

end RamOS.Proc
