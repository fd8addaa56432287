import RamOS.Initrd.Chunks

/-!
# From the archive to the file operations

The boot loader leaves an archive in memory, `initrd_init` registers its files, `vfs_init` mounts
their root, and programs open the files by their paths and read them. Put together, what is read
from a file at the top level is what was put into the archive.
-/

namespace RamOS.Initrd

open ByteMemory CString WordMemory
open Vfs (Machine)

/-- The boot loader has left an archive in memory, and `kmalloc` finds room for the nodes of its
files and for the root mount. -/
structure Boots (memory : Memory) (allocate : ℕ → ℕ) (addr rootMount : ℕ) (files : List File)
    (archive : Bytes) : Prop where
  isArchive : IsArchive files archive
  atMost : files.length ≤ 64
  valid : ∀ file ∈ files, ValidName file.name
  apart : (files.map File.name).Nodup
  fits : addr + archive.length < 2 ^ 32
  held : load memory addr archive.length = archive
  allocated : ∀ call ≤ files.length, allocate call ≠ 0
  distinct : Set.InjOn allocate (Set.Iic files.length)
  mounted : rootMount ≠ 0

/-- The machine when `vfs_init` has returned. -/
def bootMachine (memory : Memory) (loaded : State) (rootMount : ℕ) : Machine Disk where
  memory := memory
  rest :=
    { initrd := loaded
      resolve := Vfs.vfsFinddir (vfsInit loaded rootMount) }

/-- A file at the top level is found by its path, and its contents are in the archive. -/
structure Found (machine : Machine Disk) (archive : Set ℕ) (index : ℕ) (file : File) : Prop where
  nonzero : machine.rest.resolve ('/'.toUInt8 :: file.name) ≠ 0
  isNode : IsFileNode machine.rest.initrd (machine.rest.resolve ('/'.toUInt8 :: file.name)) index
  text : contents machine.memory (machine.rest.initrd.files index) = file.contents
  inside : (machine.rest.initrd.files index).bytes ⊆ archive

/-- It is opened as the first descriptor. -/
theorem Found.vfsOpen_cleared {machine : Machine Disk} {archive : Set ℕ} {index : ℕ} {file : File}
    (found : Found machine archive index file) (flags : ℤ) :
    (Vfs.vfsOpen initrdInterface (Vfs.clearedFiles machine) (some ('/'.toUInt8 :: file.name))
      flags).1 = 3 := by
  rcases found.isNode with ⟨name, size, node⟩
  have free : Vfs.allocFd (fun _ => .closed) = some 3 := by decide
  have nonzero : ¬(initrdInterface.finddir (Vfs.clearedFiles machine).env _).1 = 0 := found.nonzero
  rw [Vfs.vfsOpen]
  dsimp only
  rw [if_neg nonzero, if_neg, Vfs.clearedFiles, free]
  · rfl
  · refine not_and_of_not_left _ (not_not.mpr ?_)
    change (machine.rest.initrd.nodes (machine.rest.resolve _)).flags &&& _ = 0
    rw [node]
    exact (by decide : Vfs.vfsFile &&& Vfs.vfsDirectory = 0)

section Boot

variable {memory : Memory} {allocate : ℕ → ℕ} {addr rootMount : ℕ} {files : List File}
  {archive : Bytes} (boots : Boots memory allocate addr rootMount files archive)
  (state : State)
include boots

/-- `initrd_init` registers the files, and the mounted root finds those at the top level. -/
theorem Boots.finds :
    ∃ loaded,
      initrdInit (files.length + 257) memory allocate addr archive.length state =
        some (files.length, loaded) ∧
      ∀ (index : ℕ) (listed : index < files.length), Vfs.IsComponent files[index].name →
        Found (bootMachine memory loaded rootMount) (range addr archive.length) index
          files[index] := by
  rcases boots with ⟨isArchive, atMost, valid, apart, fits, held, allocated, distinct, mounted⟩
  rcases initrdInit_valid isArchive atMost valid fits held with ⟨loaded, runs, count, described⟩
  have ran := runs _ le_rfl
  refine ⟨_, ran, fun index listed proper => ?_⟩
  have describes := described index listed
  rcases initrdInit_loaded ran allocated distinct with ⟨-, isLoaded⟩
  have unique (other : ℕ) (inside : other < loaded.fileCount)
      (same : (loaded.files other).name = (loaded.files index).name) : other = index := by
    rw [count] at inside
    refine (@List.Nodup.getElem_inj_iff _ _ apart other (by simpa) index (by simpa)).mp ?_
    rw [List.getElem_map, List.getElem_map]
    exact (described other inside).name.symm.trans (same.trans describes.name)
  have resolved : Vfs.vfsFinddir (vfsInit loaded rootMount)
      ('/'.toUInt8 :: files[index].name) = allocate index := by
    have searched := isLoaded.initrdFind_eq (count.symm ▸ listed) unique
    rw [isLoaded.vfsFinddir_topLevel mounted proper, initrdFinddir, ← describes.name]
    rw [searched]
    exact isLoaded.listed index (count.symm ▸ listed)
  have node := initrdInit_fileNode ran allocated distinct listed
  have upper := describes.upper
  refine ⟨resolved.trans_ne (allocated index listed.le), ?_, ?_, ?_⟩
  · change IsFileNode _ (Vfs.vfsFinddir _ _) index
    rw [resolved]
    exact ⟨_, _, node⟩
  · have size := describes.size
    change contents memory (loaded.files index) = _
    rw [contents, fileAddresses, map_addresses_of_le (by omega), size]
    exact describes.contents
  · intro address inFile
    change address ∈ addresses (loaded.files index).data _ at inFile
    exact range_subset_range describes.lower upper ((mem_addresses_of_le (by omega)).mp inFile)

/-- Booting from an archive and opening a file at the top level by its path leads to the first
descriptor, and any reads of it, with any calls for other descriptors in between, deliver the
beginning of the contents that were archived. -/
theorem boot_reads_archive :
    ∃ loaded,
      initrdInit (files.length + 257) memory allocate addr archive.length state =
        some (files.length, loaded) ∧
      ∀ (index : ℕ) (listed : index < files.length) (flags : ℤ),
        Vfs.IsComponent files[index].name → files[index].contents.length < 2 ^ 31 →
        Word32.ofInt flags &&& Vfs.oWronly = 0 →
        ∃ opened,
          Vfs.vfsOpen initrdInterface (Vfs.clearedFiles (bootMachine memory loaded rootMount))
            (some ('/'.toUInt8 :: files[index].name)) flags = (3, opened) ∧
          ∀ calls, (∀ call ∈ calls, ValidCall 3 (loaded.files index) call) →
            dataRead 3 opened calls = files[index].contents.take (totalRequested 3 calls) := by
  rcases boots.finds state with ⟨loaded, ran, finds⟩
  refine ⟨loaded, ran, fun index listed flags proper short readable => ?_⟩
  have found := finds index listed proper
  have opens := found.vfsOpen_cleared flags
  refine ⟨_, Prod.ext opens rfl, fun calls validCalls => ?_⟩
  have isOpen := openOn_of_vfsOpen found.isNode readable (Prod.ext opens rfl) (by decide)
  have text : contents memory (loaded.files index) = _ := found.text
  change OpenOn _ _ _ (contents memory (loaded.files index)) _ _ at isOpen
  rw [text] at isOpen
  have reading : Reading _ _ _ _ _ _ := ⟨isOpen, Nat.zero_le _⟩
  rw [(reading.run short validCalls).2, Slice.slice, List.drop_zero, Nat.sub_zero,
    ← List.take_take, List.take_length]

end Boot

theorem boots_sampleArchive :
    Boots (place 0x800000 sampleArchive) sampleNodes 0x800000 0x300000 [motdFile, hostsFile]
      sampleArchive :=
  ⟨sampleArchive_isArchive, by decide, sampleFiles_valid, by decide,
    by rw [length_sampleArchive]; omega, load_place_all 0x800000 _,
    fun call _ => sampleNodes_ne_zero call, sampleNodes_injective.injOn, by decide⟩

theorem boot_reads_archive_motd :
    ∃ loaded opened,
      initrdInit 259 (place 0x800000 sampleArchive) sampleNodes 0x800000 sampleArchive.length
        State.initial = some (2, loaded) ∧
      Vfs.vfsOpen initrdInterface
        (Vfs.clearedFiles (bootMachine (place 0x800000 sampleArchive) loaded 0x300000))
        (some (ascii "/motd")) 1 = (3, opened) ∧
      ∀ calls, (∀ call ∈ calls, ValidCall 3 (loaded.files 0) call) →
        dataRead 3 opened calls = motdFile.contents.take (totalRequested 3 calls) := by
  rcases boot_reads_archive boots_sampleArchive State.initial with ⟨loaded, ran, reads⟩
  rcases reads 0 (by decide) 1 isComponent_motd (by decide) (by decide) with ⟨opened, read⟩
  exact ⟨loaded, opened, ran, read⟩

end RamOS.Initrd
